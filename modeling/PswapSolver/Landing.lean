import PswapSolver.Recovery

/-! # A batch on the chain

The executor submits a batch up to six times.  An attempt whose answer is lost may have landed;
the loop of `submit_with_rpc_backoff` does not look, and submits again.  The chain then refuses
the batch, for its notes are spent, and the executor takes its own transaction for somebody
else's.

Here the chain is part of the state: who has spent each note.  What an attempt does to it and
what comes back is a parameter, about which only the chain's rules are assumed (`Chain.Rules`):

* **spent once**: what is spent stays so, by whoever spent it first;
* **all or none**: a transaction lands only if all its notes are unspent, and then spends them
  all;
* **an answer follows the landing**: a success is reported of a transaction that has landed.

Others may spend notes at any time.  The executor's answers are not a parameter any more: they
come from the chain (`Call.answers`).

`submitted` says what the attempts of a batch do to the chain and what the executor learns of it,
and `justified_executeBatch` that what the executor then records is true.
-/
namespace PswapSolver
variable {Note : Type}

/-! ## The chain -/

/-- Who has spent a note: a transaction of the solver, by the number of its batch, or somebody
else. -/
inductive Spender where
  | solver (batch : Nat)
  | other
deriving DecidableEq

/-- Who has spent each note. -/
abbrev Chain := OrderId → Option Spender

namespace Chain

/-- Notes are spent, if they are not spent yet: a note is spent once. -/
def spend (c : Chain) (ids : List OrderId) (who : Spender) : Chain := fun N =>
  if N ∈ ids ∧ c N = none then some who else c N

/-- What is spent stays spent, by whoever spent it first. -/
def Extends (c c' : Chain) : Prop := ∀ N who, c N = some who → c' N = some who

theorem Extends.refl (c : Chain) : c.Extends c := fun _ _ h => h

theorem Extends.trans {c c' c'' : Chain} (h : c.Extends c') (h' : c'.Extends c'') :
    c.Extends c'' := fun N who hN => h' N who (h N who hN)

theorem extends_spend (c : Chain) (ids : List OrderId) (who : Spender) :
    c.Extends (c.spend ids who) := by
  intro N w hN
  rw [spend, if_neg (by simp [hN])]
  exact hN

theorem Extends.ne_none {c c' : Chain} (h : c.Extends c') {N : OrderId} (hN : c N ≠ none) :
    c' N ≠ none := by
  obtain ⟨who, hwho⟩ := Option.ne_none_iff_exists'.mp hN
  rw [h N who hwho]
  exact Option.some_ne_none who

/-- A newly spent note was spent by the one who spends. -/
theorem of_spend {c : Chain} {ids : List OrderId} {who w : Spender} {N : OrderId}
    (h : c.spend ids who N = some w) : c N = some w ∨ w = who ∧ N ∈ ids := by
  unfold spend at h
  split at h
  · rename_i hnew
    exact Or.inr ⟨(Option.some.inj h).symm, hnew.1⟩
  · exact Or.inl h

end Chain

/-! ## One batch on the chain -/

/-- The transaction of batch number `k` lands: it finds all its notes unspent and spends them. -/
def Chain.Lands (k : Nat) (ids : List OrderId) (c c' : Chain) : Prop :=
  (∀ N ∈ ids, c N = none) ∧ ∀ N, c' N = some (.solver k) ↔ c N = some (.solver k) ∨ N ∈ ids

/-- **The rules of the chain** for an attempt to submit batch number `k`; others may spend notes
meanwhile. -/
structure Chain.Rules (k : Nat) (ids : List OrderId) (c c' : Chain) (answer : Attempt) : Prop where
  spentOnce : c.Extends c'
  /-- Only this batch spends for the solver. -/
  own : ∀ N j, j ≠ k → c' N = some (.solver j) → c N = some (.solver j)
  allOrNone : Chain.Lands k ids c c' ∨ ∀ N, c' N = some (.solver k) ↔ c N = some (.solver k)
  answered : answer = .landed → Chain.Lands k ids c c'

/-- What a batch meets.  The chain keeps its rules, and the nullifier check reports spent notes
only. -/
structure Call where
  flowOrder : List TokenId
  /-- What an attempt to submit batch number `k` does to the chain, and what it comes to. -/
  submit : (k : Nat) → List OrderId → (attempt : Nat) → Chain → Chain × Attempt
  rules : ∀ k ids n c, Chain.Rules k ids c (submit k ids n c).1 (submit k ids n c).2
  /-- The notes others spend before the nullifier check. -/
  late : List OrderId
  /-- The spent notes, if the nullifier check succeeds. -/
  check : List OrderId → Chain → Option (List OrderId)
  check_spent : ∀ {ids c spent}, check ids c = some spent → ∀ N ∈ spent, c N ≠ none

/-- How many attempts are made, when this many retries are left. -/
def attemptsFrom (answer : Nat → Attempt) : Nat → Nat
  | 0 => maxRpcRetries + 1
  | left + 1 =>
    match answer (maxRpcRetries - (left + 1)) with
    | .rpcError false => attemptsFrom answer left
    | _ => maxRpcRetries - left

namespace Call
variable (call : Call) (k : Nat) (ids : List OrderId) (c : Chain)

/-- The chain before an attempt, if it comes to that. -/
def chainAt : Nat → Chain
  | 0 => c
  | n + 1 => (call.submit k ids n (chainAt n)).1

/-- What an attempt comes to. -/
def answerAt (n : Nat) : Attempt := (call.submit k ids n (call.chainAt k ids c n)).2

/-- The attempts that are made. -/
def attempts : Nat := attemptsFrom (call.answerAt k ids c) maxRpcRetries

/-- The chain at the nullifier check, and after the batch. -/
def chainAfter : Chain :=
  (call.chainAt k ids c (call.attempts k ids c)).spend call.late .other

/-- **What the chain answers to a batch.** -/
def answers : ExecutorAnswers where
  flowOrder := call.flowOrder
  attempts := call.answerAt k ids c
  checkConsumed := call.check ids (call.chainAfter k ids c)

/-- An attempt lands, and its answer is lost. -/
def LostAt (n : Nat) : Prop :=
  Chain.Lands k ids (call.chainAt k ids c n) (call.chainAt k ids c (n + 1)) ∧
    call.answerAt k ids c n ≠ .landed

/-- The answer to one of the attempts is lost. -/
def AnswerLost : Prop := ∃ n < call.attempts k ids c, call.LostAt k ids c n

end Call

/-! ## The loop -/

/-- How the loop ends with an attempt: the outcome. -/
def Attempt.outcome (last : Bool) : Attempt → SubmitOutcome
  | .buildFailed => .buildFailed
  | .landed => .success
  | .rpcError cancelled => if cancelled ∧ last = false then .cancelled else .rpcExhausted
  | .rejected => .txError

/-- **The loop of the executor**: after transient errors only, an attempt is the last. -/
structure Looped (answer : Nat → Attempt) (first made : Nat) (outcome : SubmitOutcome) : Prop where
  first_lt : first < made
  made_le : made ≤ maxRpcRetries + 1
  before : ∀ n, first ≤ n → n + 1 < made → answer n = .rpcError false
  last : outcome = (answer (made - 1)).outcome (decide (made = maxRpcRetries + 1))

theorem looped_submitFrom (answer : Nat → Attempt) {left : Nat} (h : left ≤ maxRpcRetries) :
    Looped answer (maxRpcRetries - left) (attemptsFrom answer left) (submitFrom answer left) := by
  induction left with
  | zero =>
    refine ⟨by simp [attemptsFrom], Nat.le_refl _, ?_, ?_⟩
    · intro n hfirst hn
      simp only [attemptsFrom] at hn
      omega
    · simp only [attemptsFrom, submitFrom, Nat.add_sub_cancel]
      cases answer maxRpcRetries <;> simp [Attempt.outcome]
  | succ left ih =>
    have hind := ih (by omega)
    have hstop : ¬ maxRpcRetries - left = maxRpcRetries + 1 := by omega
    have hlast : maxRpcRetries - left - 1 = maxRpcRetries - (left + 1) := by omega
    unfold attemptsFrom submitFrom
    -- the loop ends here unless the error is transient
    have hend : ∀ outcome, outcome = (answer (maxRpcRetries - (left + 1))).outcome false →
        Looped answer (maxRpcRetries - (left + 1)) (maxRpcRetries - left) outcome := by
      intro outcome houtcome
      refine ⟨by omega, by omega, fun n _ _ => by omega, ?_⟩
      rw [hlast, houtcome, decide_eq_false hstop]
    cases hanswer : answer (maxRpcRetries - (left + 1)) with
    | buildFailed => exact hend _ (by rw [hanswer]; rfl)
    | landed => exact hend _ (by rw [hanswer]; rfl)
    | rejected => exact hend _ (by rw [hanswer]; rfl)
    | rpcError cancelled =>
      cases cancelled with
      | true => exact hend _ (by rw [hanswer]; rfl)
      | false =>
        refine ⟨?_, hind.made_le, ?_, hind.last⟩
        · have hlt := hind.first_lt
          show maxRpcRetries - (left + 1) < attemptsFrom answer left
          omega
        · intro n hn hmade
          by_cases hhere : n = maxRpcRetries - (left + 1)
          · rw [hhere]
            exact hanswer
          · exact hind.before n (by omega) hmade

theorem outcome_eq_success {last : Bool} {a : Attempt} :
    a.outcome last = .success ↔ a = .landed := by
  cases a with
  | rpcError cancelled => cases cancelled <;> cases last <;> simp [Attempt.outcome]
  | _ => simp [Attempt.outcome]

/-! ## What a batch does to the chain -/

section Submit
variable {k : Nat} {ids : List OrderId} {c : Chain} {call : Call}

/-- Batch number `k` has spent nothing. -/
def Chain.Free (c : Chain) (k : Nat) : Prop := ∀ N, c N ≠ some (.solver k)

/-- Batch number `k` has spent its notes, and no others. -/
def Chain.Taken (c : Chain) (k : Nat) (ids : List OrderId) : Prop :=
  ∀ N, c N = some (.solver k) ↔ N ∈ ids

/-- **What the attempts of a batch leave of the chain.** -/
structure Chain.Since (k : Nat) (c c' : Chain) : Prop where
  grows : c.Extends c'
  /-- Only this batch spends for the solver. -/
  own : ∀ N j, j ≠ k → c' N = some (.solver j) → c N = some (.solver j)

theorem Chain.Since.others {c' : Chain} (h : Chain.Since k c c') (ids : List OrderId) :
    Chain.Since k c (c'.spend ids .other) := by
  refine ⟨h.grows.trans (Chain.extends_spend _ _ _), fun N j hj hN => ?_⟩
  rcases Chain.of_spend hN with hold | ⟨hnew, -⟩
  · exact h.own N j hj hold
  · cases hnew

/-- An attempt of the batch. -/
theorem Chain.Since.attempt {c' c'' : Chain} {answer : Attempt} (h : Chain.Since k c c')
    (hrules : Chain.Rules k ids c' c'' answer) : Chain.Since k c c'' :=
  ⟨h.grows.trans hrules.spentOnce, fun N j hj hN => h.own N j hj (hrules.own N j hj hN)⟩

theorem Chain.Free.others (h : c.Free k) (ids : List OrderId) : (c.spend ids .other).Free k := by
  intro N hN
  rcases Chain.of_spend hN with hold | ⟨hnew, -⟩
  · exact h N hold
  · cases hnew

theorem Chain.Taken.others (h : c.Taken k ids) (late : List OrderId) :
    (c.spend late .other).Taken k ids := by
  intro N
  rw [← h N]
  constructor
  · intro hN
    rcases Chain.of_spend hN with hold | ⟨hnew, -⟩
    · exact hold
    · cases hnew
  · exact Chain.extends_spend _ _ _ N _

/-- A batch that has spent nothing lands. -/
theorem Chain.Free.lands {c' : Chain} (h : c.Free k) (hlands : Chain.Lands k ids c c') :
    c'.Taken k ids := by
  intro N
  rw [hlands.2 N]
  exact or_iff_right (h N)

/-- A batch that has landed does not land again. -/
theorem Chain.Taken.not_lands {c' : Chain} (h : c.Taken k ids) (hne : ids ≠ []) :
    ¬ Chain.Lands k ids c c' := by
  intro hlands
  obtain ⟨N, hN⟩ := List.exists_mem_of_ne_nil ids hne
  cases (hlands.1 N hN).symm.trans ((h N).mpr hN)

/-- Before an attempt nothing has landed, or the answer to an earlier attempt was lost. -/
structure Before (call : Call) (k : Nat) (ids : List OrderId) (c : Chain) (n : Nat) : Prop where
  since : Chain.Since k c (call.chainAt k ids c n)
  landed : (call.chainAt k ids c n).Free k ∨
    (call.chainAt k ids c n).Taken k ids ∧ ∃ j < n, call.LostAt k ids c j

/-- **An attempt**: it lands if it is answered, and it lands once at most. -/
theorem Before.attempt (hne : ids ≠ []) {n : Nat} (h : Before call k ids c n) :
    Chain.Since k c (call.chainAt k ids c (n + 1)) ∧
    (call.answerAt k ids c n = .landed ∧ (call.chainAt k ids c (n + 1)).Taken k ids ∨
      call.answerAt k ids c n ≠ .landed ∧ Before call k ids c (n + 1)) := by
  have hrules : Chain.Rules k ids (call.chainAt k ids c n) (call.chainAt k ids c (n + 1))
      (call.answerAt k ids c n) := call.rules k ids n _
  have hsince := h.since.attempt hrules
  refine ⟨hsince, ?_⟩
  by_cases hlands : Chain.Lands k ids (call.chainAt k ids c n) (call.chainAt k ids c (n + 1))
  · have htaken : (call.chainAt k ids c (n + 1)).Taken k ids := by
      rcases h.landed with huntouched | ⟨htaken, -⟩
      · exact huntouched.lands hlands
      · exact absurd hlands (htaken.not_lands hne)
    by_cases hanswer : call.answerAt k ids c n = .landed
    · exact Or.inl ⟨hanswer, htaken⟩
    · exact Or.inr ⟨hanswer, hsince, Or.inr ⟨htaken, n, Nat.lt_succ_self n, hlands, hanswer⟩⟩
  · have hkept := hrules.allOrNone.resolve_left hlands
    refine Or.inr ⟨fun hanswer => hlands (hrules.answered hanswer), hsince, ?_⟩
    rcases h.landed with huntouched | ⟨htaken, j, hj, hlost⟩
    · exact Or.inl fun N hN => huntouched N ((hkept N).mp hN)
    · exact Or.inr ⟨fun N => (hkept N).trans (htaken N), j, by omega, hlost⟩

theorem before_of_transient (hne : ids ≠ []) (hfree : c.Free k) {n : Nat}
    (h : ∀ j < n, call.answerAt k ids c j = .rpcError false) : Before call k ids c n := by
  induction n with
  | zero => exact ⟨⟨Chain.Extends.refl c, fun _ _ _ hN => hN⟩, Or.inl hfree⟩
  | succ n ih =>
    have hbefore := ih fun j hj => h j (by omega)
    rcases (hbefore.attempt hne).2 with ⟨hlanded, -⟩ | ⟨-, hnext⟩
    · cases (h n (Nat.lt_succ_self n)).symm.trans hlanded
    · exact hnext

/-- **What a batch does to the chain**, and what the executor learns of it. -/
structure Submitted (call : Call) (k : Nat) (ids : List OrderId) (c : Chain) : Prop where
  since : Chain.Since k c (call.chainAfter k ids c)
  /-- It lands as a whole or not at all. -/
  whole : (call.chainAfter k ids c).Free k ∨ (call.chainAfter k ids c).Taken k ids
  success : submitWithRpcBackoff (call.answerAt k ids c) = .success →
    (call.chainAfter k ids c).Taken k ids
  /-- What has landed and is not reported had its answer lost. -/
  unreported : (call.chainAfter k ids c).Taken k ids →
    submitWithRpcBackoff (call.answerAt k ids c) ≠ .success → call.AnswerLost k ids c

theorem submitted (call : Call) (hne : ids ≠ []) (hfree : c.Free k) : Submitted call k ids c := by
  have hloop : Looped (call.answerAt k ids c) 0 (call.attempts k ids c)
      (submitWithRpcBackoff (call.answerAt k ids c)) :=
    looped_submitFrom (call.answerAt k ids c) (Nat.le_refl maxRpcRetries)
  obtain ⟨n, hn⟩ : ∃ n, call.attempts k ids c = n + 1 :=
    Nat.exists_eq_succ_of_ne_zero (Nat.ne_of_gt hloop.first_lt)
  have hbefore : Before call k ids c n := before_of_transient hne hfree fun j hj =>
    hloop.before j (Nat.zero_le j) (by omega)
  have hlast := hloop.last
  rw [hn, Nat.add_sub_cancel] at hlast
  have hsuccess : submitWithRpcBackoff (call.answerAt k ids c) = .success ↔
      call.answerAt k ids c n = .landed := by
    rw [hlast]
    exact outcome_eq_success
  obtain ⟨hsince, hattempt⟩ := hbefore.attempt hne
  have hafter : call.chainAfter k ids c =
      (call.chainAt k ids c (n + 1)).spend call.late .other := by
    rw [Call.chainAfter, hn]
  refine ⟨hafter ▸ hsince.others _, ?_, fun h => ?_, fun htaken h => ?_⟩
  · rw [hafter]
    rcases hattempt with ⟨-, htaken⟩ | ⟨-, hnext⟩
    · exact Or.inr (htaken.others _)
    · rcases hnext.landed with huntouched | ⟨htaken, -⟩
      · exact Or.inl (huntouched.others _)
      · exact Or.inr (htaken.others _)
  · rw [hafter]
    rcases hattempt with ⟨-, htaken⟩ | ⟨hnot, -⟩
    · exact htaken.others _
    · exact absurd (hsuccess.mp h) hnot
  · rcases hattempt with ⟨hlanded, -⟩ | ⟨-, hnext⟩
    · exact absurd (hsuccess.mpr hlanded) h
    · rcases hnext.landed with huntouched | ⟨-, j, hj, hlost⟩
      · obtain ⟨N, hN⟩ := List.exists_mem_of_ne_nil ids hne
        exact absurd ((htaken N).mpr hN) (hafter ▸ huntouched.others call.late N)
      · exact ⟨j, hn ▸ hj, hlost⟩

end Submit

/-! ## What the executor records -/

/-- The action records a batch as executed. -/
def ExecutorAction.recordExecuted (ids : List OrderId) : ExecutorAction :=
  .updateStatus ids .executed

theorem notMem_refeed {orders : List IngestOrder} {ids : List OrderId} :
    ExecutorAction.recordExecuted ids ∉ refeedOrders orders := by
  intro h
  obtain ⟨order, -, horder⟩ := List.mem_map.mp h
  cases horder

theorem notMem_revert {api : NoteApi Note} {batch : ExecutionBatch} {notes : List Note}
    {ids : List OrderId} : ExecutorAction.recordExecuted ids ∉ revertAndRefeed api batch notes := by
  intro h
  rcases List.mem_cons.mp h with hhead | hrest
  · cases hhead
  · split at hrest
    · exact notMem_refeed hrest
    · cases hrest

theorem notMem_classify {api : NoteApi Note} {answers : ExecutorAnswers}
    {batch : ExecutionBatch} {notes : List Note} {ids : List OrderId} :
    ExecutorAction.recordExecuted ids ∉ classifyAndRefeed api answers batch notes := by
  intro h
  unfold classifyAndRefeed at h
  split at h
  · cases h
  split at h
  · cases h
  rcases List.mem_append.mp h with hmark | hrest
  · split at hmark
    · cases hmark
    · cases List.mem_singleton.mp hmark
  · rcases List.mem_append.mp hrest with hactive | hrefeed
    · split at hactive
      · cases hactive
      · cases List.mem_singleton.mp hactive
    · exact notMem_refeed hrefeed

/-- **A batch is recorded as executed iff its submission succeeds.** -/
theorem recordExecuted_iff {api : NoteApi Note} {answers : ExecutorAnswers} {batch : ExecutionBatch}
    {ids : List OrderId} :
    ExecutorAction.recordExecuted ids ∈ (executeBatch api answers batch).1 ↔
      (∃ components, prepareBatchComponents api batch answers.flowOrder = .ok components) ∧
      submitWithRpcBackoff answers.attempts = .success ∧ ids = batch.ids := by
  unfold executeBatch
  cases hprepare : prepareBatchComponents api batch answers.flowOrder with
  | error e => simp
  | ok components =>
    have hsettling : ExecutorAction.recordExecuted ids ≠ .updateStatus batch.ids .settling := nofun
    cases hsubmit : submitWithRpcBackoff answers.attempts with
    | success => simp [ExecutorAction.recordExecuted]
    | rpcExhausted => simp [hsettling, notMem_revert]
    | buildFailed => simp [hsettling, notMem_revert]
    | cancelled => simp [hsettling]
    | txError => simp [hsettling, notMem_classify]

/-- What an action records is true on the chain. -/
structure ExecutorAction.Justified (c : Chain) (a : ExecutorAction) : Prop where
  ended : ∀ N ∈ a.ends, c N ≠ none
  executed : ∀ ids, a = .recordExecuted ids → ∀ N ∈ ids, ∃ k, c N = some (.solver k)

theorem ExecutorAction.Justified.mono {c c' : Chain} {a : ExecutorAction} (h : a.Justified c)
    (hgrows : c.Extends c') : a.Justified c' := by
  refine ⟨fun N hN => hgrows.ne_none (h.ended N hN), fun ids ha N hN => ?_⟩
  obtain ⟨k, hk⟩ := h.executed ids ha N hN
  exact ⟨k, hgrows N _ hk⟩

/-- **The chain tells the truth**: what it answers is true of the notes spent in the end. -/
theorem Submitted.truthful {call : Call} {k : Nat} {c : Chain} {batch : ExecutionBatch}
    (h : Submitted call k batch.ids c) : (call.answers k batch.ids c).Truthful batch
      {N | call.chainAfter k batch.ids c N ≠ none} := by
  constructor
  · intro hsuccess N hN
    show call.chainAfter k batch.ids c N ≠ none
    rw [(h.success hsuccess N).mpr hN]
    exact Option.some_ne_none _
  · intro ids hids N hN
    exact call.check_spent hids N hN

/-- **What the executor records of a batch is true on the chain.** -/
theorem justified_executeBatch {api : NoteApi Note} {call : Call} {k : Nat} {c : Chain}
    {batch : ExecutionBatch} (h : Submitted call k batch.ids c) :
    ∀ a ∈ (executeBatch api (call.answers k batch.ids c) batch).1,
      a.Justified (call.chainAfter k batch.ids c) := by
  intro a ha
  refine ⟨endsConsumed_executeBatch h.truthful a ha, ?_⟩
  rintro ids rfl N hN
  obtain ⟨-, hsuccess, rfl⟩ := recordExecuted_iff.mp ha
  exact ⟨k, (h.success hsuccess N).mpr hN⟩

/-! ### A network where the first attempt lands -/

/-- The transaction lands if its notes are unspent, and is refused otherwise. -/
def landsIfUnspent (answered : Bool) (k : Nat) (ids : List OrderId) (_attempt : Nat) (c : Chain) :
    Chain × Attempt :=
  if ∀ N ∈ ids, c N = none then
    (c.spend ids (.solver k), if answered then .landed else .rpcError false)
  else (c, .rejected)

theorem landsIfUnspent_rules (answered : Bool) (k : Nat) (ids : List OrderId) (n : Nat)
    (c : Chain) : Chain.Rules k ids c (landsIfUnspent answered k ids n c).1
      (landsIfUnspent answered k ids n c).2 := by
  unfold landsIfUnspent
  split
  · rename_i hunspent
    have hlands : Chain.Lands k ids c (c.spend ids (.solver k)) := by
      refine ⟨hunspent, fun N => ⟨fun hN => ?_, ?_⟩⟩
      · exact (Chain.of_spend hN).imp_right And.right
      · rintro (hold | hN)
        · exact Chain.extends_spend c ids _ N _ hold
        · exact if_pos ⟨hN, hunspent N hN⟩
    refine ⟨Chain.extends_spend c ids _, fun N j hj hN => ?_, Or.inl hlands, fun _ => hlands⟩
    rcases Chain.of_spend hN with hold | ⟨hnew, -⟩
    · exact hold
    · cases hnew
      exact absurd rfl hj
  · exact ⟨Chain.Extends.refl c, fun _ _ _ hN => hN, Or.inr fun _ => Iff.rfl, nofun⟩

/-- A batch whose transaction lands at once, and is answered or not; the check reports all spent
notes. -/
def Call.landing (answered : Bool) (flowOrder : List TokenId) : Call where
  flowOrder := flowOrder
  submit := landsIfUnspent answered
  rules := landsIfUnspent_rules answered
  late := []
  check := fun ids c => some (ids.filter fun N => (c N).isSome)
  check_spent := by
    rintro ids c _ ⟨⟩ N hN
    exact Option.isSome_iff_ne_none.mp (List.mem_filter.mp hN).2

end PswapSolver
