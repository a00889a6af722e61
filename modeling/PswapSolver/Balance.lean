import PswapSolver.Provenance

/-! # The balance of the settlements

A settled note brings what it offers.  Its creator gets back what the fill pays, and the part of
the offer that the fill does not release; what is left goes to the solver's vault, by the surplus
script of the transaction.

Over every run on the chain, what the settled notes have brought is what their creators got back
and what the vault has earned (`settlements_balance`): in every token, to the last unit.  No note is
settled twice, and none below its limit price.  The Miden libraries are assumed to pay out as
they say (`PaysExactly`), the chain to keep its rules (`Chain.Rules`), the syncs to be honest, and
the hash map of the flows to visit each of its tokens once.
-/
namespace PswapSolver
open Runs
variable {Note : Type} {api : NoteApi Note}

/-! ## One note -/

namespace OrderTerms
variable (terms : OrderTerms) (fill : Nat) (t : TokenId)

/-- The part of the offer that a fill releases. -/
def released : Nat := terms.offered * fill / terms.requested

/-- What a note brings of a token. -/
def brings : Nat := if t = terms.offeredToken then terms.offered else 0

/-- What its creator gets back of a token. -/
def getsBack : Nat :=
  (if t = terms.requestedToken then fill else 0) +
    if t = terms.offeredToken then terms.offered - terms.released fill else 0

/-- **No fill is below the limit price.** -/
theorem limit_price : terms.released fill * terms.requested ≤ fill * terms.offered := by
  rw [Nat.mul_comm fill]
  exact Nat.div_mul_le_self _ _

end OrderTerms

namespace ChainNotes
variable (c : ChainNotes api)

/-- What a settled note brings. -/
def brings (f : FilledNote) (t : TokenId) : Nat :=
  ((c.terms f.noteId).map fun terms => terms.brings t).getD 0

/-- What the creator of a settled note gets back. -/
def getsBack (f : FilledNote) (t : TokenId) : Nat :=
  ((c.terms f.noteId).map fun terms => terms.getsBack f.requestedFilled t).getD 0

variable {c}

/-- What executing a note adds to the flows. -/
theorem noteFlow_eq (hpays : PaysExactly api) {f : FilledNote} {terms : OrderTerms}
    (hbytes : f.rawNoteData = c.bytes f.noteId) (hterms : c.terms f.noteId = some terms)
    (x : ExecutedNote api f) (t : TokenId) :
    noteFlow x.pswap x.payback x.remainder t = (c.brings f t : Int) - c.getsBack f t := by
  have hread := x.read
  rw [hbytes, c.read] at hread
  have hnote : orderFromNote api x.note = some terms := Option.some.inj hread ▸ hterms
  obtain ⟨p, hp, hoff, hreq, hofferedAmount, -⟩ := orderFromNote_some hnote
  cases hp.symm.trans x.parsed
  obtain ⟨hpayback, hremainder⟩ := hpays hnote x.executed
  have hbrings : c.brings f t = if t = terms.offeredToken then terms.offered else 0 := by
    rw [brings, hterms]
    rfl
  have hback : c.getsBack f t = (if t = terms.requestedToken then f.requestedFilled else 0) +
      if t = terms.offeredToken then terms.offered - terms.released f.requestedFilled else 0 := by
    rw [getsBack, hterms]
    rfl
  rw [hbrings, hback, noteFlow, hpayback, hremainder, OrderTerms.released, ← hoff, ← hreq,
    ← hofferedAmount]
  split <;> split <;> omega

end ChainNotes

/-! ## One batch -/

/-- The surplus of a token. -/
def surplusOf (assets : List (TokenId × Nat)) (t : TokenId) : Nat :=
  (assets.map fun asset => if asset.1 = t then asset.2 else 0).sum

/-- The tokens of a hash map of flows, in some order. -/
structure Visits (flow : FiniteMap TokenId Int) (order : List TokenId) : Prop where
  nodup : order.Nodup
  mem_iff : ∀ t, t ∈ order ↔ t ∈ flow

/-- **The final pass takes over every flow**, and no flow is negative if it succeeds. -/
theorem surplusOf_surplusAssets {flow : FiniteMap TokenId Int} {order : List TokenId}
    (hnodup : order.Nodup) {assets : List (TokenId × Nat)}
    (h : surplusAssets api flow order = .ok assets) (t : TokenId) :
    (surplusOf assets t : Int) = if t ∈ order then flowOf flow t else 0 := by
  induction order generalizing assets with
  | nil =>
    cases h
    simp [surplusOf]
  | cons token rest ih =>
    obtain ⟨hnew, hrest⟩ := List.nodup_cons.mp hnodup
    simp only [surplusAssets] at h
    by_cases hneg : (flow.lookup token).getD 0 < 0
    · rw [if_pos hneg] at h
      cases h
    rw [if_neg hneg] at h
    by_cases hpos : 0 < (flow.lookup token).getD 0
    · rw [if_pos hpos] at h
      split at h
      · cases h
      split at h
      · cases h
      split at h
      · rename_i others hothers
        cases h
        have hind := ih hrest hothers
        have hcons : surplusOf ((token, ((flow.lookup token).getD 0).toNat) :: others) t =
            (if token = t then ((flow.lookup token).getD 0).toNat else 0) + surplusOf others t := by
          simp [surplusOf]
        by_cases ht : t = token
        · subst ht
          rw [if_neg hnew] at hind
          simp only [hcons, if_true, List.mem_cons, true_or, flowOf]
          omega
        · rw [hcons, if_neg (Ne.symm ht)]
          simp only [List.mem_cons, ht, false_or]
          omega
      · cases h
    · rw [if_neg hpos] at h
      have hind := ih hrest h
      by_cases ht : t = token
      · subst ht
        rw [if_neg hnew] at hind
        simp only [List.mem_cons, true_or, if_true, flowOf]
        omega
      · simp only [List.mem_cons, ht, false_or]
        exact hind

/-- What a batch leaves in the vault if it lands. -/
def ExecutionBatch.surplus (api : NoteApi Note) (batch : ExecutionBatch) (order : List TokenId)
    (t : TokenId) : Nat :=
  match prepareBatchComponents api batch order with
  | .ok components => surplusOf components.surplusAssets t
  | .error _ => 0

/-- The flows of a batch are visited as a hash map is. -/
def ExecutionBatch.Visited (api : NoteApi Note) (batch : ExecutionBatch) (order : List TokenId) :
    Prop :=
  ∀ acc, batch.filledNotes.foldlM (prepareNote api) ⟨[], ∅⟩ = .ok acc → Visits acc.flow order

/-- **One batch balances**: what its notes bring is what the creators get back, and the
surplus. -/
theorem ChainNotes.GenuineBatch.balance {c : ChainNotes api} {batch : ExecutionBatch}
    (h : c.GenuineBatch batch) (hpays : PaysExactly api) {order : List TokenId}
    (hvisited : batch.Visited api order) {components : BatchComponents Note}
    (hprepare : prepareBatchComponents api batch order = .ok components) (t : TokenId) :
    (batch.filledNotes.map (c.brings · t)).sum =
      (batch.filledNotes.map (c.getsBack · t)).sum + batch.surplus api order t := by
  have hsurplus : batch.surplus api order t = surplusOf components.surplusAssets t := by
    rw [ExecutionBatch.surplus, hprepare]
  have hsums : (batch.filledNotes.map fun f => (c.brings f t : Int) - c.getsBack f t).sum =
      ((batch.filledNotes.map (c.brings · t)).sum : Nat) -
        ((batch.filledNotes.map (c.getsBack · t)).sum : Nat) := by
    induction batch.filledNotes with
    | nil => rfl
    | cons f rest ih =>
      simp only [List.map_cons, List.sum_cons, ih]
      omega
  unfold prepareBatchComponents at hprepare
  cases hfold : batch.filledNotes.foldlM (prepareNote api) ⟨[], ∅⟩ with
  | error e =>
    rw [hfold] at hprepare
    cases hprepare
  | ok acc =>
    rw [hfold] at hprepare
    dsimp only at hprepare
    cases hassets : surplusAssets api acc.flow order with
    | error e =>
      rw [hassets] at hprepare
      cases hprepare
    | ok assets =>
      rw [hassets] at hprepare
      cases hprepare
      have hvisits := hvisited acc hfold
      have hflow : flowOf acc.flow t =
          (batch.filledNotes.map fun f => (c.brings f t : Int) - c.getsBack f t).sum := by
        have hempty : flowOf (∅ : FiniteMap TokenId Int) t = 0 := rfl
        rw [flowOf_foldlM (w := fun f t => (c.brings f t : Int) - c.getsBack f t) ?_ hfold t,
          hempty, Int.zero_add]
        intro f hf x t
        obtain ⟨terms, hterms, -⟩ := h.fill f hf
        exact ChainNotes.noteFlow_eq hpays (h.bytes f hf) hterms x t
      have hpass := surplusOf_surplusAssets hvisits.nodup hassets t
      have hall : (if t ∈ order then flowOf acc.flow t else 0) = flowOf acc.flow t := by
        by_cases ht : t ∈ order
        · exact if_pos ht
        · have hmissing : acc.flow.lookup t = none :=
            Finmap.lookup_eq_none.mpr fun hmem => ht ((hvisits.mem_iff t).mpr hmem)
          rw [if_neg ht, flowOf, hmissing]
          rfl
      rw [hall, hflow, hsums] at hpass
      rw [hsurplus]
      show _ = _ + surplusOf assets t
      omega

/-! ## A run -/

/-- The batch has landed: all its notes are spent by it. -/
def Call.Lands (call : Call) (api : NoteApi Note) (k : Nat) (batch : ExecutionBatch) (c : Chain) :
    Prop :=
  ∀ N ∈ batch.ids, call.chainOf api k batch c N = some (.solver k)

instance (call : Call) (api : NoteApi Note) (k : Nat) (batch : ExecutionBatch) (c : Chain) :
    Decidable (call.Lands api k batch c) :=
  inferInstanceAs (Decidable (∀ N ∈ batch.ids, _))

/-- The notes that a step settles. -/
def settledBy (api : NoteApi Note) (s : Landing Note) : LandingEvent Note → List FilledNote
  | .take batch call => if call.Lands api s.taken batch s.chain then batch.filledNotes else []
  | _ => []

/-- What a step earns of a token. -/
def earnedBy (api : NoteApi Note) (t : TokenId) (s : Landing Note) : LandingEvent Note → Nat
  | .take batch call =>
    if call.Lands api s.taken batch s.chain then batch.surplus api call.flowOrder t else 0
  | _ => 0

/-- **The notes settled in a run.** -/
def settledNotes (api : NoteApi Note) (history : List (Landing Note × LandingEvent Note)) :
    List FilledNote :=
  history.flatMap fun x => settledBy api x.1 x.2

/-- **What the solver has earned in a run.** -/
def vault (api : NoteApi Note) (history : List (Landing Note × LandingEvent Note)) (t : TokenId) :
    Nat :=
  (history.map fun x => earnedBy api t x.1 x.2).sum

theorem settledNotes_append (before after : List (Landing Note × LandingEvent Note)) :
    settledNotes api (before ++ after) = settledNotes api before ++ settledNotes api after :=
  List.flatMap_append

theorem vault_append (before after : List (Landing Note × LandingEvent Note)) (t : TokenId) :
    vault api (before ++ after) t = vault api before t + vault api after t := by
  rw [vault, List.map_append, List.sum_append]
  rfl

/-- The hash map of the flows is visited as a hash map is. -/
def visitsFlows (api : NoteApi Note) : Guard (Landing Note) (LandingEvent Note) := fun _ _ e =>
  ∀ batch call, e = .take batch call → batch.Visited api call.flowOrder

/-- What is assumed of the steps: the syncs are honest, and the flows are visited. -/
def ChainNotes.faithful (c : ChainNotes api) : Guard (Landing Note) (LandingEvent Note) :=
  fun history s e => c.honest history s e ∧ visitsFlows api history s e

section Run
variable {s s' : Landing Note} {e : LandingEvent Note}
  {history : List (Landing Note × LandingEvent Note)}

/-- **What a taken batch comes to**: it lands, with all its notes and for the first time, or it
spends nothing. -/
theorem Call.landing_cases (call : Call) (api : NoteApi Note) {k : Nat} {batch : ExecutionBatch}
    {c : Chain} (hne : batch.ids ≠ []) (hfree : c.Free k) :
    (call.Lands api k batch c ∧ (call.chainOf api k batch c).Taken k batch.ids ∧
      ∃ components, prepareBatchComponents api batch call.flowOrder = .ok components) ∨
    ¬ call.Lands api k batch c ∧ (call.chainOf api k batch c).Free k := by
  obtain ⟨N, hN⟩ := List.exists_mem_of_ne_nil _ hne
  have hnot : (call.chainOf api k batch c).Free k → ¬ call.Lands api k batch c :=
    fun huntouched hlands => huntouched N (hlands N hN)
  cases hprepare : prepareBatchComponents api batch call.flowOrder with
  | error e =>
    have hchain : call.chainOf api k batch c = c := by
      rw [Call.chainOf, hprepare]
    rw [← hchain] at hfree
    exact Or.inr ⟨hnot hfree, hfree⟩
  | ok components =>
    have hchain : call.chainOf api k batch c = call.chainAfter k batch.ids c := by
      rw [Call.chainOf, hprepare]
    rcases (submitted call hne hfree).whole with huntouched | htaken
    · rw [← hchain] at huntouched
      exact Or.inr ⟨hnot huntouched, huntouched⟩
    · rw [← hchain] at htaken
      exact Or.inl ⟨fun N hN => (htaken N).mpr hN, htaken, components, rfl⟩

/-- A note settled within its limits. -/
def ChainNotes.Fair (c : ChainNotes api) (f : FilledNote) : Prop :=
  ∃ terms, c.terms f.noteId = some terms ∧ 0 < f.requestedFilled ∧
    f.requestedFilled ≤ terms.requested ∧ terms.released f.requestedFilled ≤ terms.offered ∧
    terms.released f.requestedFilled * terms.requested ≤ f.requestedFilled * terms.offered

/-- **The invariant of the balance.** -/
structure BalanceInv (c : ChainNotes api) (history : List (Landing Note × LandingEvent Note))
    (s : Landing Note) : Prop where
  balance : ∀ t, ((settledNotes api history).map (c.brings · t)).sum =
    ((settledNotes api history).map (c.getsBack · t)).sum + vault api history t
  once : ((settledNotes api history).map FilledNote.noteId).Nodup
  spent : ∀ N, N ∈ (settledNotes api history).map FilledNote.noteId ↔
    ∃ k, s.chain N = some (.solver k)
  fair : ∀ f ∈ settledNotes api history, c.Fair f

/-- A step that settles nothing. -/
theorem BalanceInv.quiet {c : ChainNotes api} (h : BalanceInv c history s)
    (hsettled : settledBy api s e = []) (hearned : ∀ t, earnedBy api t s e = 0)
    (hchain : ∀ N k, s'.chain N = some (.solver k) ↔ s.chain N = some (.solver k)) :
    BalanceInv c (history ++ [(s, e)]) s' := by
  have hnotes : settledNotes api (history ++ [(s, e)]) = settledNotes api history := by
    simp [settledNotes, hsettled]
  have hvault : ∀ t, vault api (history ++ [(s, e)]) t = vault api history t := by
    intro t
    simp [vault, hearned]
  refine ⟨fun t => ?_, ?_, fun N => ?_, ?_⟩
  · rw [hnotes, hvault]
    exact h.balance t
  · rw [hnotes]
    exact h.once
  · rw [hnotes, h.spent]
    simp only [hchain]
  · rw [hnotes]
    exact h.fair

/-- A batch that lands. -/
theorem BalanceInv.lands {c : ChainNotes api} (h : BalanceInv c history s)
    (hpays : PaysExactly api) {batch : ExecutionBatch} {call : Call} (hbatch : c.GenuineBatch batch)
    (hvisited : batch.Visited api call.flowOrder) (hlands : call.Lands api s.taken batch s.chain)
    (htaken : s'.chain.Taken s.taken batch.ids) (hsince : Chain.Since s.taken s.chain s'.chain)
    (hfree : s.chain.Free s.taken) {components : BatchComponents Note}
    (hprepare : prepareBatchComponents api batch call.flowOrder = .ok components) :
    BalanceInv c (history ++ [(s, .take batch call)]) s' := by
  have hnotes : settledNotes api (history ++ [(s, .take batch call)]) =
      settledNotes api history ++ batch.filledNotes := by
    simp [settledNotes, settledBy, hlands]
  have hvault : ∀ t, vault api (history ++ [(s, .take batch call)]) t =
      vault api history t + batch.surplus api call.flowOrder t := by
    intro t
    simp [vault, earnedBy, hlands]
  have hids : batch.filledNotes.map FilledNote.noteId = batch.ids := rfl
  refine ⟨fun t => ?_, ?_, fun N => ?_, fun f hf => ?_⟩
  · have hbefore := h.balance t
    have hnew := hbatch.balance hpays hvisited hprepare t
    rw [hnotes, hvault]
    simp only [List.map_append, List.sum_append]
    omega
  · rw [hnotes, List.map_append, hids]
    refine List.nodup_append.mpr ⟨h.once, hbatch.nodup, ?_⟩
    rintro N hold M hnew rfl
    -- a note settled before is spent by an earlier batch, and stays so
    obtain ⟨k, hk⟩ := (h.spent N).mp hold
    have hsame := (hsince.grows N _ hk).symm.trans ((htaken N).mpr hnew)
    cases hsame
    exact hfree N hk
  · rw [hnotes, List.map_append, List.mem_append, h.spent, hids]
    constructor
    · rintro (⟨k, hk⟩ | hnew)
      · exact ⟨k, hsince.grows N _ hk⟩
      · exact ⟨s.taken, (htaken N).mpr hnew⟩
    · rintro ⟨k, hk⟩
      by_cases hown : k = s.taken
      · subst hown
        exact Or.inr ((htaken N).mp hk)
      · exact Or.inl ⟨k, hsince.own N k hown hk⟩
  · rw [hnotes] at hf
    rcases List.mem_append.mp hf with hold | hnew
    · exact h.fair f hold
    · obtain ⟨terms, hterms, hpos, hle⟩ := hbatch.fill f hnew
      refine ⟨terms, hterms, hpos, hle, ?_, terms.limit_price _⟩
      exact Nat.div_le_of_le_mul (by
        rw [Nat.mul_comm terms.requested]
        exact Nat.mul_le_mul_left _ hle)

/-- **A step keeps the balance.** -/
theorem BalanceInv.step {c : ChainNotes api} (h : BalanceInv c history s)
    (hpays : PaysExactly api) (hgenuine : c.GenuinePipeline s.pipeline)
    (hinv : LandingInv history s) (hvisits : visitsFlows api history s e)
    (hstep : Landing.Step api s e s') : BalanceInv c (history ++ [(s, e)]) s' := by
  cases hstep with
  | others ids =>
    refine h.quiet rfl (fun _ => rfl) fun N k => ⟨fun hN => ?_, Chain.extends_spend _ _ _ N _⟩
    rcases Chain.of_spend hN with hold | ⟨hnew, -⟩
    · exact hold
    · cases hnew
  | solver _ _ _ => exact h.quiet rfl (fun _ => rfl) fun _ _ => Iff.rfl
  | failure _ => exact h.quiet rfl (fun _ => rfl) fun _ _ => Iff.rfl
  | @take batch rest call idle queued some_filled =>
    have hne := ids_ne_nil some_filled
    have hfree : s.chain.Free s.taken := fun N hN => Nat.lt_irrefl _ (hinv.fresh N _ hN)
    have hsince : Chain.Since s.taken s.chain (call.chainOf api s.taken batch s.chain) :=
      since_chainOf call hne hfree
    have hbatch : c.GenuineBatch batch :=
      hgenuine.execCh batch (queued ▸ List.mem_cons_self ..)
    rcases call.landing_cases api hne hfree with
      ⟨hlands, htaken, components, hprepare⟩ | ⟨hnot, huntouched⟩
    · exact h.lands hpays hbatch (hvisits batch call rfl) hlands htaken hsince hfree hprepare
    · refine h.quiet (by simp [settledBy, hnot]) (by simp [earnedBy, hnot]) fun N k => ?_
      refine ⟨fun hN => ?_, hsince.grows N _⟩
      by_cases hown : k = s.taken
      · subst hown
        exact absurd hN (huntouched N)
      · exact hsince.own N k hown hN

end Run

/-- **The books balance**, in every run of the solver on a chain that keeps its rules, in which the
syncs are honest:

* in every token, what the settled notes have brought is what their creators got back and what the
  vault has earned;
* no note is settled twice, and the settled notes are those that the solver has spent;
* each is settled with something, with no more than it requests, and not below its limit price. -/
theorem settlements_balance (api : NoteApi Note) (hpays : PaysExactly api) (c : ChainNotes api)
    (feed : PriceFeed) (triangularEnabled : Bool) (router : Option RouterHooks)
    {history : List (Landing Note × LandingEvent Note)} {s : Landing Note}
    (hrun : Run (Landing.Step api) c.faithful (Landing.boot feed triangularEnabled router)
      history s) :
    (∀ t, ((settledNotes api history).map (c.brings · t)).sum =
      ((settledNotes api history).map (c.getsBack · t)).sum + vault api history t) ∧
    ((settledNotes api history).map FilledNote.noteId).Nodup ∧
    (∀ N, N ∈ (settledNotes api history).map FilledNote.noteId ↔
      ∃ k, s.chain N = some (.solver k)) ∧
    ∀ f ∈ settledNotes api history, c.Fair f := by
  have hinv : BalanceInv c history s := by
    induction hrun with
    | start => exact ⟨fun _ => rfl, List.nodup_nil, fun N => by simp [settledNotes, Landing.boot],
        nofun⟩
    | step hprev hguard hstep ih =>
      have hgenuine := c.genuine_of_run (hprev.mono fun _ _ _ h => h.1)
      have hlanding := (crashRun_of_landing (hprev.mono fun _ _ _ _ => trivial)).1
      exact ih.step hpays hgenuine hlanding hguard.2 hstep
  exact ⟨hinv.balance, hinv.once, hinv.spent, hinv.fair⟩

/-! ### Two crossing orders -/

/-- The notes of the crossing orders. -/
def crossingNotes : ChainNotes exactApi :=
  ⟨fun N => crossingTerms (UInt8.ofNat N).toNat, fun N => [UInt8.ofNat N], fun _ => rfl⟩

theorem crossingBatch_visited : crossingBatch.Visited exactApi [1, 2] := by
  intro acc hacc
  have hkeys : (crossingBatch.filledNotes.foldlM (prepareNote exactApi) ⟨[], ∅⟩).map
      (fun acc => acc.flow.keys) = .ok {1, 2} := by decide
  rw [hacc] at hkeys
  replace hkeys : acc.flow.keys = {1, 2} := Except.ok.inj hkeys
  refine ⟨by decide, fun t => ?_⟩
  rw [← Finmap.mem_keys, hkeys]
  simp

/-- The transaction lands, and this is answered. -/
def landsAtOnce : Call := .landing true [1, 2]

/-- The ticks of the matcher settle nothing. -/
theorem settledNotes_matcher (api : NoteApi Note) {ticks : List (Landing Note × LandingEvent Note)}
    (h : ∀ x ∈ ticks, ∃ event, x.2 = .solver (.matcher event)) :
    settledNotes api ticks = [] ∧ ∀ t, vault api ticks t = 0 := by
  constructor
  · refine List.flatMap_eq_nil_iff.mpr fun x hx => ?_
    obtain ⟨event, hevent⟩ := h x hx
    rw [hevent]
    rfl
  · intro t
    refine List.sum_eq_zero fun n hn => ?_
    obtain ⟨x, hx, rfl⟩ := List.mem_map.mp hn
    obtain ⟨event, hevent⟩ := h x hx
    rw [hevent]
    rfl

/-- The ticks of the matcher, on the chain. -/
theorem matcherRun_onChain {api : NoteApi Note} {p p' : Pipeline Note}
    {history : List (Pipeline Note × PipelineEvent Note)}
    (h : Run (Pipeline.Step api) unguarded p history p')
    (hmatcher : ∀ x ∈ history, ∃ event, x.2 = .matcher event) (c : Chain) (k : Nat) :
    ∃ ticks, Run (Landing.Step api) unguarded ⟨p, c, k⟩ ticks ⟨p', c, k⟩ ∧
      ∀ x ∈ ticks, ∃ event, x.2 = .solver (.matcher event) := by
  refine ⟨_, run_onChain h hmatcher c k, fun x hx => ?_⟩
  obtain ⟨y, hy, rfl⟩ := List.mem_map.mp hx
  obtain ⟨event, hevent⟩ := hmatcher y hy
  exact ⟨event, congrArg _ hevent⟩

/-- Two crossing orders are settled: of what they bring, 10 of one token and 6 of the other, the
solver keeps 3 and 1. -/
theorem crossing_balances :
    ∃ history, ∃ s : Landing OrderTerms,
      Run (Landing.Step exactApi) crossingNotes.faithful
        (Landing.boot crossingInputs.feed false none) history s ∧
      (settledNotes exactApi history).map FilledNote.noteId = [1, 2] ∧
      vault exactApi history 1 = 3 ∧ vault exactApi history 2 = 1 ∧
      ∀ t, ((settledNotes exactApi history).map (crossingNotes.brings · t)).sum =
        ((settledNotes exactApi history).map (crossingNotes.getsBack · t)).sum +
          vault exactApi history t := by
  have h₁ : Run (Landing.Step exactApi) unguarded
      (Landing.boot crossingInputs.feed false none) _ _ :=
    Run.single (.solver (.sync ⟨0, [noteOne, noteTwo], []⟩ rfl) (by rintro _ ⟨⟩; exact nofun) nofun)
  have h₂ := h₁.step trivial (.solver (.insert rfl (by decide)) nofun nofun)
  have h₃ := h₂.step trivial (.solver (.reboot crossingInputs.feed false none) nofun nofun)
  obtain ⟨tick, htick, hquiet⟩ := emits_crossing exactApi
    (p := Pipeline.boot ingestedRows crossingInputs.feed false none) rfl rfl rfl
    (loadsActive_crossing (by decide) (by decide))
  obtain ⟨ticks, hticks, hmatcher⟩ := matcherRun_onChain htick (fun x hx => (hquiet x hx).1) _ 0
  have h₄ := Run.append h₃ hticks
  have h₅ := h₄.step trivial (.take landsAtOnce rfl rfl (by decide))
  obtain ⟨hnone, hnothing⟩ := settledNotes_matcher exactApi hmatcher
  have hrun : Run (Landing.Step exactApi) crossingNotes.faithful _ _ _ :=
    h₅.guarded (meets_of_forall fun x hx before => ?_)
  · refine ⟨_, _, hrun, ?_, ?_, ?_, (settlements_balance exactApi exactApi_paysExactly crossingNotes
      _ _ _ hrun).1⟩
    · rw [settledNotes_append, settledNotes_append, hnone]
      decide
    · rw [vault_append, vault_append, hnothing]
      decide
    · rw [vault_append, vault_append, hnothing]
      decide
  · rcases List.mem_append.mp hx with hold | htake
    · rcases List.mem_append.mp hold with hfirst | htick
      · simp only [List.cons_append, List.nil_append, List.mem_cons, List.not_mem_nil,
          or_false] at hfirst
        rcases hfirst with rfl | rfl | rfl
        · refine ⟨?_, nofun⟩
          rintro result ⟨⟩ n hn
          simp only [List.mem_cons, List.not_mem_nil, or_false] at hn
          rcases hn with rfl | rfl
          · exact ⟨rfl, rfl⟩
          · exact ⟨rfl, rfl⟩
        · exact ⟨nofun, nofun⟩
        · exact ⟨nofun, nofun⟩
      · obtain ⟨event, hevent⟩ := hmatcher x htick
        rw [hevent]
        exact ⟨nofun, nofun⟩
    · obtain rfl := List.mem_singleton.mp htake
      refine ⟨nofun, ?_⟩
      rintro batch call ⟨⟩
      exact crossingBatch_visited

end PswapSolver
