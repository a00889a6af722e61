import PswapSolver.Landing

/-! # The records and the chain

What the database says of an order against what has happened to its note.  The chain is part of
the state, next to the pipeline: the executor takes a batch and the chain answers, others spend
notes at any time, a sync reports notes that are spent, and tasks crash and fail as before.

`records_match_chain` says, for every interleaving, what a row and the chain say about each other.
The one thing that is not certain is whether a note the solver has spent is recorded as executed:
it is, unless an answer was lost or the executor was interrupted.
-/
namespace PswapSolver
open Runs
variable {Note : Type}

/-! ## The solver on the chain -/

/-- The solver, the chain, and how many batches were taken. -/
structure Landing (Note : Type) where
  pipeline : Pipeline Note
  chain : Chain
  taken : Nat

/-- What happens in a step. -/
inductive LandingEvent (Note : Type) where
  /-- Others spend notes. -/
  | others (ids : List OrderId)
  | solver (event : PipelineEvent Note)
  | take (batch : ExecutionBatch) (call : Call)
  /-- A task gives up part of its work; the executor may be left without its batch. -/
  | failure (idle : Bool)

/-- The chain after a batch; one that cannot be prepared is not submitted. -/
def Call.chainOf (call : Call) (api : NoteApi Note) (k : Nat) (batch : ExecutionBatch) (c : Chain) :
    Chain :=
  match prepareBatchComponents api batch call.flowOrder with
  | .error _ => c
  | .ok _ => call.chainAfter k batch.ids c

namespace Landing

/-- **The steps of the solver on the chain.** -/
inductive Step (api : NoteApi Note) : Landing Note → LandingEvent Note → Landing Note → Prop
  | others {s : Landing Note} (ids : List OrderId) :
      Step api s (.others ids) { s with chain := s.chain.spend ids .other }
  /-- A sync reports spent notes only. -/
  | solver {s : Landing Note} {e : PipelineEvent Note} {p' : Pipeline Note}
      (step : Pipeline.Step api s.pipeline e p')
      (observed : ∀ result, e = .sync result → ∀ N ∈ result.consumedNotes, s.chain N ≠ none)
      (no_batch : ∀ batch, e = .take batch → batch.filledNotes = []) :
      Step api s (.solver e) { s with pipeline := p' }
  /-- The executor takes a batch, and the chain answers. -/
  | take {s : Landing Note} {batch : ExecutionBatch} {rest : List ExecutionBatch} (call : Call)
      (idle : s.pipeline.executor = none) (queued : s.pipeline.execCh = batch :: rest)
      (some_filled : batch.filledNotes ≠ []) :
      Step api s (.take batch call)
        { pipeline :=
            { s.pipeline with
              execCh := rest
              executor := some ⟨batch.ids,
                (executeBatch api (call.answers s.taken batch.ids s.chain) batch).1⟩ }
          chain := call.chainOf api s.taken batch s.chain
          taken := s.taken + 1 }
  | failure {s : Landing Note} {p' : Pipeline Note} (failure : Failure s.pipeline p') :
      Step api s (.failure p'.executor.isNone) { s with pipeline := p' }

/-- The first boot, on an empty database. -/
def boot (feed : PriceFeed) (triangularEnabled : Bool) (router : Option RouterHooks) :
    Landing Note :=
  ⟨Pipeline.boot emptyDb feed triangularEnabled router, fun _ => none, 0⟩

end Landing

/-- The step interrupts the executor. -/
def LandingEvent.Interrupts : LandingEvent Note → Prop
  | .solver .reboot => True
  | .failure idle => idle = true
  | _ => False

/-! ## Rows -/

section Rows
variable {api : NoteApi Note} {p p' : Pipeline Note} {e : PipelineEvent Note} {N : OrderId}

/-- Only the executor records an order as executed. -/
theorem recorded_of_executed (hstep : Pipeline.Step api p e p')
    (hbefore : p.db.statusOf N ≠ some .executed) (hafter : p'.db.statusOf N = some .executed) :
    ∃ ids, e = .act (.recordExecuted ids) ∧ N ∈ ids := by
  have hmark : ∀ {ids}, (p.db.markOrdersOnchainNullified ids).statusOf N ≠ some .executed := by
    intro ids h
    obtain ⟨s, hs, hif⟩ : ∃ s, p.db.statusOf N = some s ∧
        (if N ∈ ids ∧ (s = .active ∨ s = .settling) then OrderStatus.onchainNullified else s) =
          .executed := by
      simpa using h
    split at hif
    · cases hif
    · exact hbefore (hif ▸ hs)
  obtain hdb | ⟨result, rfl, hdb⟩ | ⟨result, -, hdb⟩ | ⟨ids, status, rfl, hdb⟩ | ⟨ids, rfl, hdb⟩ |
    ⟨-, hdb⟩ := hstep.db_cases
  all_goals rw [hdb] at hafter
  · exact absurd hafter hbefore
  · exact absurd hafter hmark
  · cases hrow : p.db.statusOf N with
    | none => cases Database.statusOf_insertNotesBatch_new hrow hafter
    | some s =>
      cases (Database.statusOf_insertNotesBatch hrow _ _).symm.trans hafter
      exact absurd hrow hbefore
  · by_cases hN : N ∈ ids
    · obtain ⟨-, -, rfl⟩ : ∃ s, p.db.statusOf N = some s ∧ status = .executed := by
        simpa [hN] using hafter
      exact ⟨ids, rfl, hN⟩
    · exact absurd (by simpa [hN] using hafter) hbefore
  · exact absurd hafter hmark
  · obtain ⟨s, hs, hif⟩ : ∃ s, p.db.statusOf N = some s ∧
        (if s = .settling then OrderStatus.active else s) = .executed := by
      simpa using hafter
    split at hif
    · cases hif
    · exact absurd (hif ▸ hs) hbefore

/-- **What a step does to the work of the executor**, unless it takes a batch. -/
theorem executor_cases (hstep : Pipeline.Step api p e p')
    (hno : ∀ batch, e = .take batch → batch.filledNotes = []) :
    p'.executor = p.executor ∨
    (∃ held held' a rest, e = .act a ∧ p.executor = some ⟨held, a :: rest⟩ ∧
      p'.executor = some ⟨held', rest⟩) ∨
    (∃ held, p.executor = some ⟨held, []⟩ ∧ p'.executor = none) ∨
    e = .reboot ∧ p'.executor = none := by
  cases hstep with
  | matcher _ hexch => exact Or.inl hexch.frame.2.2.1
  | take _ _ _ hne => exact absurd (hno _ rfl) hne
  | @act held action rest hbusy =>
    cases action with
    | updateStatus ids status => exact Or.inr (Or.inl ⟨held, _, _, rest, rfl, hbusy, rfl⟩)
    | markNullified ids => exact Or.inr (Or.inl ⟨held, _, _, rest, rfl, hbusy, rfl⟩)
    | resend order => exact Or.inr (Or.inl ⟨held, _, _, rest, rfl, hbusy, rfl⟩)
  | done hbusy => exact Or.inr (Or.inr (Or.inl ⟨_, hbusy, rfl⟩))
  | reboot _ _ _ => exact Or.inr (Or.inr (Or.inr ⟨rfl, rfl⟩))
  | sync _ _ => exact Or.inl rfl
  | report _ => exact Or.inl rfl
  | insert _ _ => exact Or.inl rfl
  | send _ => exact Or.inl rfl
  | finish _ => exact Or.inl rfl
  | finishEarly _ => exact Or.inl rfl
  | takeEmpty _ _ => exact Or.inl rfl

end Rows

/-! ## The invariant -/

/-- **A note that batch number `k` has spent**: the batch was taken and has spent all its notes.
It is recorded, or will be, or an answer was lost or the executor interrupted. -/
def Landed (history : List (Landing Note × LandingEvent Note)) (s : Landing Note) (N : OrderId)
    (k : Nat) : Prop :=
  ∃ before x batch call after, history = before ++ (x, .take batch call) :: after ∧ x.taken = k ∧
    N ∈ batch.ids ∧ (∀ M ∈ batch.ids, s.chain M = some (.solver k)) ∧
    (call.AnswerLost k batch.ids x.chain ∨
      (∃ y ∈ after, y.2 = .solver (.act (.recordExecuted batch.ids))) ∨
      (∃ y ∈ after, y.1.pipeline.executor ≠ none ∧ y.2.Interrupts) ∨
      ∃ task, s.pipeline.executor = some task ∧ .recordExecuted batch.ids ∈ task.pending)

/-- **The invariant of the records.** -/
structure LandingInv (history : List (Landing Note × LandingEvent Note)) (s : Landing Note) :
    Prop where
  executed : ∀ N, s.pipeline.db.statusOf N = some .executed → ∃ k, s.chain N = some (.solver k)
  nullified : ∀ N, s.pipeline.db.statusOf N = some .onchainNullified → s.chain N ≠ none
  pending : ∀ task, s.pipeline.executor = some task → ∀ a ∈ task.pending, a.Justified s.chain
  fresh : ∀ N k, s.chain N = some (.solver k) → k < s.taken
  landed : ∀ N k, s.chain N = some (.solver k) → Landed history s N k

theorem landingInv_boot (feed : PriceFeed) (triangularEnabled : Bool)
    (router : Option RouterHooks) :
    LandingInv [] (Landing.boot feed triangularEnabled router : Landing Note) := by
  have hrow : ∀ N, emptyDb.resetAllSettlingToActive.statusOf N = none := by
    intro N
    rw [Database.statusOf_resetAllSettlingToActive]
    rfl
  refine ⟨fun N hN => ?_, fun N hN => ?_, nofun, nofun, nofun⟩
  · cases (hrow N).symm.trans hN
  · exact absurd ((hrow N).symm.trans hN) nofun

section Step
variable {api : NoteApi Note} {s s' : Landing Note} {e : LandingEvent Note}
  {history : List (Landing Note × LandingEvent Note)} {N : OrderId} {k : Nat}

/-- A note stays landed when the executor goes on with its batch, or is interrupted. -/
theorem Landed.step (h : Landed history s N k) (hgrows : s.chain.Extends s'.chain)
    (hexec : ∀ task, s.pipeline.executor = some task → ∀ ids,
      .recordExecuted ids ∈ task.pending → e = .solver (.act (.recordExecuted ids)) ∨ e.Interrupts ∨
        ∃ task', s'.pipeline.executor = some task' ∧ .recordExecuted ids ∈ task'.pending) :
    Landed (history ++ [(s, e)]) s' N k := by
  obtain ⟨before, x, batch, call, after, rfl, hk, hN, hall, hfate⟩ := h
  refine ⟨before, x, batch, call, after ++ [(s, e)], by simp, hk, hN,
    fun M hM => hgrows M _ (hall M hM), ?_⟩
  rcases hfate with hlost | ⟨y, hy, hwritten⟩ | ⟨y, hy, hinterrupted⟩ | ⟨task, htask, hpending⟩
  · exact Or.inl hlost
  · exact Or.inr (Or.inl ⟨y, List.mem_append_left _ hy, hwritten⟩)
  · exact Or.inr (Or.inr (Or.inl ⟨y, List.mem_append_left _ hy, hinterrupted⟩))
  · have hlast : (s, e) ∈ after ++ [(s, e)] := List.mem_append_right _ (List.mem_singleton_self _)
    rcases hexec task htask _ hpending with hwritten | hinterrupts | hkept
    · exact Or.inr (Or.inl ⟨_, hlast, hwritten⟩)
    · refine Or.inr (Or.inr (Or.inl ⟨_, hlast, ?_, hinterrupts⟩))
      rw [htask]
      exact Option.some_ne_none task
    · exact Or.inr (Or.inr (Or.inr hkept))

/-- A batch that has landed is recorded, or its answer was lost. -/
theorem landed_take {batch : ExecutionBatch} {rest : List ExecutionBatch} {call : Call}
    (hfree : s.chain.Free s.taken) (hne : batch.ids ≠ [])
    (hnew : call.chainOf api s.taken batch s.chain N = some (.solver s.taken)) :
    Landed (history ++ [(s, .take batch call)])
      { pipeline :=
          { s.pipeline with
            execCh := rest
            executor := some ⟨batch.ids,
              (executeBatch api (call.answers s.taken batch.ids s.chain) batch).1⟩ }
        chain := call.chainOf api s.taken batch s.chain
        taken := s.taken + 1 } N s.taken := by
  have hsub : Submitted call s.taken batch.ids s.chain := submitted call hne hfree
  unfold Call.chainOf at hnew ⊢
  cases hprepare : prepareBatchComponents api batch call.flowOrder with
  | error _ =>
    rw [hprepare] at hnew
    exact absurd hnew (hfree N)
  | ok components =>
    rw [hprepare] at hnew
    dsimp only at hnew
    have htaken : (call.chainAfter s.taken batch.ids s.chain).Taken s.taken batch.ids := by
      rcases hsub.whole with huntouched | htaken
      · exact absurd hnew (huntouched N)
      · exact htaken
    refine ⟨history, s, batch, call, [], rfl, rfl, (htaken N).mp hnew, fun M hM => ?_, ?_⟩
    · exact (htaken M).mpr hM
    · by_cases hsuccess : submitWithRpcBackoff (call.answerAt s.taken batch.ids s.chain) = .success
      · refine Or.inr (Or.inr (Or.inr ⟨_, rfl, ?_⟩))
        exact recordExecuted_iff.mpr ⟨⟨components, hprepare⟩, hsuccess, rfl⟩
      · exact Or.inl (hsub.unreported htaken hsuccess)

/-- A batch leaves the chain as its attempts do, or as it was. -/
theorem since_chainOf {batch : ExecutionBatch} (call : Call) (hne : batch.ids ≠ []) {c : Chain}
    (hfree : c.Free k) : Chain.Since k c (call.chainOf api k batch c) := by
  unfold Call.chainOf
  split
  · exact ⟨Chain.Extends.refl c, fun _ _ _ hN => hN⟩
  · exact (submitted call hne hfree).since

theorem ids_ne_nil {batch : ExecutionBatch} (h : batch.filledNotes ≠ []) : batch.ids ≠ [] := by
  intro hnil
  exact h (List.map_eq_nil_iff.mp hnil)

/-- **The records after a step.** -/
theorem LandingInv.step (h : LandingInv history s) (hstep : Landing.Step api s e s') :
    LandingInv (history ++ [(s, e)]) s' := by
  cases hstep with
  | others ids =>
    have hgrows := Chain.extends_spend s.chain ids .other
    -- others spend nothing for the solver
    have hold : ∀ N k, s.chain.spend ids .other N = some (.solver k) →
        s.chain N = some (.solver k) := by
      intro N k hN
      rcases Chain.of_spend hN with hold | ⟨hnew, -⟩
      · exact hold
      · cases hnew
    refine ⟨fun N hN => ?_, fun N hN => hgrows.ne_none (h.nullified N hN), fun task htask a ha =>
      (h.pending task htask a ha).mono hgrows, fun N k hN => h.fresh N k (hold N k hN),
      fun N k hN => (h.landed N k (hold N k hN)).step hgrows fun task htask ids hpending => ?_⟩
    · obtain ⟨k, hk⟩ := h.executed N hN
      exact ⟨k, hgrows N _ hk⟩
    · exact Or.inr (Or.inr ⟨task, htask, hpending⟩)
  | @solver e p' hstep hobserved hno =>
    have hcases := executor_cases hstep hno
    refine ⟨fun N hN => ?_, fun N hN => ?_, fun task htask a ha => ?_, h.fresh, fun N k hN =>
      (h.landed N k hN).step (Chain.Extends.refl _) fun task htask ids hpending => ?_⟩
    · by_cases hbefore : s.pipeline.db.statusOf N = some .executed
      · exact h.executed N hbefore
      · obtain ⟨ids, rfl, hids⟩ := recorded_of_executed hstep hbefore hN
        cases hstep with
        | act hbusy => exact (h.pending _ hbusy _ (List.mem_cons_self ..)).executed ids rfl N hids
    · by_cases hbefore : s.pipeline.db.statusOf N = some .onchainNullified
      · exact h.nullified N hbefore
      · have hmarks := mem_marks_of_nullified hstep hbefore hN
        cases hstep with
        | sync result _ => exact hobserved result rfl N hmarks
        | act hbusy =>
          have hended := (h.pending _ hbusy _ (List.mem_cons_self ..)).ended N
          apply hended
          revert hmarks
          unfold PipelineEvent.marks
          split <;> simp_all [ExecutorAction.ends]
        | _ => cases hmarks
    · rcases hcases with hsame | ⟨held, held', b, rest, -, hbusy, hnext⟩ | ⟨held, -, hnone⟩ |
        ⟨-, hnone⟩
      · exact h.pending task (hsame ▸ htask) a ha
      · cases hnext.symm.trans htask
        exact h.pending _ hbusy a (List.mem_cons_of_mem _ ha)
      · cases hnone.symm.trans htask
      · cases hnone.symm.trans htask
    · rcases hcases with hsame | ⟨held, held', b, rest, rfl, hbusy, hnext⟩ | ⟨held, hidle, -⟩ |
        ⟨rfl, -⟩
      · exact Or.inr (Or.inr ⟨task, hsame ▸ htask, hpending⟩)
      · cases hbusy.symm.trans htask
        rcases List.mem_cons.mp hpending with rfl | hrest
        · exact Or.inl rfl
        · exact Or.inr (Or.inr ⟨_, hnext, hrest⟩)
      · cases hidle.symm.trans htask
        cases hpending
      · exact Or.inr (Or.inl trivial)
  | @take batch rest call idle queued some_filled =>
    have hne := ids_ne_nil some_filled
    have hfree : s.chain.Free s.taken := fun N hN => Nat.lt_irrefl _ (h.fresh N _ hN)
    have hsince : Chain.Since s.taken s.chain (call.chainOf api s.taken batch s.chain) :=
      since_chainOf call hne hfree
    refine ⟨fun N hN => ?_, fun N hN => hsince.grows.ne_none (h.nullified N hN), ?_,
      fun N k hN => ?_, fun N k hN => ?_⟩
    · obtain ⟨k, hk⟩ := h.executed N hN
      exact ⟨k, hsince.grows N _ hk⟩
    · rintro task ⟨⟩ a ha
      show a.Justified (call.chainOf api s.taken batch s.chain)
      unfold Call.chainOf
      cases hprepare : prepareBatchComponents api batch call.flowOrder with
      | error _ =>
        have hnone : (executeBatch api (call.answers s.taken batch.ids s.chain) batch).1 = [] := by
          unfold executeBatch Call.answers
          rw [hprepare]
        rw [hnone] at ha
        cases ha
      | ok _ => exact justified_executeBatch (submitted call hne hfree) a ha
    · by_cases hk : k = s.taken
      · exact hk ▸ Nat.lt_succ_self _
      · exact (h.fresh N k (hsince.own N k hk hN)).trans (Nat.lt_succ_self _)
    · by_cases hk : k = s.taken
      · subst hk
        exact landed_take hfree hne hN
      · refine (h.landed N k (hsince.own N k hk hN)).step hsince.grows fun task htask => ?_
        cases idle.symm.trans htask
  | @failure p' hfailure =>
    have hdb : p'.db = s.pipeline.db := by
      cases hfailure with
      | channelClosed _ => rfl
      | revertFailed _ => rfl
      | batchFailed _ => rfl
    have hexec : p'.executor = s.pipeline.executor ∨ p'.executor = none ∨
        ∃ held a rest, s.pipeline.executor = some ⟨held, a :: rest⟩ ∧
          p'.executor = some ⟨held, rest⟩ ∧ ∀ ids, a ≠ .recordExecuted ids := by
      cases hfailure with
      | channelClosed _ => exact Or.inl rfl
      | revertFailed hbusy => exact Or.inr (Or.inr ⟨_, _, _, hbusy, rfl, nofun⟩)
      | batchFailed _ => exact Or.inr (Or.inl rfl)
    refine ⟨fun N hN => h.executed N (hdb ▸ hN), fun N hN => h.nullified N (hdb ▸ hN),
      fun task htask a ha => ?_, h.fresh, fun N k hN =>
      (h.landed N k hN).step (Chain.Extends.refl _) fun task htask ids hpending => ?_⟩
    · rcases hexec with hsame | hnone | ⟨held, b, rest, hbusy, hnext, -⟩
      · exact h.pending task (hsame ▸ htask) a ha
      · cases hnone.symm.trans htask
      · cases hnext.symm.trans htask
        exact h.pending _ hbusy a (List.mem_cons_of_mem _ ha)
    · rcases hexec with hsame | hnone | ⟨held, b, rest, hbusy, hnext, hother⟩
      · exact Or.inr (Or.inr ⟨task, hsame ▸ htask, hpending⟩)
      · exact Or.inr (Or.inl (Option.isNone_iff_eq_none.mpr hnone))
      · cases hbusy.symm.trans htask
        rcases List.mem_cons.mp hpending with rfl | hrest
        · exact absurd rfl (hother ids)
        · exact Or.inr (Or.inr ⟨_, hnext, hrest⟩)

end Step

/-! ## The chain as a parameter -/

/-- What a step is when the chain is a parameter. -/
def LandingEvent.toCrash : LandingEvent Note → Option (Option (PipelineEvent Note))
  | .others _ => none
  | .solver e => some (some e)
  | .take batch _ => some (some (.take batch))
  | .failure _ => some none

section Crash
variable {api : NoteApi Note} {s s' : Landing Note} {e : LandingEvent Note}
  {history : List (Landing Note × LandingEvent Note)}

theorem LandingInv.grows (h : LandingInv history s) (hstep : Landing.Step api s e s') :
    s.chain.Extends s'.chain := by
  cases hstep with
  | others ids => exact Chain.extends_spend _ _ _
  | solver _ _ _ => exact Chain.Extends.refl _
  | take call _ _ some_filled =>
    exact (since_chainOf call (ids_ne_nil some_filled)
      fun N hN => Nat.lt_irrefl _ (h.fresh N _ hN)).grows
  | failure _ => exact Chain.Extends.refl _

/-- A step is one of a solver on a chain where the notes that are spent in the end, and perhaps
others, are the consumed ones. -/
theorem LandingInv.toCrash (h : LandingInv history s) (hstep : Landing.Step api s e s')
    {consumed : Set OrderId} (hspent : ∀ N, s'.chain N ≠ none → N ∈ consumed) :
    e.toCrash = none ∧ s'.pipeline = s.pipeline ∨
    ∃ m, e.toCrash = some m ∧ CrashStep api consumed s.pipeline m s'.pipeline := by
  cases hstep with
  | others ids => exact Or.inl ⟨rfl, rfl⟩
  | @solver e p' hstep hobserved hno =>
    refine Or.inr ⟨_, rfl, .step hstep ?_⟩
    cases e with
    | sync result => exact fun N hN => hspent N (hobserved result rfl N hN)
    | take batch => exact fun hne => absurd (hno batch rfl) hne
    | _ => trivial
  | @take batch rest call idle queued some_filled =>
    refine Or.inr ⟨_, rfl, .step (.take _ idle queued some_filled) fun _ => ?_⟩
    have hne := ids_ne_nil some_filled
    have hfree : s.chain.Free s.taken := fun N hN => Nat.lt_irrefl _ (h.fresh N _ hN)
    unfold Call.chainOf at hspent
    cases hprepare : prepareBatchComponents api batch call.flowOrder with
    | error _ =>
      -- nothing is submitted, and any answers do
      have hrejected : submitWithRpcBackoff (fun _ => .rejected) ≠ .success := by decide
      refine ⟨⟨call.flowOrder, fun _ => .rejected, none⟩, ⟨fun h => absurd h hrejected, nofun⟩, ?_⟩
      unfold executeBatch Call.answers
      rw [hprepare]
    | ok _ =>
      rw [hprepare] at hspent
      have htrue := (submitted call hne hfree).truthful
      refine ⟨call.answers s.taken batch.ids s.chain, ⟨fun hsuccess N hN => ?_,
        fun ids hids N hN => ?_⟩, rfl⟩
      · exact hspent N (htrue.submitted hsuccess N hN)
      · exact hspent N (htrue.checked ids hids N hN)
  | failure hfailure => exact Or.inr ⟨_, rfl, .failure hfailure⟩

end Crash

/-- **A run on the chain is one of the solver with the chain as a parameter**: the consumed notes
are those spent in the end. -/
theorem crashRun_of_landing {api : NoteApi Note} {feed : PriceFeed} {triangularEnabled : Bool}
    {router : Option RouterHooks} {history : List (Landing Note × LandingEvent Note)}
    {s : Landing Note}
    (hrun : Run (Landing.Step api) unguarded (Landing.boot feed triangularEnabled router)
      history s) :
    LandingInv history s ∧ ∀ consumed : Set OrderId, (∀ N, s.chain N ≠ none → N ∈ consumed) →
      CrashRun api consumed feed triangularEnabled router
        (projection Landing.pipeline LandingEvent.toCrash history) s.pipeline := by
  induction hrun with
  | start => exact ⟨landingInv_boot feed triangularEnabled router, fun _ _ => Run.start⟩
  | @step history s s' e _ _ hstep ih =>
    obtain ⟨hinv, hcrash⟩ := ih
    refine ⟨hinv.step hstep, fun consumed hspent => ?_⟩
    have hbefore := hcrash consumed fun N hN => hspent N ((hinv.grows hstep).ne_none hN)
    rw [projection_concat]
    rcases hinv.toCrash hstep hspent with ⟨hnone, hsame⟩ | ⟨m, hm, hstep'⟩
    · rw [hnone, hsame]
      exact (List.append_nil _).symm ▸ hbefore
    · rw [hm]
      exact hbefore.step trivial hstep'

/-- **What the records and the chain say of each other**, in every run of the solver on the chain,
with crashes, failed writes, and others who spend notes, under the rules of the chain:

* an order recorded as executed was spent by the solver;
* an order recorded as nullified was spent;
* a committed order whose note is unspent is active or settling;
* a note that the solver has spent was spent by one batch, which has spent all its notes, and the
  batch is recorded as executed or about to be, unless an answer to it was lost or the executor
  was interrupted in the middle of it. -/
theorem records_match_chain (api : NoteApi Note) (feed : PriceFeed) (triangularEnabled : Bool)
    (router : Option RouterHooks) {history : List (Landing Note × LandingEvent Note)}
    {s : Landing Note}
    (hrun : Run (Landing.Step api) unguarded (Landing.boot feed triangularEnabled router) history s)
    (N : OrderId) :
    (s.pipeline.db.statusOf N = some .executed → ∃ k, s.chain N = some (.solver k)) ∧
    (s.pipeline.db.statusOf N = some .onchainNullified → s.chain N ≠ none) ∧
    (Committed api (projection Landing.pipeline LandingEvent.toCrash history) N →
      s.chain N = none → s.pipeline.db.Open N) ∧
    ∀ k, s.chain N = some (.solver k) → Landed history s N k := by
  obtain ⟨hinv, hcrash⟩ := crashRun_of_landing hrun
  have hrecovery := (hcrash {N | s.chain N ≠ none} fun _ hN => hN).inv
  refine ⟨hinv.executed N, hinv.nullified N, fun hcommitted hunspent => ?_, hinv.landed N⟩
  exact hrecovery.unended N (hrecovery.committed N hcommitted) fun hspent => hspent hunspent

/-! ### A lost answer -/

/-- A tick of the matcher, on the chain. -/
theorem run_onChain {api : NoteApi Note} {p p' : Pipeline Note}
    {history : List (Pipeline Note × PipelineEvent Note)}
    (h : Run (Pipeline.Step api) unguarded p history p')
    (hmatcher : ∀ x ∈ history, ∃ event, x.2 = .matcher event) (c : Chain) (k : Nat) :
    Run (Landing.Step api) unguarded ⟨p, c, k⟩
      (history.map fun x => (⟨x.1, c, k⟩, .solver x.2)) ⟨p', c, k⟩ := by
  induction h with
  | start => exact Run.start
  | @step history q q' e _ _ hlast ih =>
    rw [List.map_append]
    obtain ⟨event, rfl⟩ : ∃ event, e = .matcher event :=
      hmatcher (q, e) (List.mem_append_right _ (List.mem_singleton_self _))
    exact (ih fun x hx => hmatcher x (List.mem_append_left _ hx)).step trivial
      (.solver hlast nofun nofun)

/-- The first answer is lost; the second attempt is refused. -/
def lostThenRefused : Call := .landing false [1, 2]

/-- The solver settles two orders, and records both as spent by somebody else. -/
theorem settled_and_nullified :
    ∃ history, ∃ s : Landing OrderTerms,
      Run (Landing.Step exactApi) unguarded (Landing.boot crossingInputs.feed false none)
        history s ∧
      s.chain 1 = some (.solver 0) ∧ s.pipeline.db.statusOf 1 = some .onchainNullified ∧
      Landed history s 1 0 := by
  have h₁ : Run (Landing.Step exactApi) unguarded
      (Landing.boot crossingInputs.feed false none) _ _ :=
    Run.single (.solver (.sync ⟨0, [noteOne, noteTwo], []⟩ rfl) (by rintro _ ⟨⟩; exact nofun) nofun)
  have h₂ := h₁.step trivial (.solver (.insert rfl (by decide)) nofun nofun)
  have h₃ := h₂.step trivial (.solver (.reboot crossingInputs.feed false none) nofun nofun)
  obtain ⟨tick, htick, hquiet⟩ := emits_crossing exactApi
    (p := Pipeline.boot ingestedRows crossingInputs.feed false none) rfl rfl rfl
    (loadsActive_crossing (by decide) (by decide))
  have hticked := run_onChain htick (fun x hx => (hquiet x hx).1) (fun _ => none) 0
  have h₄ := Run.append h₃ hticked
  have h₅ := h₄.step trivial (.take lostThenRefused rfl rfl (by decide))
  have h₆ := h₅.step trivial (.solver (.act rfl) nofun nofun)
  have h₇ := h₆.step trivial (.solver (.act rfl) nofun nofun)
  refine ⟨_, _, h₇, by decide, by decide, ?_⟩
  exact (records_match_chain exactApi _ _ _ h₇ 1).2.2.2 0 (by decide)

end PswapSolver
