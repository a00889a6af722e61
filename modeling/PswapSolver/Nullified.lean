import PswapSolver.Pipeline

/-! # Nullified orders stay nullified

A row that is `OnchainNullified` belongs to a spent note and should never be a candidate
again.  Of the writers only `mark_orders_onchain_nullified` looks at the status it
overwrites; the executor's `Settling` and `Active` writes do not.  So the row is safe
once no such write of its note is still to come.

`Unraced` asks for that where it can fail: a nullifier is observed only while no queued
batch holds the note and the executor's remaining writes do not bring it back, and the
matcher emits no batch with a note that is already spent.
-/
namespace PswapSolver
open Runs
variable {Note : Type}

/-- The row is at the end of its life. -/
def Database.Spent (db : Database) (N : OrderId) : Prop :=
  db.statusOf N = some .onchainNullified ∨ db.statusOf N = some .executed

/-- The action would make the note a candidate again. -/
def ExecutorAction.Revives (N : OrderId) : ExecutorAction → Prop
  | updateStatus ids status => N ∈ ids ∧ (status = .settling ∨ status = .active)
  | _ => False

namespace PipelineEvent

/-- The notes whose nullifier is observed in a step. -/
def marks : PipelineEvent Note → List OrderId
  | sync result => result.consumedNotes
  | act (.markNullified ids) => ids
  | act (.updateStatus ids .onchainNullified) => ids
  | _ => []

/-- The notes the matcher sends to the executor in a step. -/
def executes : PipelineEvent Note → List OrderId
  | matcher event => event.executes
  | _ => []

end PipelineEvent

/-- No write to come makes the note a candidate again: no queued batch holds it, and no
remaining action of the executor revives it. -/
def Unclaimed (p : Pipeline Note) (N : OrderId) : Prop :=
  (∀ batch ∈ p.execCh, N ∉ batch.ids) ∧
  ∀ task, p.executor = some task → ∀ a ∈ task.pending, ¬ a.Revives N

/-- **The condition on a step**: a nullifier is observed while its note is unclaimed, and no
batch is emitted with a spent note. -/
def Unraced : Guard (Pipeline Note) (PipelineEvent Note) := fun _ p e =>
  (∀ N ∈ e.marks, Unclaimed p N) ∧ ∀ N ∈ e.executes, ¬ p.db.Spent N

/-! ## The rows under each step -/

namespace Database
variable {db : Database} {N : OrderId}

theorem Spent.markOrdersOnchainNullified (h : db.Spent N) (ids : List OrderId) :
    (db.markOrdersOnchainNullified ids).Spent N := by
  rcases h with h | h
  · exact Or.inl (by simp [h])
  · exact Or.inr (by simp [h])

theorem Spent.resetAllSettlingToActive (h : db.Spent N) : db.resetAllSettlingToActive.Spent N := by
  rcases h with h | h
  · exact Or.inl (by simp [h])
  · exact Or.inr (by simp [h])

theorem Spent.updateOrdersStatus (h : db.Spent N) {ids : List OrderId} {status : OrderStatus}
    (hs : ¬ (ExecutorAction.updateStatus ids status).Revives N) :
    (db.updateOrdersStatus ids status).Spent N := by
  by_cases hN : N ∈ ids
  · have hstatus : status ≠ .settling ∧ status ≠ .active := by
      simpa [ExecutorAction.Revives, hN] using hs
    rcases h with h | h <;> cases status <;> simp_all [Spent]
  · rcases h with h | h
    · exact Or.inl (by simp [h, hN])
    · exact Or.inr (by simp [h, hN])

/-- An insert leaves the rows that are there alone. -/
theorem statusOf_insertNotesBatch {s : OrderStatus} (h : db.statusOf N = some s)
    (batch : List IngestOrder) (blockNumber : Nat) :
    (db.insertNotesBatch batch blockNumber).2.statusOf N = some s := by
  obtain ⟨row, hrow, -⟩ := Option.map_eq_some_iff.mp h
  have hkeep := (insertOrders_spec db.orders batch).2.1 N (FiniteMap.mem_of_lookup hrow)
  rw [← h, statusOf, statusOf, ← hkeep]
  rfl

/-- A row that appears in an insert is active. -/
theorem statusOf_insertNotesBatch_new {s : OrderStatus} (hnew : db.statusOf N = none)
    {batch : List IngestOrder} {blockNumber : Nat}
    (h : (db.insertNotesBatch batch blockNumber).2.statusOf N = some s) : s = .active := by
  obtain ⟨row, hrow, rfl⟩ := Option.map_eq_some_iff.mp h
  have hN : N ∉ db.orders := Finmap.lookup_eq_none.mp (Option.map_eq_none_iff.mp hnew)
  exact (insertOrders_spec db.orders batch).2.2.2 N row hN hrow

theorem Spent.insertNotesBatch (h : db.Spent N) (batch : List IngestOrder) (blockNumber : Nat) :
    (db.insertNotesBatch batch blockNumber).2.Spent N :=
  h.imp (fun h => statusOf_insertNotesBatch h batch blockNumber)
    fun h => statusOf_insertNotesBatch h batch blockNumber

end Database

/-! ## A spent note stays unclaimed -/

/-- The row is spent and nothing will change that. -/
structure Retired (p : Pipeline Note) (N : OrderId) : Prop where
  spent : p.db.Spent N
  unclaimed : Unclaimed p N

section Step
variable {api : NoteApi Note} {p p' : Pipeline Note} {e : PipelineEvent Note} {N : OrderId}

/-- Only the observation of a nullifier nullifies a row. -/
theorem mem_marks_of_nullified (hstep : Pipeline.Step api p e p')
    (hbefore : p.db.statusOf N ≠ some .onchainNullified)
    (hafter : p'.db.statusOf N = some .onchainNullified) : N ∈ e.marks := by
  have hmark : ∀ {ids}, (p.db.markOrdersOnchainNullified ids).statusOf N =
      some .onchainNullified → N ∈ ids := by
    intro ids h
    by_contra hN
    exact hbefore (by simpa [hN] using h)
  obtain hdb | ⟨result, rfl, hdb⟩ | ⟨result, -, hdb⟩ | ⟨ids, status, rfl, hdb⟩ | ⟨ids, rfl, hdb⟩ |
    ⟨-, hdb⟩ := hstep.db_cases
  all_goals rw [hdb] at hafter
  · exact absurd hafter hbefore
  · exact hmark hafter
  · cases hrow : p.db.statusOf N with
    | none => cases Database.statusOf_insertNotesBatch_new hrow hafter
    | some s =>
      cases (Database.statusOf_insertNotesBatch hrow _ _).symm.trans hafter
      exact absurd hrow hbefore
  · by_cases hN : N ∈ ids
    · obtain ⟨-, -, rfl⟩ : ∃ s, p.db.statusOf N = some s ∧ status = .onchainNullified := by
        simpa [hN] using hafter
      exact hN
    · exact absurd (by simpa [hN] using hafter) hbefore
  · exact hmark hafter
  · obtain ⟨s, hs, hif⟩ : ∃ s, p.db.statusOf N = some s ∧
        (if s = .settling then OrderStatus.active else s) = .onchainNullified := by
      simpa using hafter
    split at hif
    · cases hif
    · exact absurd (hif ▸ hs) hbefore

/-- The observation itself claims nothing. -/
theorem Unclaimed.of_marks (h : Unclaimed p N) (hstep : Pipeline.Step api p e p')
    (hN : N ∈ e.marks) : Unclaimed p' N := by
  cases hstep with
  | sync result _ => exact h
  | @act held action rest hbusy =>
    have hrest : ∀ a ∈ rest, ¬ a.Revives N := fun a ha =>
      h.2 _ hbusy a (List.mem_cons_of_mem _ ha)
    cases action with
    | updateStatus ids status =>
      refine ⟨h.1, ?_⟩
      rintro task ⟨⟩
      exact hrest
    | markNullified ids =>
      refine ⟨h.1, ?_⟩
      rintro task ⟨⟩
      exact hrest
    | resend order => exact absurd hN List.not_mem_nil
  | report _ => exact absurd hN List.not_mem_nil
  | insert _ _ => exact absurd hN List.not_mem_nil
  | send _ => exact absurd hN List.not_mem_nil
  | finish _ => exact absurd hN List.not_mem_nil
  | finishEarly _ => exact absurd hN List.not_mem_nil
  | matcher _ _ => exact absurd hN List.not_mem_nil
  | takeEmpty _ _ => exact absurd hN List.not_mem_nil
  | take _ _ _ _ => exact absurd hN List.not_mem_nil
  | done _ => exact absurd hN List.not_mem_nil
  | reboot _ _ _ => exact absurd hN List.not_mem_nil

/-- A batch's actions revive none but its own notes. -/
theorem unclaimed_executeBatch {answers : ExecutorAnswers} {batch : ExecutionBatch}
    (hN : N ∉ batch.ids) : ∀ a ∈ (executeBatch api answers batch).1, ¬ a.Revives N := by
  intro a ha hrev
  have hids := withinBatch_executeBatch.1 a ha
  cases a with
  | updateStatus ids status => exact hN (hids hrev.1)
  | markNullified ids => exact hrev
  | resend order => exact hrev

/-- **One step**: a retired note stays retired. -/
theorem Retired.step (h : Retired p N) (hstep : Pipeline.Step api p e p')
    (hemit : ∀ N ∈ e.executes, ¬ p.db.Spent N) : Retired p' N := by
  obtain ⟨hspent, hqueue, hpending⟩ := h
  cases hstep with
  | sync result _ => exact ⟨hspent.markOrdersOnchainNullified _, hqueue, hpending⟩
  | report _ => exact ⟨hspent, hqueue, hpending⟩
  | insert _ _ => exact ⟨hspent.insertNotesBatch _ _, hqueue, hpending⟩
  | send _ => exact ⟨hspent, hqueue, hpending⟩
  | finish _ => exact ⟨hspent, hqueue, hpending⟩
  | finishEarly _ => exact ⟨hspent, hqueue, hpending⟩
  | matcher _ hexch =>
    obtain ⟨hdb, -, hexec, ⟨sent, hsent, hids⟩, -⟩ := hexch.frame
    refine ⟨hdb ▸ hspent, fun batch hbatch hN => ?_, hexec ▸ hpending⟩
    rcases List.mem_append.mp (hsent ▸ hbatch) with hold | hnew
    · exact hqueue batch hold hN
    · have hemits := List.mem_flatMap.mpr ⟨batch, hnew, hN⟩
      rw [hids] at hemits
      exact hemit N hemits hspent
  | takeEmpty _ hq =>
    exact ⟨hspent, fun batch hb => hqueue batch (hq ▸ List.mem_cons_of_mem _ hb), hpending⟩
  | take answers _ hq _ =>
    refine ⟨hspent, fun batch hb => hqueue batch (hq ▸ List.mem_cons_of_mem _ hb), ?_⟩
    rintro task ⟨⟩
    exact unclaimed_executeBatch (hqueue _ (hq ▸ List.mem_cons_self ..))
  | @act held action rest hbusy =>
    have hall := hpending _ hbusy
    have hrest : ∀ a ∈ rest, ¬ a.Revives N := fun a ha => hall a (List.mem_cons_of_mem _ ha)
    cases action with
    | updateStatus ids status =>
      refine ⟨hspent.updateOrdersStatus (hall _ (List.mem_cons_self ..)), hqueue, ?_⟩
      rintro task ⟨⟩
      exact hrest
    | markNullified ids =>
      refine ⟨hspent.markOrdersOnchainNullified _, hqueue, ?_⟩
      rintro task ⟨⟩
      exact hrest
    | resend order =>
      refine ⟨hspent, hqueue, ?_⟩
      rintro task ⟨⟩
      exact hrest
  | done _ => exact ⟨hspent, hqueue, nofun⟩
  | reboot _ _ _ => exact ⟨hspent.resetAllSettlingToActive, nofun, nofun⟩

end Step

/-- The invariant of an unraced run: a row that is or was nullified is retired. -/
structure NullifiedInv (history : List (Pipeline Note × PipelineEvent Note)) (p : Pipeline Note) :
    Prop where
  now : ∀ N, p.db.statusOf N = some .onchainNullified → Retired p N
  before : ∀ x ∈ history, ∀ N, x.1.db.statusOf N = some .onchainNullified → Retired p N

theorem nullifiedInv_boot (db : Database) (feed : PriceFeed) (triangularEnabled : Bool)
    (router : Option RouterHooks) :
    NullifiedInv [] (Pipeline.boot db feed triangularEnabled router : Pipeline Note) where
  now := fun _ hN => ⟨Or.inl hN, fun _ h => absurd h List.not_mem_nil, fun _ h => by cases h⟩
  before := fun _ h => absurd h List.not_mem_nil

theorem NullifiedInv.step {api : NoteApi Note}
    {history : List (Pipeline Note × PipelineEvent Note)} {p p' : Pipeline Note}
    {e : PipelineEvent Note} (hinv : NullifiedInv history p) (hguard : Unraced history p e)
    (hstep : Pipeline.Step api p e p') : NullifiedInv (history ++ [(p, e)]) p' where
  now := fun N hN => by
    by_cases hbefore : p.db.statusOf N = some .onchainNullified
    · exact (hinv.now N hbefore).step hstep hguard.2
    · have hmarks := mem_marks_of_nullified hstep hbefore hN
      exact ⟨Or.inl hN, (hguard.1 N hmarks).of_marks hstep hmarks⟩
  before := fun x hx N hN => by
    rcases List.mem_append.mp hx with hx | hx
    · exact (hinv.before x hx N hN).step hstep hguard.2
    · rw [List.mem_singleton.mp hx] at hN
      exact (hinv.now N hN).step hstep hguard.2

/-- **`OnchainNullified` is terminal in an unraced run.**  Whatever the interleaving of
ingest iterations, matcher steps, executor batches and reboots, from any database: if all
steps meet the condition, a row that was nullified at some point is nullified, or executed,
at every later one. -/
theorem onchainNullified_terminal (api : NoteApi Note) (db : Database) (feed : PriceFeed)
    (triangularEnabled : Bool) (router : Option RouterHooks)
    {history : List (Pipeline Note × PipelineEvent Note)} {p : Pipeline Note}
    (hrun : Run (Pipeline.Step api) Unraced (Pipeline.boot db feed triangularEnabled router)
      history p) :
    ∀ x ∈ history, ∀ N, x.1.db.statusOf N = some .onchainNullified →
      p.db.statusOf N = some .onchainNullified ∨ p.db.statusOf N = some .executed := by
  have hinv : NullifiedInv history p := hrun.invariant
    (nullifiedInv_boot db feed triangularEnabled router)
    fun hinv hguard hstep => hinv.step hguard hstep
  exact fun x hx N hN => (hinv.before x hx N hN).spent

/-! ### A tick that emits a batch

The two crossing orders are loaded at boot and fill each other in the first tick. -/

/-- Both orders as they are loaded. -/
def loadedCrossing : List IngestOrder := [⟨1, crossingTerms 1, [1]⟩, ⟨2, crossingTerms 2, [2]⟩]

/-- Every token has a price, and there are no quotes. -/
def crossingInputs : MatcherInputs := ⟨fun _ => some 1, ∅, 1, 0⟩

/-- The matcher before anything is loaded. -/
def unloaded : Matcher := Matcher.new crossingInputs.feed false none

/-- The matcher when it comes to match. -/
def ready : Matcher :=
  ({ (unloaded.hydrate 0 loadedCrossing).wake 1 with phase := .receiving } : Matcher).reactivate

/-- The engine's run: one match, and a round that finds nothing more. -/
def crossingRun : Progress :=
  (matchRound 1 2 (matchRound 1 2 (runStart { ready.book with feed := crossingInputs.feed })).2).2

/-- The batch of both orders. -/
def crossingBatch : ExecutionBatch :=
  ⟨filledNotes crossingRun.book ready.rawNotes ready.arrivals 0 [1, 2]⟩

/-- The matcher after the batch is sent. -/
def emptied : Matcher := { ready.settled crossingRun.book [1, 2] with phase := .routing }

theorem crossingRun_run : EngineRun { ready.book with feed := crossingInputs.feed }
    ready.triangularEnabled crossingRun := by
  have hpairs : MatchablePairs { ready.book with feed := crossingInputs.feed } [(1, 2)] :=
    ⟨by decide, by decide⟩
  have heq : runDirectMatching [(1, 2)] (runStart { ready.book with feed := crossingInputs.feed }) =
      crossingRun := by
    show matchUserOrders 1 2 _ = _
    rw [matchUserOrders_of_true (by decide), matchUserOrders_of_false (by decide)]
    rfl
  rw [← heq]
  exact .direct hpairs

/-- From any state with just these two orders active, the first tick emits the batch; only
the matcher acts. -/
theorem emits_crossing (api : NoteApi Note) {p : Pipeline Note} (hm : p.matcher = unloaded)
    (hconsumed : p.consumedCh = []) (horders : p.orderCh = [])
    (hloads : p.db.LoadsActive loadedCrossing) :
    ∃ history, Run (Pipeline.Step api) unguarded p history
      { p with matcher := emptied, execCh := p.execCh ++ [crossingBatch] } ∧
      ∀ x ∈ history, (∃ e, x.2 = .matcher e) ∧ x.1.ingest = p.ingest ∧ x.1.orderCh = p.orderCh := by
  have hydrate : Matcher.Step crossingInputs p.matcher (.hydrate loadedCrossing)
      (unloaded.hydrate 0 loadedCrossing) := by
    rw [hm]
    exact .hydrate _ rfl
  have execute : Matcher.Step crossingInputs ready (.execute (some crossingBatch)) emptied :=
    .execute rfl (.sent (by decide) crossingRun_run (by decide) (by decide) (by decide))
  have h₁ : Run (Pipeline.Step api) unguarded p _ _ :=
    Run.single (.matcher_alone hydrate ⟨Or.inl hloads, rfl⟩)
  have h₂ := h₁.step trivial (.matcher_alone (i := crossingInputs) (.wake rfl) rfl)
  have h₃ := h₂.step trivial
    (.matcher_alone (i := crossingInputs) (.consumedEmpty rfl) ⟨hconsumed, rfl⟩)
  have h₄ := h₃.step trivial
    (.matcher_alone (i := crossingInputs) (.ordersEmpty rfl) ⟨horders, rfl⟩)
  refine ⟨_, h₄.step trivial (.matcher_emit execute), fun x hx => ?_⟩
  simp only [List.cons_append, List.nil_append, List.mem_cons, List.not_mem_nil, or_false] at hx
  rcases hx with rfl | rfl | rfl | rfl | rfl
  all_goals exact ⟨⟨_, rfl⟩, rfl, rfl⟩

/-- The two active rows are what is loaded. -/
theorem loadsActive_crossing {db : Database}
    (horders : db.orders = activeRows.orders) (hnotes : db.notes = activeRows.notes) :
    db.LoadsActive loadedCrossing := by
  refine ⟨by decide, fun o => ?_⟩
  obtain ⟨id, terms, raw⟩ := o
  simp only [horders, hnotes, activeRows, loadedCrossing, FiniteMap.lookup_insert_if,
    List.mem_cons, List.not_mem_nil, or_false, IngestOrder.mk.injEq]
  by_cases h₁ : id = 1
  · subst h₁
    simp [eq_comm]
  · by_cases h₂ : id = 2
    · subst h₂
      simp [eq_comm]
    · simp [h₁, h₂]

/-! ### A race that is lost

The batch is queued when ingest observes that note 1 was consumed, and the executor marks
the whole batch `Settling` after that. -/

/-- **A nullified order becomes `Settling`.** -/
theorem settling_overwrites_nullified :
    ∃ history, ∃ p : Pipeline OrderTerms, Run (Pipeline.Step exactApi) unguarded
      (Pipeline.boot activeRows crossingInputs.feed false none) history p ∧
      (∃ x ∈ history, x.1.db.statusOf 1 = some .onchainNullified) ∧
      p.db.statusOf 1 = some .settling := by
  obtain ⟨history, hrun, -⟩ := emits_crossing exactApi
    (p := Pipeline.boot activeRows crossingInputs.feed false none) rfl rfl rfl
    (loadsActive_crossing (by decide) rfl)
  have hsync := hrun.step trivial (.sync ⟨0, [], [1]⟩ rfl)
  have htake := hsync.step trivial (.take (uncheckable .landed) rfl rfl (by decide))
  have hact := htake.step trivial (.act rfl)
  refine ⟨_, _, hact, ⟨_, List.mem_append_left _ (List.mem_append_right _
    (List.mem_singleton_self _)), ?_⟩, ?_⟩
  · decide
  · decide

/-- Observed at boot, before any batch, the nullifier stays in force across a restart. -/
theorem onchainNullified_terminal_restart :
    ∃ history, ∃ p : Pipeline OrderTerms, Run (Pipeline.Step exactApi) Unraced
      (Pipeline.boot activeRows crossingInputs.feed false none) history p ∧
      (p.db.statusOf 1 = some .onchainNullified ∨ p.db.statusOf 1 = some .executed) := by
  have hunraced : ∀ {history p e}, e.marks = [] → e.executes = [] →
      (Unraced : Guard (Pipeline OrderTerms) (PipelineEvent OrderTerms)) history p e := by
    intro history p e hmarks hexec
    exact ⟨by simp [hmarks], by simp [hexec]⟩
  have hsync : (Unraced : Guard (Pipeline OrderTerms) (PipelineEvent OrderTerms)) []
      (Pipeline.boot activeRows crossingInputs.feed false none) (.sync ⟨0, [], [1]⟩) :=
    ⟨fun _ _ => ⟨fun _ h => absurd h List.not_mem_nil, fun _ h => by cases h⟩,
      fun _ h => absurd h List.not_mem_nil⟩
  have h₁ : Run (Pipeline.Step exactApi) Unraced
      (Pipeline.boot activeRows crossingInputs.feed false none) _ _ :=
    Run.start.step hsync (.sync _ rfl)
  have h₂ := h₁.step (hunraced rfl rfl) (.report rfl)
  have h₃ := h₂.step (hunraced rfl rfl) (.reboot crossingInputs.feed false none)
  refine ⟨_, _, h₃, onchainNullified_terminal exactApi activeRows _ _ _ h₃ _
    (List.mem_append_right _ (List.mem_singleton_self _)) 1 ?_⟩
  decide

end PswapSolver
