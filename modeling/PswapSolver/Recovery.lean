import PswapSolver.Consumption

/-! # Recovery after a crash

A crash may fall between any two steps of any task.  It loses the channels, the book and
the batch in the executor's hands; only the database survives, in which `prepare_db` puts
the `Settling` rows back to `Active`, and from which the matcher rebuilds its book.  A task
may also give up part of its work without a crash: a channel is closed, or a write of the
executor fails (`Failure`).

Which notes are consumed on-chain is a parameter.  The chain is assumed to tell the truth
(`Truthful`): a submit that succeeds consumes its inputs, and syncs and nullifier checks
report consumed notes only.  Then no row of any other note is ever ended, and hydration finds
every order whose note is not consumed (`crash_loses_no_order`).
-/
namespace PswapSolver
open Runs
variable {Note : Type}

/-! ## The chain and the failures -/

/-- What the chain answers to a batch is true of the consumed notes. -/
structure ExecutorAnswers.Truthful (answers : ExecutorAnswers) (batch : ExecutionBatch)
    (consumed : Set OrderId) : Prop where
  /-- A submit that succeeds consumes its inputs. -/
  submitted : submitWithRpcBackoff answers.attempts = .success → ∀ N ∈ batch.ids, N ∈ consumed
  checked : ∀ ids, answers.checkConsumed = some ids → ∀ N ∈ ids, N ∈ consumed

/-- What a step into `p'` learns from the chain is true of the consumed notes. -/
def Truthful (api : NoteApi Note) (consumed : Set OrderId) (p' : Pipeline Note) :
    PipelineEvent Note → Prop
  | .sync result => ∀ N ∈ result.consumedNotes, N ∈ consumed
  | .take batch => batch.filledNotes ≠ [] → ∃ answers : ExecutorAnswers,
      answers.Truthful batch consumed ∧
      p'.executor = some ⟨batch.ids, (executeBatch api answers batch).1⟩
  | _ => True

/-- **What a task may give up** without a crash. -/
inductive Failure : Pipeline Note → Pipeline Note → Prop
  /-- Ingest finds the matcher's channel closed: the orders not yet sent stay unsent. -/
  | channelClosed {p : Pipeline Note} {result : SyncResult Note} {pending : List IngestOrder}
      (sending : p.ingest = .sending result pending) : Failure p { p with ingest := .idle }
  /-- `revert_to_active` fails: it is only logged. -/
  | revertFailed {p : Pipeline Note} {held ids : List OrderId} {rest : List ExecutorAction}
      (busy : p.executor = some ⟨held, .updateStatus ids .active :: rest⟩) :
      Failure p { p with executor := some ⟨held, rest⟩ }
  /-- Any other write of the executor fails, or its channel is closed: this ends the batch. -/
  | batchFailed {p : Pipeline Note} {task : ExecutorTask} (busy : p.executor = some task) :
      Failure p { p with executor := none }

/-- **The steps of a solver that crashes and fails**, on a chain where the notes of
`consumed` are the consumed ones.  A failure has no label. -/
inductive CrashStep (api : NoteApi Note) (consumed : Set OrderId) :
    Pipeline Note → Option (PipelineEvent Note) → Pipeline Note → Prop
  | step {p p' : Pipeline Note} {e : PipelineEvent Note} (step : Pipeline.Step api p e p')
      (truthful : Truthful api consumed p' e) : CrashStep api consumed p (some e) p'
  | failure {p p' : Pipeline Note} (failure : Failure p p') : CrashStep api consumed p none p'

/-- A run with crashes, from the first boot on an empty database. -/
abbrev CrashRun (api : NoteApi Note) (consumed : Set OrderId) (feed : PriceFeed)
    (triangularEnabled : Bool) (router : Option RouterHooks) :
    List (Pipeline Note × Option (PipelineEvent Note)) → Pipeline Note → Prop :=
  Run (CrashStep api consumed) unguarded (Pipeline.boot emptyDb feed triangularEnabled router)

/-- The order was committed by `insert_notes_batch` in the course of the run. -/
def Committed (api : NoteApi Note) (history : List (Pipeline Note × Option (PipelineEvent Note)))
    (N : OrderId) : Prop :=
  ∃ x ∈ history, x.2 = some .insert ∧ ∃ result, x.1.ingest = .reporting result [] ∧
    N ∈ (ingestOrders api result.newNotes).map IngestOrder.noteId

/-! ## Rows that are not ended -/

namespace Database
variable {db : Database} {N : OrderId}

/-- The row is not at the end of its life. -/
def Open (db : Database) (N : OrderId) : Prop :=
  db.statusOf N = some .active ∨ db.statusOf N = some .settling

/-- Every order row has its note. -/
def Joined (db : Database) : Prop := ∀ N ∈ db.orders, N ∈ db.notes

theorem mem_insertNotesBatch {batch : List IngestOrder} {blockNumber : Nat} :
    N ∈ (db.insertNotesBatch batch blockNumber).2.orders ↔
      N ∈ batch.map IngestOrder.noteId ∨ N ∈ db.orders :=
  (insertOrders_spec db.orders batch).2.2.1 N

theorem mem_notes_insertNotesBatch {batch : List IngestOrder} {blockNumber : Nat} :
    N ∈ (db.insertNotesBatch batch blockNumber).2.notes ↔
      N ∈ batch.map IngestOrder.noteId ∨ N ∈ db.notes := by
  show N ∈ batch.foldl (fun table o => insertOrIgnore table o.noteId o.rawNoteData) db.notes ↔ _
  induction batch generalizing db with
  | nil => simp
  | cons o batch ih =>
    have := @ih { db with notes := insertOrIgnore db.notes o.noteId o.rawNoteData }
    rw [List.foldl_cons, this, mem_insertOrIgnore, List.map_cons, List.mem_cons]
    tauto

theorem Joined.insertNotesBatch (h : db.Joined) (batch : List IngestOrder) (blockNumber : Nat) :
    (db.insertNotesBatch batch blockNumber).2.Joined := fun N hN =>
  mem_notes_insertNotesBatch.mpr ((mem_insertNotesBatch.mp hN).imp_right (h N))

theorem Joined.updateWhere (h : db.Joined) (filter : OrderId → OrderStatus → Bool)
    (status : OrderStatus) : (db.updateWhere filter status).Joined := fun N hN =>
  h N (mem_updateWhere.mp hN)

/-- A row that appears in an insert is active. -/
theorem statusOf_inserted {batch : List IngestOrder} {blockNumber : Nat} (hnew : N ∉ db.orders)
    (h : N ∈ (db.insertNotesBatch batch blockNumber).2.orders) :
    (db.insertNotesBatch batch blockNumber).2.statusOf N = some .active := by
  obtain ⟨s, hs⟩ := Option.isSome_iff_exists.mp (statusOf_isSome.mpr h)
  have hnone : db.statusOf N = none := by
    rw [statusOf, Finmap.lookup_eq_none.mpr hnew]
    rfl
  rw [hs, statusOf_insertNotesBatch_new hnone hs]

end Database

/-- The notes whose rows an action ends. -/
def ExecutorAction.ends : ExecutorAction → List OrderId
  | updateStatus ids .executed => ids
  | updateStatus ids .onchainNullified => ids
  | updateStatus _ _ => []
  | markNullified ids => ids
  | resend _ => []

/-- The notes whose rows a step ends. -/
def PipelineEvent.ends : PipelineEvent Note → List OrderId
  | sync result => result.consumedNotes
  | act action => action.ends
  | _ => []

section Step
variable {api : NoteApi Note} {p p' : Pipeline Note} {e : PipelineEvent Note} {N : OrderId}

/-- A step ends no rows but those it says. -/
theorem open_step (hstep : Pipeline.Step api p e p') (h : p.db.Open N) (hN : N ∉ e.ends) :
    p'.db.Open N := by
  have hmark : ∀ {ids}, N ∉ ids → (p.db.markOrdersOnchainNullified ids).Open N := by
    intro ids hids
    rcases h with h | h
    · exact Or.inl (by simp [h, hids])
    · exact Or.inr (by simp [h, hids])
  obtain hdb | ⟨result, rfl, hdb⟩ | ⟨result, -, hdb⟩ | ⟨ids, status, rfl, hdb⟩ | ⟨ids, rfl, hdb⟩ |
    ⟨-, hdb⟩ := hstep.db_cases
  all_goals rw [hdb]
  · exact h
  · exact hmark hN
  · exact h.imp (fun h => Database.statusOf_insertNotesBatch h _ _)
      fun h => Database.statusOf_insertNotesBatch h _ _
  · by_cases hids : N ∈ ids
    · obtain ⟨s, hs⟩ : ∃ s, p.db.statusOf N = some s := h.elim (⟨_, ·⟩) (⟨_, ·⟩)
      cases status with
      | active => exact Or.inl (by simp [hs, hids])
      | settling => exact Or.inr (by simp [hs, hids])
      | executed => exact absurd hids hN
      | onchainNullified => exact absurd hids hN
    · rcases h with h | h
      · exact Or.inl (by simp [h, hids])
      · exact Or.inr (by simp [h, hids])
  · exact hmark hN
  · rcases h with h | h
    · exact Or.inl (by simp [h])
    · exact Or.inl (by simp [h])

/-- A row that appears in a step is active. -/
theorem open_of_new (hstep : Pipeline.Step api p e p') (hnew : N ∉ p.db.orders)
    (h : N ∈ p'.db.orders) : p'.db.Open N := by
  obtain hdb | ⟨result, -, hdb⟩ | ⟨result, -, hdb⟩ | ⟨ids, status, -, hdb⟩ | ⟨ids, -, hdb⟩ |
    ⟨-, hdb⟩ := hstep.db_cases
  all_goals rw [hdb] at h ⊢
  · exact absurd h hnew
  · exact absurd (Database.mem_updateWhere.mp h) hnew
  · exact Or.inl (Database.statusOf_inserted hnew h)
  · exact absurd (Database.mem_updateWhere.mp h) hnew
  · exact absurd (Database.mem_updateWhere.mp h) hnew
  · exact absurd (Database.mem_updateWhere.mp h) hnew

theorem joined_step (hstep : Pipeline.Step api p e p') (h : p.db.Joined) : p'.db.Joined := by
  obtain hdb | ⟨result, -, hdb⟩ | ⟨result, -, hdb⟩ | ⟨ids, status, -, hdb⟩ | ⟨ids, -, hdb⟩ |
    ⟨-, hdb⟩ := hstep.db_cases
  all_goals rw [hdb]
  · exact h
  · exact h.updateWhere _ _
  · exact h.insertNotesBatch _ _
  · exact h.updateWhere _ _
  · exact h.updateWhere _ _
  · exact h.updateWhere _ _

end Step

/-! ## What the executor ends -/

section Executor
variable {api : NoteApi Note} {answers : ExecutorAnswers} {batch : ExecutionBatch}
  {consumed : Set OrderId}

/-- The actions end rows of consumed notes only. -/
def EndsConsumed (consumed : Set OrderId) (actions : List ExecutorAction) : Prop :=
  ∀ a ∈ actions, ∀ N ∈ a.ends, N ∈ consumed

theorem endsConsumed_refeed (orders : List IngestOrder) :
    EndsConsumed consumed (refeedOrders orders) := by
  intro a ha N hN
  obtain ⟨o, -, rfl⟩ := List.mem_map.mp ha
  exact absurd hN List.not_mem_nil

theorem EndsConsumed.cons {a : ExecutorAction} {actions : List ExecutorAction}
    (h : EndsConsumed consumed actions) (ha : ∀ N ∈ a.ends, N ∈ consumed) :
    EndsConsumed consumed (a :: actions) := List.forall_mem_cons.mpr ⟨ha, h⟩

theorem endsConsumed_revert {notes : List Note} :
    EndsConsumed consumed (revertAndRefeed api batch notes) := by
  refine EndsConsumed.cons ?_ nofun
  split
  · exact endsConsumed_refeed _
  · exact nofun

theorem endsConsumed_classify {notes : List Note} (h : answers.Truthful batch consumed) :
    EndsConsumed consumed (classifyAndRefeed api answers batch notes) := by
  unfold classifyAndRefeed
  split
  · exact nofun
  rename_i consumedIds hcheck
  split
  · exact nofun
  rename_i c hc
  have hconsumed : ∀ N ∈ c.consumed, N ∈ consumed := by
    intro N hN
    rw [(classifyInputNotes_ids hc).1] at hN
    exact h.checked consumedIds hcheck N (by simpa using (List.mem_filter.mp hN).2)
  have hactive : EndsConsumed consumed
      ((if c.active = [] then [] else [.updateStatus c.active .active]) ++
        refeedOrders c.activeOrders) := by
    split
    · exact endsConsumed_refeed _
    · exact (endsConsumed_refeed _).cons nofun
  split
  · exact hactive
  · exact hactive.cons hconsumed

/-- **A batch ends rows of consumed notes only**, on a chain that tells the truth. -/
theorem endsConsumed_executeBatch (h : answers.Truthful batch consumed) :
    EndsConsumed consumed (executeBatch api answers batch).1 := by
  unfold executeBatch
  split
  · exact nofun
  dsimp only
  split
  · rename_i hsubmit
    refine EndsConsumed.cons (EndsConsumed.cons nofun ?_) nofun
    exact h.submitted hsubmit
  · exact endsConsumed_revert.cons nofun
  · exact endsConsumed_revert.cons nofun
  · exact EndsConsumed.cons nofun nofun
  · exact (endsConsumed_classify h).cons nofun

end Executor

/-! ## The invariant -/

/-- Before hydration the executor has nothing to do, the book is empty, and no row is
`Settling`. -/
structure Fresh (p : Pipeline Note) : Prop where
  idle : p.executor = none
  queue : p.execCh = []
  book : p.matcher.book.orders = ∅
  rows : ∀ N, p.db.statusOf N ≠ some .settling

/-- **The invariant**: every committed order has its rows, and a row is ended only if its
note is consumed. -/
structure RecoveryInv (api : NoteApi Note) (consumed : Set OrderId)
    (history : List (Pipeline Note × Option (PipelineEvent Note))) (p : Pipeline Note) : Prop where
  sound : p.matcher.Sound
  joined : p.db.Joined
  committed : ∀ N, Committed api history N → N ∈ p.db.orders
  unended : ∀ N ∈ p.db.orders, N ∉ consumed → p.db.Open N
  pending : ∀ task, p.executor = some task → EndsConsumed consumed task.pending
  booting : p.matcher.phase = .booting → Fresh p

section Inv
variable {api : NoteApi Note} {consumed : Set OrderId}
  {history : List (Pipeline Note × Option (PipelineEvent Note))} {p p' : Pipeline Note}
  {e : PipelineEvent Note}

/-- A step that touches neither the executor nor the matcher nor the database. -/
theorem Fresh.of_eq (h : Fresh p) (hexecutor : p'.executor = p.executor)
    (hqueue : p'.execCh = p.execCh) (hmatcher : p'.matcher = p.matcher) (hdb : p'.db = p.db) :
    Fresh p' :=
  ⟨hexecutor ▸ h.idle, hqueue ▸ h.queue, hmatcher ▸ h.book, hdb ▸ h.rows⟩

theorem fresh_boot (db : Database) (feed : PriceFeed) (triangularEnabled : Bool)
    (router : Option RouterHooks) :
    Fresh (Pipeline.boot db feed triangularEnabled router : Pipeline Note) where
  idle := rfl
  queue := rfl
  book := rfl
  rows := fun N hN => by
    obtain ⟨s, -, hs⟩ := Option.map_eq_some_iff.mp
      (Database.statusOf_resetAllSettlingToActive.symm.trans hN)
    split at hs
    · cases hs
    · contradiction

theorem recoveryInv_boot (feed : PriceFeed) (triangularEnabled : Bool)
    (router : Option RouterHooks) :
    RecoveryInv api consumed [] (Pipeline.boot emptyDb feed triangularEnabled router) where
  sound := ⟨OrderBook.Reachable.new feed, fun _ h => absurd h List.not_mem_nil⟩
  joined := fun _ hN => absurd (Database.mem_updateWhere.mp hN) Finmap.notMem_empty
  committed := fun _ ⟨_, hx, _⟩ => absurd hx List.not_mem_nil
  unended := fun _ hN => absurd (Database.mem_updateWhere.mp hN) Finmap.notMem_empty
  pending := fun _ h => by cases h
  booting := fun _ => fresh_boot _ _ _ _

/-- Ingest makes no row `Settling`. -/
theorem rows_mark {db : Database} (h : ∀ N, db.statusOf N ≠ some .settling) (ids : List OrderId) :
    ∀ N, (db.markOrdersOnchainNullified ids).statusOf N ≠ some .settling := by
  intro N hN
  rw [Database.statusOf_markOrdersOnchainNullified] at hN
  obtain ⟨s, hs, heq⟩ := Option.map_eq_some_iff.mp hN
  split at heq
  · cases heq
  · exact h N (heq ▸ hs)

theorem rows_insert {db : Database} (h : ∀ N, db.statusOf N ≠ some .settling)
    (batch : List IngestOrder) (blockNumber : Nat) :
    ∀ N, (db.insertNotesBatch batch blockNumber).2.statusOf N ≠ some .settling := by
  intro N hN
  cases hrow : db.statusOf N with
  | none => cases Database.statusOf_insertNotesBatch_new hrow hN
  | some s =>
    cases (Database.statusOf_insertNotesBatch hrow batch blockNumber).symm.trans hN
    exact h N hrow

/-- While the matcher is booting only ingest can act. -/
theorem fresh_step (hsound : p.matcher.Sound) (h : p.matcher.phase = .booting → Fresh p)
    (hstep : Pipeline.Step api p e p') : p'.matcher.phase = .booting → Fresh p' := by
  intro hboot
  cases hstep with
  | sync result _ =>
    obtain ⟨hidle, hqueue, hbook, hrows⟩ := h hboot
    exact ⟨hidle, hqueue, hbook, rows_mark hrows _⟩
  | insert _ _ =>
    obtain ⟨hidle, hqueue, hbook, hrows⟩ := h hboot
    exact ⟨hidle, hqueue, hbook, rows_insert hrows _ _⟩
  | report _ => exact (h hboot).of_eq rfl rfl rfl rfl
  | send _ => exact (h hboot).of_eq rfl rfl rfl rfl
  | finish _ => exact (h hboot).of_eq rfl rfl rfl rfl
  | finishEarly _ => exact (h hboot).of_eq rfl rfl rfl rfl
  | matcher hm _ => exact absurd hboot (hm.footprint hsound).booted
  | takeEmpty _ hqueue => cases hqueue.symm.trans (h hboot).queue
  | take _ _ hqueue _ => cases hqueue.symm.trans (h hboot).queue
  | @act held action rest hbusy =>
    have hphase : p.matcher.phase = .booting := by cases action <;> exact hboot
    cases hbusy.symm.trans (h hphase).idle
  | done hbusy => cases hbusy.symm.trans (h hboot).idle
  | reboot feed triangularEnabled router => exact fresh_boot _ _ _ _

/-- What a step ends is consumed. -/
theorem ends_consumed (hpending : ∀ task, p.executor = some task →
      EndsConsumed consumed task.pending) (hstep : Pipeline.Step api p e p')
    (htrue : Truthful api consumed p' e) : ∀ N ∈ e.ends, N ∈ consumed := by
  cases hstep with
  | sync result _ => exact htrue
  | act hbusy => exact hpending _ hbusy _ (List.mem_cons_self ..)
  | report _ => exact nofun
  | insert _ _ => exact nofun
  | send _ => exact nofun
  | finish _ => exact nofun
  | finishEarly _ => exact nofun
  | matcher _ _ => exact nofun
  | takeEmpty _ _ => exact nofun
  | take _ _ _ _ => exact nofun
  | done _ => exact nofun
  | reboot _ _ _ => exact nofun

theorem pending_step (hpending : ∀ task, p.executor = some task →
      EndsConsumed consumed task.pending) (hstep : Pipeline.Step api p e p')
    (htrue : Truthful api consumed p' e) :
    ∀ task, p'.executor = some task → EndsConsumed consumed task.pending := by
  cases hstep with
  | matcher _ hexch =>
    show ∀ task, _ = some task → _
    rw [hexch.frame.2.2.1]
    exact hpending
  | take _ _ _ hne =>
    obtain ⟨answers, hanswers, hexec⟩ := htrue hne
    rw [hexec]
    rintro task ⟨⟩
    exact endsConsumed_executeBatch hanswers
  | @act held action rest hbusy =>
    have hrest : EndsConsumed consumed rest := fun a ha =>
      hpending _ hbusy a (List.mem_cons_of_mem _ ha)
    cases action <;> rintro task ⟨⟩ <;> exact hrest
  | sync _ _ => exact hpending
  | report _ => exact hpending
  | insert _ _ => exact hpending
  | send _ => exact hpending
  | finish _ => exact hpending
  | finishEarly _ => exact hpending
  | takeEmpty _ _ => exact hpending
  | done _ => exact nofun
  | reboot _ _ _ => exact nofun

/-- What an insert commits has a row. -/
theorem mem_of_inserted {result : SyncResult Note} (hstep : Pipeline.Step api p .insert p')
    (hingest : p.ingest = .reporting result []) {N : OrderId}
    (hN : N ∈ (ingestOrders api result.newNotes).map IngestOrder.noteId) : N ∈ p'.db.orders := by
  cases hstep with
  | insert hreporting _ =>
    cases hreporting.symm.trans hingest
    exact Database.mem_insertNotesBatch.mpr (Or.inl hN)

/-- What was committed after one more step. -/
theorem committed_append {label : Option (PipelineEvent Note)} {N : OrderId}
    (h : Committed api (history ++ [(p, label)]) N) :
    Committed api history N ∨ (label = some .insert ∧ ∃ result, p.ingest = .reporting result [] ∧
      N ∈ (ingestOrders api result.newNotes).map IngestOrder.noteId) := by
  obtain ⟨x, hx, hrest⟩ := h
  rcases List.mem_append.mp hx with hx | hx
  · exact Or.inl ⟨x, hx, hrest⟩
  · cases List.mem_singleton.mp hx
    exact Or.inr hrest

theorem RecoveryInv.step (h : RecoveryInv api consumed history p)
    (hstep : Pipeline.Step api p e p') (htrue : Truthful api consumed p' e) :
    RecoveryInv api consumed (history ++ [(p, some e)]) p' where
  sound := sound_step hstep h.sound
  joined := joined_step hstep h.joined
  committed := fun N hN => by
    rcases committed_append hN with hbefore | ⟨he, result, hingest, hnow⟩
    · exact Database.statusOf_isSome.mp
        (hasRow_step hstep (Database.statusOf_isSome.mpr (h.committed N hbefore)))
    · cases he
      exact mem_of_inserted hstep hingest hnow
  unended := fun N hN hlive => by
    by_cases hold : N ∈ p.db.orders
    · exact open_step hstep (h.unended N hold hlive)
        fun hends => hlive (ends_consumed h.pending hstep htrue N hends)
    · exact open_of_new hstep hold hN
  pending := pending_step h.pending hstep htrue
  booting := fresh_step h.sound h.booting hstep

theorem RecoveryInv.failure (h : RecoveryInv api consumed history p) (hfail : Failure p p') :
    RecoveryInv api consumed (history ++ [(p, none)]) p' := by
  have hcommitted : ∀ N, Committed api (history ++ [(p, none)]) N → N ∈ p.db.orders := by
    intro N hN
    rcases committed_append hN with hN | ⟨he, -⟩
    · exact h.committed N hN
    · cases he
  cases hfail with
  | channelClosed _ =>
    exact ⟨h.sound, h.joined, hcommitted, h.unended, h.pending,
      fun hboot => (h.booting hboot).of_eq rfl rfl rfl rfl⟩
  | revertFailed hbusy =>
    refine ⟨h.sound, h.joined, hcommitted, h.unended, ?_, fun hboot => ?_⟩
    · rintro task ⟨⟩
      exact fun a ha => h.pending _ hbusy a (List.mem_cons_of_mem _ ha)
    · cases hbusy.symm.trans (h.booting hboot).idle
  | batchFailed hbusy =>
    refine ⟨h.sound, h.joined, hcommitted, h.unended, nofun, fun hboot => ?_⟩
    cases hbusy.symm.trans (h.booting hboot).idle

theorem CrashRun.inv {feed : PriceFeed} {triangularEnabled : Bool} {router : Option RouterHooks}
    (h : CrashRun api consumed feed triangularEnabled router history p) :
    RecoveryInv api consumed history p := by
  refine h.invariant (recoveryInv_boot feed triangularEnabled router) fun hinv _ hstep => ?_
  cases hstep with
  | step hstep htrue => exact hinv.step hstep htrue
  | failure hfail => exact hinv.failure hfail

end Inv

/-! ## Hydration -/

/-- Hydrating orders with distinct ids that the book does not have: these are in the book
afterwards, unfilled, and the others are as before. -/
theorem lookup_hydrateOrders {m : Matcher} (nowUnix : Nat) {loaded : List IngestOrder}
    (hnodup : (loaded.map IngestOrder.noteId).Nodup)
    (hnew : ∀ o ∈ loaded, o.noteId ∉ m.book.orders) :
    let m' := loaded.foldl (fun m order => m.hydrateOrder nowUnix order) m
    (∀ o ∈ loaded, m'.book.orders.lookup o.noteId = some (Order.fresh o.noteId o.terms)) ∧
    ∀ N, N ∉ loaded.map IngestOrder.noteId →
      m'.book.orders.lookup N = m.book.orders.lookup N := by
  induction loaded generalizing m with
  | nil => exact ⟨nofun, fun _ _ => rfl⟩
  | cons o loaded ih =>
    obtain ⟨ho, hnodup⟩ := List.nodup_cons.mp hnodup
    have hadd : (m.hydrateOrder nowUnix o).book.orders =
        m.book.orders.insert o.noteId (Order.fresh o.noteId o.terms) := by
      rw [Matcher.hydrateOrder, OrderBook.addUserOrder,
        if_neg fun hc => hnew o (List.mem_cons_self ..) hc.1]
    have hnext : ∀ o' ∈ loaded, o'.noteId ∉ (m.hydrateOrder nowUnix o).book.orders := by
      intro o' ho' hmem
      rw [hadd, Finmap.mem_insert] at hmem
      rcases hmem with heq | hmem
      · exact ho (heq ▸ List.mem_map_of_mem ho')
      · exact hnew o' (List.mem_cons_of_mem _ ho') hmem
    obtain ⟨hloaded, hrest⟩ := ih hnodup hnext
    refine ⟨List.forall_mem_cons.mpr ⟨?_, hloaded⟩, fun N hN => ?_⟩
    · rw [List.foldl_cons, hrest _ ho, hadd, Finmap.lookup_insert]
    · rw [List.map_cons, List.mem_cons, not_or] at hN
      rw [List.foldl_cons, hrest N hN.2, hadd, Finmap.lookup_insert_of_ne _ hN.1]

/-- Hydrating an empty book from rows that have their notes makes it the active rows. -/
theorem lookup_hydrate {m : Matcher} {loaded : List IngestOrder} {db : Database}
    (hbook : m.book.orders = ∅) (nowUnix : Nat) (hjoined : db.Joined)
    (hloads : db.LoadsActive loaded) (N : OrderId) (order : Order) :
    (m.hydrate nowUnix loaded).book.orders.lookup N = some order ↔
      ∃ terms, db.orders.lookup N = some ⟨terms, .active⟩ ∧ order = Order.fresh N terms := by
  obtain ⟨hloaded, hrest⟩ := lookup_hydrateOrders (m := m) nowUnix hloads.nodup
    fun o _ => hbook ▸ Finmap.notMem_empty
  constructor
  · intro h
    have hN : N ∈ loaded.map IngestOrder.noteId := by
      by_contra hN
      cases ((hrest N hN).trans (hbook ▸ Finmap.lookup_empty N)).symm.trans h
    obtain ⟨o, ho, rfl⟩ := List.mem_map.mp hN
    cases (hloaded o ho).symm.trans h
    exact ⟨o.terms, ((hloads.mem o).mp ho).1, rfl⟩
  · rintro ⟨terms, hrow, rfl⟩
    -- the join loses no row
    obtain ⟨raw, hraw⟩ := Finmap.mem_iff.mp (hjoined N (FiniteMap.mem_of_lookup hrow))
    exact hloaded ⟨N, terms, raw⟩ ((hloads.mem _).mpr ⟨hrow, hraw⟩)

/-- **A crash loses no order.**  Take any run from an empty database, with crashes and
failures anywhere, on a chain that tells the truth about the consumed notes.  Whenever the
matcher then hydrates its book after a boot, and the query succeeds, the book holds
exactly the active rows, with their terms and unfilled, and every order ever committed whose
note is not consumed is among them. -/
theorem crash_loses_no_order (api : NoteApi Note) (consumed : Set OrderId) (feed : PriceFeed)
    (triangularEnabled : Bool) (router : Option RouterHooks)
    {history : List (Pipeline Note × Option (PipelineEvent Note))} {p p' : Pipeline Note}
    {loaded : List IngestOrder}
    (hrun : CrashRun api consumed feed triangularEnabled router history p)
    (hloads : p.db.LoadsActive loaded)
    (hhydrate : Pipeline.Step api p (.matcher (.hydrate loaded)) p') :
    (∀ N order, p'.matcher.book.orders.lookup N = some order ↔
      ∃ terms, p'.db.orders.lookup N = some ⟨terms, .active⟩ ∧ order = Order.fresh N terms) ∧
    ∀ N, Committed api history N → N ∉ consumed → N ∈ p'.matcher.book.orders := by
  have hinv := hrun.inv
  cases hhydrate with
  | @matcher _ i _ _ hm hexch =>
    obtain ⟨-, rfl⟩ := hexch
    cases hm with
    | hydrate _ hphase =>
      obtain ⟨-, -, hbook, hrows⟩ := hinv.booting hphase
      have hlookup := lookup_hydrate hbook i.nowUnix hinv.joined hloads
      refine ⟨hlookup, fun N hN hlive => ?_⟩
      have hactive := (hinv.unended N (hinv.committed N hN) hlive).resolve_right (hrows N)
      obtain ⟨⟨terms, status⟩, hrow, rfl⟩ := Option.map_eq_some_iff.mp hactive
      exact FiniteMap.mem_of_lookup ((hlookup N _).mpr ⟨terms, hrow, rfl⟩)

/-! ### A crash while settling

Both crossing orders are committed, and the solver crashes before ingest sends them.  After
the next boot they are matched, and it crashes again when the executor has marked them
`Settling`. -/

/-- Note 2 as a sync finds it. -/
def noteTwo : NewNote OrderTerms := ⟨2, crossingTerms 2, true, [2]⟩

theorem committed_insert {api : NoteApi Note}
    {history : List (Pipeline Note × Option (PipelineEvent Note))} {p : Pipeline Note}
    (result : SyncResult Note) (hingest : p.ingest = .reporting result []) {N : OrderId}
    (hN : N ∈ (ingestOrders api result.newNotes).map IngestOrder.noteId) :
    Committed api (history ++ [(p, some .insert)]) N :=
  ⟨_, List.mem_append_right _ (List.mem_singleton_self _), rfl, result, hingest, hN⟩

theorem Committed.append {api : NoteApi Note}
    {history : List (Pipeline Note × Option (PipelineEvent Note))} {N : OrderId}
    (h : Committed api history N) (later : List (Pipeline Note × Option (PipelineEvent Note))) :
    Committed api (history ++ later) N := by
  obtain ⟨x, hx, hrest⟩ := h
  exact ⟨x, List.mem_append_left _ hx, hrest⟩

/-- The database once ingest has committed both orders. -/
def ingestedRows : Database :=
  ((emptyDb.resetAllSettlingToActive.markOrdersOnchainNullified []).insertNotesBatch
    loadedCrossing 0).2

/-- The database when the executor is about to submit both. -/
def settlingRows : Database :=
  ingestedRows.resetAllSettlingToActive.updateOrdersStatus [1, 2] .settling

/-- Both orders are back in the book. -/
theorem crash_while_settling :
    ∃ history, ∃ p p' : Pipeline OrderTerms,
      CrashRun exactApi ∅ crossingInputs.feed false none history p ∧
      (∃ x ∈ history, x.1.db.statusOf 1 = some .settling ∧ x.2 = some .reboot) ∧
      Pipeline.Step exactApi p (.matcher (.hydrate loadedCrossing)) p' ∧
      ∀ N ∈ [1, 2], N ∈ p'.matcher.book.orders := by
  have h₁ : CrashRun exactApi ∅ crossingInputs.feed false none _ _ :=
    Run.start.step trivial (.step (.sync ⟨0, [noteOne, noteTwo], []⟩ rfl) nofun)
  have h₂ := h₁.step trivial (.step (.insert rfl (by decide)) trivial)
  have h₃ := h₂.step trivial (.step (.reboot crossingInputs.feed false none) trivial)
  obtain ⟨tick, htick, hquiet⟩ := emits_crossing exactApi
    (p := Pipeline.boot ingestedRows crossingInputs.feed false none) rfl rfl rfl
    (loadsActive_crossing (by decide) (by decide))
  have hcrash : ∀ x ∈ tick, ∀ p', Pipeline.Step exactApi x.1 x.2 p' →
      CrashStep exactApi ∅ x.1 (some x.2) p' := by
    intro x hx p' hstep
    obtain ⟨⟨e, he⟩, -⟩ := hquiet x hx
    exact .step hstep (he ▸ trivial)
  have h₄ := Run.append (s := Pipeline.boot ingestedRows crossingInputs.feed false none) h₃
    (htick.relabel some hcrash)
  have h₅ := h₄.step trivial (.step (.take (uncheckable .rejected) rfl rfl (by decide))
    fun _ => ⟨uncheckable .rejected, ⟨by decide, nofun⟩, rfl⟩)
  have h₆ := h₅.step trivial (.step (.act rfl) trivial)
  have h₇ := h₆.step trivial (.step (.reboot crossingInputs.feed false none) trivial)
  have hloads : settlingRows.resetAllSettlingToActive.LoadsActive loadedCrossing :=
    loadsActive_crossing (by decide) (by decide)
  have hhydrate : Pipeline.Step exactApi
      (Pipeline.boot settlingRows crossingInputs.feed false none)
      (.matcher (.hydrate loadedCrossing)) _ :=
    .matcher_alone (i := crossingInputs) (.hydrate loadedCrossing rfl) ⟨Or.inl hloads, rfl⟩
  refine ⟨_, _, _, h₇, ⟨_, List.mem_append_right _ (List.mem_singleton_self _), by decide, rfl⟩,
    hhydrate, fun N hN => ?_⟩
  refine (crash_loses_no_order exactApi ∅ _ _ _ h₇ hloads hhydrate).2 N ?_ (Set.notMem_empty N)
  refine .append (.append (.append (.append (.append ?_ _) _) _) _) _
  exact committed_insert ⟨0, [noteOne, noteTwo], []⟩ rfl hN

end PswapSolver
