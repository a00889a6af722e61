import PswapSolver.Ingestion

/-! # Each note is forwarded once

Ingest forwards an order to the matcher in the iteration that inserts its row, and rows are
never deleted; so no order is forwarded by two iterations, whatever other tasks do to the
rows in between and however often the solver is restarted.

Within one iteration the orders are compared with the *set* of inserted ids, and a note that
the sync lists twice passes the comparison twice.  So all forwarded notes are distinct iff no
iteration forwards a repeated note (`forwarded_once_iff`).
-/
namespace PswapSolver
open Runs
variable {Note : Type}

/-- What happens to the database: an iteration of ingest, a write of the executor or of its
recovery, or a restart. -/
inductive StoreEvent (Note : Type) where
  | ingest (i : IngestInputs Note)
  | updateStatus (ids : List OrderId) (status : OrderStatus)
  | markNullified (ids : List OrderId)
  | restart

/-- The database after an event. -/
def StoreEvent.apply (api : NoteApi Note) (db : Database) : StoreEvent Note → Database
  | ingest i => (ingestOnce api db i).db
  | updateStatus ids status => db.updateOrdersStatus ids status
  | markNullified ids => db.markOrdersOnchainNullified ids
  | restart => db.resetAllSettlingToActive

/-- The steps of the database. -/
def StoreStep (api : NoteApi Note) (db : Database) (e : StoreEvent Note) (db' : Database) : Prop :=
  db' = e.apply api db

/-- The ids that an event puts on the matcher's channel. -/
def StoreEvent.sends (api : NoteApi Note) (db : Database) : StoreEvent Note → List OrderId
  | ingest i => (ingestOnce api db i).forwarded.map IngestOrder.noteId
  | _ => []

/-- All ids that ingest puts on the matcher's channel in a run. -/
def sentByIngest (api : NoteApi Note) (history : List (Database × StoreEvent Note)) :
    List OrderId :=
  history.flatMap fun x => x.2.sends api x.1

/-- What gets through a channel that is closed at some point. -/
def reaching {α : Type} (l : List α) : Option Nat → List α
  | none => l
  | some n => l.take n

/-- The ids among the orders of a sync that have no row, in the order of the sync. -/
def firstSeen (api : NoteApi Note) (db : Database) (sync : SyncResult Note) : List OrderId :=
  ((ingestOrders api sync.newNotes).map IngestOrder.noteId).filter fun id => decide (id ∉ db.orders)

/-- **The condition on an iteration**: if it gets past inserting, then of the notes it sees for
the first time and that get through the channel, none is listed twice. -/
def StoreEvent.ListsOnce (api : NoteApi Note) (db : Database) : StoreEvent Note → Prop
  | ingest i => ∀ sync, i.sync = some sync → i.Inserts api sync →
      (reaching (firstSeen api db sync) i.closedAfter).Nodup
  | _ => True

section Event
variable {api : NoteApi Note} {db : Database} {N : OrderId}

theorem reaching_sublist {α : Type} (l : List α) (closedAfter : Option Nat) :
    (reaching l closedAfter).Sublist l := by
  cases closedAfter with
  | none => exact .refl _
  | some n => exact List.take_sublist n l

theorem forwardOrders_ids (orders : List IngestOrder) (closedAfter : Option Nat) :
    (forwardOrders orders closedAfter).1.map IngestOrder.noteId =
      reaching (orders.map IngestOrder.noteId) closedAfter := by
  cases closedAfter with
  | none => rfl
  | some n =>
    rw [forwardOrders, reaching]
    split
    · exact List.map_take
    · rename_i hlen
      rw [List.take_of_length_le]
      rw [List.length_map]
      exact Nat.le_of_not_lt hlen

/-- Marking does not change which rows there are. -/
theorem firstSeen_mark (ids : List OrderId) (sync : SyncResult Note) :
    firstSeen api (db.markOrdersOnchainNullified ids) sync = firstSeen api db sync := by
  unfold firstSeen Database.markOrdersOnchainNullified
  simp only [Database.mem_updateWhere]

theorem insertOrdersOnce_ids {orders orders' : List IngestOrder} {blockNum : Nat}
    {error : Option WriteError} {db' : Database}
    (h : insertOrdersOnce db orders blockNum error = .ok (orders', db')) :
    orders'.map IngestOrder.noteId =
      (orders.map IngestOrder.noteId).filter fun id => decide (id ∉ db.orders) := by
  unfold insertOrdersOnce at h
  split at h
  · rename_i hnil
    cases h
    rw [hnil]
    rfl
  · split at h
    · cases h
    · cases h
      rw [List.filter_map]
      refine congrArg (List.map IngestOrder.noteId) (List.filter_congr fun o ho => ?_)
      -- the ids that were inserted are those without a row
      have hinserted := (Database.insertOrders_spec db.orders orders).1 o.noteId
      rw [Function.comp_apply, decide_eq_decide]
      show o.noteId ∈ (Database.insertOrders db.orders orders).1 ↔ _
      rw [hinserted]
      exact and_iff_right (List.mem_map_of_mem ho)

theorem insertOrdersOnce_of_inserts {i : IngestInputs Note} {sync : SyncResult Note}
    (h : i.Inserts api sync) (db : Database) :
    ∃ result, insertOrdersOnce db (ingestOrders api sync.newNotes) sync.blockNum i.insertError =
      .ok result := by
  unfold insertOrdersOnce
  split
  · exact ⟨_, rfl⟩
  · rename_i hne
    rw [h.2.resolve_left hne]
    exact ⟨_, rfl⟩

theorem insertOrdersOnce_of_not_inserts {i : IngestInputs Note} {sync : SyncResult Note}
    (hmarks : i.Marks sync) (h : ¬ i.Inserts api sync) (db : Database) :
    ∃ e, insertOrdersOnce db (ingestOrders api sync.newNotes) sync.blockNum i.insertError =
      .error e := by
  have hnot : ¬ (ingestOrders api sync.newNotes = [] ∨ i.insertError = none) := fun hc =>
    h ⟨hmarks, hc⟩
  obtain ⟨hne, herror⟩ := not_or.mp hnot
  obtain ⟨e, he⟩ := Option.ne_none_iff_exists'.mp herror
  refine ⟨e, ?_⟩
  unfold insertOrdersOnce
  rw [if_neg hne, he]

/-- **What an iteration puts on the channel**: the notes it sees for the first time, as many as
get through. -/
theorem forwarded_of_inserts {i : IngestInputs Note} {sync : SyncResult Note}
    (hsync : i.sync = some sync) (h : i.Inserts api sync) :
    (ingestOnce api db i).forwarded.map IngestOrder.noteId =
      reaching (firstSeen api db sync) i.closedAfter := by
  obtain ⟨⟨orders, db'⟩, hins⟩ :=
    insertOrdersOnce_of_inserts h (db.markOrdersOnchainNullified sync.consumedNotes)
  rw [ingestOnce, hsync]
  dsimp only
  rw [markConsumed_of_marks h.1]
  dsimp only
  rw [hins]
  dsimp only
  rw [forwardOrders_ids, insertOrdersOnce_ids hins, ← firstSeen_mark sync.consumedNotes sync]
  rfl

/-- An iteration that does not get past inserting forwards nothing. -/
theorem forwarded_of_not_inserts {i : IngestInputs Note}
    (h : ∀ sync, i.sync = some sync → ¬ i.Inserts api sync) :
    (ingestOnce api db i).forwarded = [] := by
  cases hsync : i.sync with
  | none => rw [ingestOnce, hsync]
  | some sync =>
    rw [ingestOnce, hsync]
    dsimp only
    by_cases hmarks : i.Marks sync
    · obtain ⟨e, he⟩ := insertOrdersOnce_of_not_inserts hmarks (h sync hsync)
        (db.markOrdersOnchainNullified sync.consumedNotes)
      rw [markConsumed_of_marks hmarks]
      dsimp only
      rw [he]
    · obtain ⟨e, he⟩ := markConsumed_of_not_marks hmarks db
      rw [he]

/-- **An id is sent only by the iteration that inserts its row.** -/
theorem inserted_of_sends {e : StoreEvent Note} (h : N ∈ e.sends api db) :
    N ∉ db.orders ∧ N ∈ (e.apply api db).orders := by
  cases e with
  | ingest i =>
    by_cases hins : ∃ sync, i.sync = some sync ∧ i.Inserts api sync
    · obtain ⟨sync, hsync, hins⟩ := hins
      rw [StoreEvent.sends, forwarded_of_inserts hsync hins] at h
      obtain ⟨hmem, hnew⟩ := List.mem_filter.mp ((reaching_sublist _ _).subset h)
      exact ⟨of_decide_eq_true hnew, (mem_ingestOnce hsync).mpr (Or.inr ⟨hins, hmem⟩)⟩
    · have hnone : (ingestOnce api db i).forwarded = [] :=
        forwarded_of_not_inserts fun sync hsync hc => hins ⟨sync, hsync, hc⟩
      rw [StoreEvent.sends, hnone] at h
      exact absurd h List.not_mem_nil
  | updateStatus _ _ => exact absurd h List.not_mem_nil
  | markNullified _ => exact absurd h List.not_mem_nil
  | restart => exact absurd h List.not_mem_nil

/-- No event deletes a row. -/
theorem mem_apply {e : StoreEvent Note} (h : N ∈ db.orders) : N ∈ (e.apply api db).orders := by
  cases e with
  | ingest i => exact mem_ingestOnce_of_mem h
  | updateStatus _ _ => exact Database.mem_updateWhere.mpr h
  | markNullified _ => exact Database.mem_updateWhere.mpr h
  | restart => exact Database.mem_updateWhere.mpr h

/-- An event sends no id twice iff it meets the condition. -/
theorem sends_nodup_iff {e : StoreEvent Note} : (e.sends api db).Nodup ↔ e.ListsOnce api db := by
  cases e with
  | ingest i =>
    by_cases hins : ∃ sync, i.sync = some sync ∧ i.Inserts api sync
    · obtain ⟨sync, hsync, hins⟩ := hins
      rw [StoreEvent.sends, forwarded_of_inserts hsync hins]
      constructor
      · intro h sync' hsync' _
        cases hsync.symm.trans hsync'
        exact h
      · exact fun h => h sync hsync hins
    · have hnot : ∀ sync, i.sync = some sync → ¬ i.Inserts api sync :=
        fun sync hsync hc => hins ⟨sync, hsync, hc⟩
      rw [StoreEvent.sends, forwarded_of_not_inserts hnot]
      exact iff_of_true List.nodup_nil fun sync hsync hc => absurd hc (hnot sync hsync)
  | updateStatus _ _ => exact iff_of_true List.nodup_nil trivial
  | markNullified _ => exact iff_of_true List.nodup_nil trivial
  | restart => exact iff_of_true List.nodup_nil trivial

end Event

/-- **Each note is forwarded once, if no iteration lists it twice.**  For every sequence of
iterations on any sync results, with any failures, any writes of other tasks and any restarts
in between, from any database: the ids that ingest has put on the matcher's channel are all
distinct iff every iteration meets the condition.  In any case an id is sent only in an
iteration before which it has no row and after which it has one, and never again. -/
theorem forwarded_once_iff (api : NoteApi Note) (db₀ : Database)
    {history : List (Database × StoreEvent Note)} {db : Database}
    (hrun : Run (StoreStep api) unguarded db₀ history db) :
    ((sentByIngest api history).Nodup ↔ ∀ x ∈ history, x.2.ListsOnce api x.1) ∧
    (∀ x ∈ history, ∀ N ∈ x.2.sends api x.1, N ∉ x.1.orders ∧ N ∈ (x.2.apply api x.1).orders) ∧
    history.Pairwise fun x y => ∀ N ∈ x.2.sends api x.1, N ∉ y.2.sends api y.1 := by
  have hinv : (∀ N ∈ sentByIngest api history, N ∈ db.orders) ∧
      ((sentByIngest api history).Nodup ↔ ∀ x ∈ history, x.2.ListsOnce api x.1) ∧
      history.Pairwise fun x y => ∀ N ∈ x.2.sends api x.1, N ∉ y.2.sends api y.1 := by
    refine hrun.invariant (P := fun history db =>
      (∀ N ∈ sentByIngest api history, N ∈ db.orders) ∧
      ((sentByIngest api history).Nodup ↔ ∀ x ∈ history, x.2.ListsOnce api x.1) ∧
      history.Pairwise fun x y => ∀ N ∈ x.2.sends api x.1, N ∉ y.2.sends api y.1)
      ⟨fun _ h => absurd h List.not_mem_nil, ?_, List.Pairwise.nil⟩ ?_
    · exact iff_of_true List.nodup_nil fun _ h => absurd h List.not_mem_nil
    · rintro history db e _ ⟨hrows, hnodup, hpairs⟩ - rfl
      have hsent : sentByIngest api (history ++ [(db, e)]) =
          sentByIngest api history ++ e.sends api db := by
        simp [sentByIngest]
      -- what was sent before has a row by now, and what is sent now has none
      have hapart : ∀ N ∈ sentByIngest api history, N ∉ e.sends api db := fun N hN hc =>
        (inserted_of_sends hc).1 (hrows N hN)
      refine ⟨fun N hN => ?_, ?_, ?_⟩
      · rw [hsent] at hN
        rcases List.mem_append.mp hN with hold | hnew
        · exact mem_apply (hrows N hold)
        · exact (inserted_of_sends hnew).2
      · rw [hsent, List.nodup_append, hnodup, sends_nodup_iff, List.forall_mem_append,
          List.forall_mem_singleton]
        constructor
        · rintro ⟨hold, hnew, -⟩
          exact ⟨hold, hnew⟩
        · rintro ⟨hold, hnew⟩
          refine ⟨hold, hnew, ?_⟩
          rintro N hN _ hN' rfl
          exact hapart N hN hN'
      · refine List.pairwise_append.mpr ⟨hpairs, List.pairwise_singleton _ _, ?_⟩
        intro x hx y hy N hN
        rw [List.mem_singleton.mp hy]
        exact hapart N (List.mem_flatMap.mpr ⟨x, hx, hN⟩)
  exact ⟨hinv.2.1, fun x _ N hN => inserted_of_sends hN, hinv.2.2⟩

/-! ### A note that is listed twice -/

/-- **A repeated note is forwarded twice**, in the one iteration that inserts its row. -/
theorem repeated_note_sent_twice :
    ∃ history db, Run (StoreStep exactApi) unguarded emptyDb history db ∧
      history = [(emptyDb, .ingest (calm 1 [noteOne, noteOne] []))] ∧
      sentByIngest exactApi history = [1, 1] := by
  have hrun : Run (StoreStep exactApi) unguarded emptyDb _ _ :=
    Run.single (l := .ingest (calm 1 [noteOne, noteOne] [])) rfl
  exact ⟨_, _, hrun, rfl, by decide⟩

/-- Listed once in each of two syncs, with a restart in between, it is forwarded once. -/
theorem forwarded_once_relisted :
    ∃ history db, Run (StoreStep exactApi) unguarded emptyDb history db ∧
      history.map Prod.snd =
        [.ingest (calm 1 [noteOne] []), .restart, .ingest (calm 2 [noteOne] [])] ∧
      1 ∈ sentByIngest exactApi history ∧ (sentByIngest exactApi history).Nodup := by
  have h₁ : Run (StoreStep exactApi) unguarded emptyDb _ _ :=
    Run.single (l := .ingest (calm 1 [noteOne] [])) rfl
  have h₂ := h₁.step (l := .restart) trivial rfl
  have h₃ := h₂.step (l := .ingest (calm 2 [noteOne] [])) trivial rfl
  refine ⟨_, _, h₃, rfl, by decide, (forwarded_once_iff exactApi emptyDb h₃).1.mpr ?_⟩
  simp only [List.nil_append, List.cons_append, List.forall_mem_cons]
  refine ⟨sends_nodup_iff.mp ?_, trivial, sends_nodup_iff.mp ?_, nofun⟩
  · decide
  · decide

end PswapSolver
