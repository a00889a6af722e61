import PswapSolver.Notes

/-! # The database

The model of the tables and queries of `db/db.rs` that the pipeline uses.  An order's row
is kept under its note id, next to the raw bytes of the note; of a row only the terms and
the status are read.  Every status update is one `UPDATE .. SET status .. WHERE ..`
(`updateWhere`), and the queries differ in their filter: only
`mark_orders_onchain_nullified` looks at the status it overwrites.
-/
namespace PswapSolver

/-- Order lifecycle status. -/
inductive OrderStatus where
  | active
  | settling
  | executed
  | onchainNullified
deriving DecidableEq

/-- A row of the orders table. -/
structure OrderRow where
  terms : OrderTerms
  status : OrderStatus
deriving DecidableEq

/-- The database. -/
structure Database where
  orders : FiniteMap OrderId OrderRow
  notes : FiniteMap OrderId Bytes
  lastFetchedBlock : Nat

namespace Database
variable (db : Database)

/-- `INSERT OR IGNORE` -/
def insertOrIgnore {β : Type} (table : FiniteMap OrderId β) (id : OrderId) (row : β) :
    FiniteMap OrderId β :=
  if id ∈ table then table else table.insert id row

/-- Inserts the order rows one by one; returns the ids that were not there before. -/
def insertOrders (orders : FiniteMap OrderId OrderRow) :
    List IngestOrder → Finset OrderId × FiniteMap OrderId OrderRow
  | [] => (∅, orders)
  | order :: rest =>
    let (inserted, table) :=
      insertOrders (insertOrIgnore orders order.noteId ⟨order.terms, .active⟩) rest
    (if order.noteId ∈ orders then inserted else insert order.noteId inserted, table)

/-- Atomic batch insert: notes, orders and block cursor.  Returns the orders that were
actually inserted. -/
def insertNotesBatch (batch : List IngestOrder) (blockNumber : Nat) : Finset OrderId × Database :=
  let (inserted, orders) := insertOrders db.orders batch
  (inserted,
    { orders := orders
      notes := batch.foldl (fun table o => insertOrIgnore table o.noteId o.rawNoteData) db.notes
      lastFetchedBlock := blockNumber })

/-- Sets the status of the rows that pass the filter. -/
def updateWhere (filter : OrderId → OrderStatus → Bool) (status : OrderStatus) : Database :=
  { db with
    orders := db.orders.mapWithKey fun id row =>
      if filter id row.status then { row with status := status } else row }

/-- Updates the status of a batch of orders, whatever it was. -/
def updateOrdersStatus (noteIds : List OrderId) (newStatus : OrderStatus) : Database :=
  db.updateWhere (fun id _ => decide (id ∈ noteIds)) newStatus

/-- Marks orders as nullified; a row that is already terminal is left alone. -/
def markOrdersOnchainNullified (noteIds : List OrderId) : Database :=
  db.updateWhere (fun id status => decide (id ∈ noteIds) &&
    (decide (status = .active) || decide (status = .settling))) .onchainNullified

/-- Boot-time recovery. -/
def resetAllSettlingToActive : Database :=
  db.updateWhere (fun _ status => decide (status = .settling)) .active

/-- The status of an order, if it has a row. -/
def statusOf (id : OrderId) : Option OrderStatus := (db.orders.lookup id).map OrderRow.status

/-- `loaded` lists the active orders with their raw bytes, in some order. -/
structure LoadsActive (loaded : List IngestOrder) : Prop where
  nodup : (loaded.map IngestOrder.noteId).Nodup
  mem : ∀ o, o ∈ loaded ↔ db.orders.lookup o.noteId = some ⟨o.terms, .active⟩ ∧
    db.notes.lookup o.noteId = some o.rawNoteData

/-! ## Status of a row under each query -/

section Status
variable {db} {id : OrderId} {ids : List OrderId}

theorem statusOf_isSome : (db.statusOf id).isSome = true ↔ id ∈ db.orders := by
  rw [statusOf, Option.isSome_map, Finmap.lookup_isSome]

theorem statusOf_updateWhere (filter : OrderId → OrderStatus → Bool) (status : OrderStatus) :
    (db.updateWhere filter status).statusOf id =
      (db.statusOf id).map fun s => if filter id s then status else s := by
  rw [statusOf, updateWhere, FiniteMap.lookup_mapWithKey, statusOf, Option.map_map, Option.map_map]
  congr 1
  funext row
  dsimp only [Function.comp]
  split <;> rfl

@[simp] theorem mem_updateWhere {filter : OrderId → OrderStatus → Bool} {status : OrderStatus} :
    id ∈ (db.updateWhere filter status).orders ↔ id ∈ db.orders := by
  rw [← statusOf_isSome, ← statusOf_isSome, statusOf_updateWhere, Option.isSome_map]

/-- A filter that no row passes leaves the table as it is. -/
theorem updateWhere_of_none {filter : OrderId → OrderStatus → Bool}
    (h : ∀ id status, filter id status = false) (status : OrderStatus) :
    db.updateWhere filter status = db := by
  have horders : (db.updateWhere filter status).orders = db.orders := Finmap.ext_lookup fun id => by
    simp [updateWhere, FiniteMap.lookup_mapWithKey, h]
  exact congrArg (fun orders => { db with orders := orders }) horders

@[simp] theorem updateOrdersStatus_nil (status : OrderStatus) :
    db.updateOrdersStatus [] status = db :=
  updateWhere_of_none (by simp) status

@[simp] theorem markOrdersOnchainNullified_nil : db.markOrdersOnchainNullified [] = db :=
  updateWhere_of_none (by simp) _

@[simp] theorem statusOf_updateOrdersStatus (status : OrderStatus) :
    (db.updateOrdersStatus ids status).statusOf id =
      (db.statusOf id).map fun s => if id ∈ ids then status else s := by
  simp [updateOrdersStatus, statusOf_updateWhere]

@[simp] theorem statusOf_markOrdersOnchainNullified :
    (db.markOrdersOnchainNullified ids).statusOf id =
      (db.statusOf id).map fun s =>
        if id ∈ ids ∧ (s = .active ∨ s = .settling) then .onchainNullified else s := by
  simp [markOrdersOnchainNullified, statusOf_updateWhere]

@[simp] theorem statusOf_resetAllSettlingToActive :
    db.resetAllSettlingToActive.statusOf id =
      (db.statusOf id).map fun s => if s = .settling then .active else s := by
  simp [resetAllSettlingToActive, statusOf_updateWhere]

theorem mem_insertOrIgnore {β : Type} {table : FiniteMap OrderId β} {i : OrderId} {row : β} :
    i ∈ insertOrIgnore table id row ↔ i = id ∨ i ∈ table := by
  unfold insertOrIgnore
  split
  · rename_i h
    refine ⟨Or.inr, ?_⟩
    rintro (rfl | hi)
    · exact h
    · exact hi
  · exact Finmap.mem_insert

theorem lookup_insertOrIgnore_of_mem {β : Type} {table : FiniteMap OrderId β} {i : OrderId}
    {row : β} (h : i ∈ table) : (insertOrIgnore table id row).lookup i = table.lookup i := by
  unfold insertOrIgnore
  split
  · rfl
  · rename_i hid
    refine Finmap.lookup_insert_of_ne _ ?_
    rintro rfl
    exact hid h

/-- **What a batch insert returns**: the listed ids that had no row. -/
theorem insertOrders_spec (orders : FiniteMap OrderId OrderRow) (batch : List IngestOrder) :
    (∀ i, i ∈ (insertOrders orders batch).1 ↔
      i ∈ batch.map IngestOrder.noteId ∧ i ∉ orders) ∧
    (∀ i, i ∈ orders → (insertOrders orders batch).2.lookup i = orders.lookup i) ∧
    (∀ i, i ∈ (insertOrders orders batch).2 ↔ i ∈ batch.map IngestOrder.noteId ∨ i ∈ orders) ∧
    ∀ i row, i ∉ orders → (insertOrders orders batch).2.lookup i = some row →
      row.status = .active := by
  induction batch generalizing orders with
  | nil =>
    refine ⟨by simp [insertOrders], fun _ _ => rfl, by simp [insertOrders], fun i row hi h => ?_⟩
    exact absurd (FiniteMap.mem_of_lookup h) hi
  | cons o batch ih =>
    obtain ⟨hins, hkeep, hmem, hnew⟩ := ih (insertOrIgnore orders o.noteId ⟨o.terms, .active⟩)
    rw [insertOrders]
    refine ⟨fun i => ?_, fun i hi => ?_, fun i => ?_, fun i row hi h => ?_⟩
    · simp only [List.map_cons, List.mem_cons]
      have := hins i
      rw [mem_insertOrIgnore] at this
      split
      · rename_i ho
        grind
      · rename_i ho
        rw [Finset.mem_insert]
        grind
    · rw [← lookup_insertOrIgnore_of_mem hi]
      exact hkeep i (mem_insertOrIgnore.mpr (Or.inr hi))
    · simp only [List.map_cons, List.mem_cons]
      rw [hmem, mem_insertOrIgnore]
      tauto
    · by_cases hio : i = o.noteId
      · subst hio
        have hl : (insertOrIgnore orders o.noteId ⟨o.terms, .active⟩).lookup o.noteId =
            some ⟨o.terms, .active⟩ := by
          rw [insertOrIgnore, if_neg hi, Finmap.lookup_insert]
        have hkept := hkeep o.noteId (FiniteMap.mem_of_lookup hl)
        rw [hl] at hkept
        cases hkept.symm.trans h
        rfl
      · refine hnew i row (fun hc => ?_) h
        exact (mem_insertOrIgnore.mp hc).elim hio hi

end Status

end Database

end PswapSolver
