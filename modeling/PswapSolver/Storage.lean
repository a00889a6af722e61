import PswapSolver.Codec
import PswapSolver.Recovery
import PswapSolver.Tables

/-! # The stored rows

The model of the SQLite layer of `db/db.rs`, down to the rows: ids and faucets are blobs, amounts
are signed integers of 64 bits, and the status is a text under a CHECK constraint that the last
migration of the table widens.  An order is stored by `ingest_once` and read back, after a restart,
by `load_active_orders_with_notes`, which decodes a row or fails.

The rest of the development has the database as maps from note ids to terms and bytes.
`storage_refines` says that this is right: over every run of the pipeline, on an upgraded or on a
new file, each statement of the run succeeds on the rows and does what the maps do, and what is
loaded in the end is what was ingested.
-/
namespace PswapSolver
open Codecs Runs Tables

/-- `OrderStatus::as_str` -/
def OrderStatus.asStr : OrderStatus → String
  | .active => "active"
  | .settling => "settling"
  | .executed => "executed"
  | .onchainNullified => "onchain_nullified"

theorem OrderStatus.asStr_inj {s s' : OrderStatus} : s.asStr = s'.asStr ↔ s = s' := by
  cases s <;> cases s' <;> decide

/-- `amount as i64` -/
def toI64 (amount : Nat) : Int64 := (UInt64.ofNat amount).toInt64

/-- `amount as u64` -/
def ofI64 (amount : Int64) : Nat := amount.toUInt64.toNat

/-- **An amount is read back**, even one that is stored as a negative number. -/
theorem ofI64_toI64 {amount : Nat} (h : amount < 2 ^ 64) : ofI64 (toI64 amount) = amount := by
  rw [ofI64, toI64, UInt64.toUInt64_toInt64]
  exact UInt64.toNat_ofNat_of_lt' h

namespace Sql

/-! ## The tables -/

structure NoteRow where
  noteId : Bytes
  accountId : Bytes
  rawData : Bytes

structure OrderRow where
  noteId : Bytes
  accountId : Bytes
  requestedAsset : Bytes
  requestedAmount : Int64
  offeredAsset : Bytes
  offeredAmount : Int64
  timestamp : Int64
  status : String

def OrderRow.withStatus (status : OrderStatus) (row : OrderRow) : OrderRow :=
  { row with status := status.asStr }

def notesSchema : Schema NoteRow Bytes := ⟨NoteRow.noteId, fun _ => true⟩

/-- The table of migration 3. -/
def oldOrdersSchema : Schema OrderRow Bytes :=
  ⟨OrderRow.noteId, fun row => decide (row.status ∈ ["active", "settling", "executed"])⟩

/-- The table of migration 7. -/
def ordersSchema : Schema OrderRow Bytes :=
  ⟨OrderRow.noteId, fun row =>
    decide (row.status ∈ ["active", "settling", "executed", "onchain_nullified"])⟩

/-- The file before migration 7. -/
structure OldStore where
  orders : Table oldOrdersSchema
  notes : Table notesSchema
  lastFetchedBlock : Int64

/-- The file. -/
structure Store where
  orders : Table ordersSchema
  notes : Table notesSchema
  lastFetchedBlock : Int64

/-- A new file, up to migration 7. -/
def OldStore.new : OldStore := ⟨Table.empty _, Table.empty _, 0⟩

/-- Migration 7: the rows are copied to a table with the wider constraint. -/
def OldStore.migrate (old : OldStore) : Option Store :=
  ((Table.empty ordersSchema).insertAll old.orders.rows).map fun orders =>
    ⟨orders, old.notes, old.lastFetchedBlock⟩

/-! ## The statements -/

namespace Store
variable (store : Store)

/-- The second loop of `insert_notes_batch`: the ids of the rows that were inserted. -/
def insertOrders (orders : Table ordersSchema) : List OrderRow → List Bytes × Table ordersSchema
  | [] => ([], orders)
  | order :: rest =>
    let (affected, orders) := orders.insertOrIgnore order
    let (inserted, orders) := insertOrders orders rest
    (if affected then order.noteId :: inserted else inserted, orders)

def insertNotesBatch (newNotes : List NoteRow) (newOrders : List OrderRow) (blockNumber : Nat) :
    List Bytes × Store :=
  let notes := newNotes.foldl (fun table note => (table.insertOrIgnore note).2) store.notes
  let (inserted, orders) := insertOrders store.orders newOrders
  (inserted, ⟨orders, notes, toI64 blockNumber⟩)

/-- `UPDATE orders SET status = .. WHERE ..`, with the number of rows. -/
def updateStatus (filter : OrderRow → Bool) (status : OrderStatus) : Option (Nat × Store) :=
  (store.orders.update filter (OrderRow.withStatus status) fun _ => rfl).map
    fun (count, orders) => (count, { store with orders := orders })

def updateOrdersStatus (noteIds : List Bytes) (newStatus : OrderStatus) : Option (Nat × Store) :=
  store.updateStatus (fun row => decide (row.noteId ∈ noteIds)) newStatus

def markOrdersOnchainNullified (noteIds : List Bytes) : Option (Nat × Store) :=
  store.updateStatus (fun row => decide (row.noteId ∈ noteIds) &&
    decide (row.status ∈ [OrderStatus.active.asStr, OrderStatus.settling.asStr])) .onchainNullified

def resetAllSettlingToActive : Option (Nat × Store) :=
  store.updateStatus (fun row => decide (row.status = OrderStatus.settling.asStr)) .active

end Store

/-! ## Rows and orders -/

/-- The codecs of the ids, which are not part of the repository. -/
structure IdCodecs (ε : Type) where
  orderId : Codec ε OrderId
  tokenId : Codec ε TokenId

/-- An order as it is loaded: `IngestOrder`, with amounts that nobody has checked. -/
structure RawOrder where
  noteId : OrderId
  offeredToken : TokenId
  requestedToken : TokenId
  offeredAmount : Nat
  requestedAmount : Nat
  rawNoteData : Bytes
deriving DecidableEq

def RawOrder.of (o : IngestOrder) : RawOrder :=
  ⟨o.noteId, o.terms.offeredToken, o.terms.requestedToken, o.terms.offered, o.terms.requested,
    o.rawNoteData⟩

/-- Why an order cannot be loaded: what is invalid in the row. -/
inductive LoadError (ε : Type) where
  | noteId (error : ε)
  | offeredAsset (error : ε)
  | requestedAsset (error : ε)

section Rows
variable {ε : Type} (c : IdCodecs ε)

/-- `read_from`, on a whole blob. -/
def readFrom {α : Type} (codec : Codec ε α) (invalid : ε → LoadError ε) (blob : Bytes) :
    Except (LoadError ε) α :=
  (readAll codec.read blob).mapError invalid

theorem readFrom_write {α : Type} (codec : Codec ε α) (invalid : ε → LoadError ε) (x : α) :
    readFrom codec invalid (codec.write x) = .ok x := by
  rw [readFrom, codec.readAll_write]
  rfl

/-- The row of a note, with the creator's account. -/
def noteRow (account : Bytes) (o : IngestOrder) : NoteRow :=
  ⟨c.orderId.write o.noteId, account, o.rawNoteData⟩

/-- The row of an order, with the creator's account and the time. -/
def orderRow (account : Bytes) (timestamp : Int64) (o : IngestOrder) : OrderRow where
  noteId := c.orderId.write o.noteId
  accountId := account
  requestedAsset := c.tokenId.write o.terms.requestedToken
  requestedAmount := toI64 o.terms.requested
  offeredAsset := c.tokenId.write o.terms.offeredToken
  offeredAmount := toI64 o.terms.offered
  timestamp := timestamp
  status := OrderStatus.active.asStr

/-- A joined row is decoded. -/
def decodeRow (pair : OrderRow × NoteRow) : Except (LoadError ε) RawOrder := do
  let noteId ← readFrom c.orderId .noteId pair.1.noteId
  let offeredToken ← readFrom c.tokenId .offeredAsset pair.1.offeredAsset
  let requestedToken ← readFrom c.tokenId .requestedAsset pair.1.requestedAsset
  return ⟨noteId, offeredToken, requestedToken, ofI64 pair.1.offeredAmount,
    ofI64 pair.1.requestedAmount, pair.2.rawData⟩

/-- The active orders, joined with their notes. -/
def Store.activeRows (store : Store) : List (OrderRow × NoteRow) :=
  (store.orders.joined store.notes).filter fun pair =>
    decide (pair.1.status = OrderStatus.active.asStr)

def Store.loadActiveOrdersWithNotes (store : Store) : Except (LoadError ε) (List RawOrder) :=
  store.activeRows.mapM (decodeRow c)

/-! ## What the rows represent -/

/-- The row codes the terms and the status of an order. -/
structure Codes (row : OrderRow) (order : PswapSolver.OrderRow) : Prop where
  requestedAsset : row.requestedAsset = c.tokenId.write order.terms.requestedToken
  requestedAmount : row.requestedAmount = toI64 order.terms.requested
  offeredAsset : row.offeredAsset = c.tokenId.write order.terms.offeredToken
  offeredAmount : row.offeredAmount = toI64 order.terms.offered
  status : row.status = order.status.asStr

/-- The row codes the bytes of a note. -/
def CodesNote (row : NoteRow) (raw : Bytes) : Prop := row.rawData = raw

/-- **The rows represent the database.** -/
structure Store.Represents (store : Store) (db : Database) : Prop where
  orders : Tables.Represents c.orderId.write (Codes c) store.orders db.orders
  notes : Tables.Represents c.orderId.write CodesNote store.notes db.notes
  block : store.lastFetchedBlock = toI64 db.lastFetchedBlock

/-- So do those of an older file. -/
structure OldStore.Represents (old : OldStore) (db : Database) : Prop where
  orders : Tables.Represents c.orderId.write (Codes c) old.orders db.orders
  notes : Tables.Represents c.orderId.write CodesNote old.notes db.notes
  block : old.lastFetchedBlock = toI64 db.lastFetchedBlock

variable {c}

theorem check_of_codes {row : OrderRow} {order : PswapSolver.OrderRow} (h : Codes c row order) :
    ordersSchema.check row = true := by
  rw [ordersSchema, decide_eq_true_eq, h.status]
  cases order.status <;> decide

/-! ## Each statement does what the maps do -/

section Refine
variable {store : Store} {db : Database}

/-- **Migration 7 keeps the rows.** -/
theorem OldStore.Represents.migrate {old : OldStore} (h : old.Represents c db) :
    ∃ store, old.migrate = some store ∧ store.Represents c db := by
  have hcheck : ∀ row ∈ old.orders.rows, ordersSchema.check row = true := by
    intro row hrow
    obtain ⟨_, _, -, -, hcodes⟩ := h.orders.of_row row hrow
    exact check_of_codes hcodes
  obtain ⟨orders, hcopied, hrows⟩ :=
    Table.insertAll_rows (t := Table.empty ordersSchema) old.orders.nodup hcheck
  refine ⟨⟨orders, old.notes, old.lastFetchedBlock⟩, ?_, ?_, h.notes, h.block⟩
  · rw [OldStore.migrate, hcopied]
    rfl
  · exact h.orders.of_rows_eq rfl hrows

/-- An update of the status whose condition says the same of a row and of its entry. -/
theorem Store.Represents.updateStatus (h : store.Represents c db) {filter : OrderRow → Bool}
    {filter' : OrderId → OrderStatus → Bool} (status : OrderStatus)
    (hfilter : ∀ row N order, row.noteId = c.orderId.write N → Codes c row order →
      filter row = filter' N order.status) :
    ∃ count store', store.updateStatus filter status = some (count, store') ∧
      store'.Represents c (db.updateWhere filter' status) := by
  have hset : ∀ row N order, row.noteId = c.orderId.write N → Codes c row order →
      ordersSchema.check (Table.rewrite filter (OrderRow.withStatus status) row) = true ∧
      Codes c (Table.rewrite filter (OrderRow.withStatus status) row)
        (if filter' N order.status then { order with status := status } else order) := by
    intro row N order hkey hcodes
    have hnew : Codes c (Table.rewrite filter (OrderRow.withStatus status) row)
        (if filter' N order.status then { order with status := status } else order) := by
      rw [Table.rewrite, hfilter row N order hkey hcodes]
      split
      · exact ⟨hcodes.requestedAsset, hcodes.requestedAmount, hcodes.offeredAsset,
          hcodes.offeredAmount, rfl⟩
      · exact hcodes
    exact ⟨check_of_codes hnew, hnew⟩
  have hkey : ∀ row, ordersSchema.key (OrderRow.withStatus status row) = ordersSchema.key row :=
    fun _ => rfl
  obtain ⟨count, orders, hupdate, hrep⟩ := h.orders.update hkey hset
  refine ⟨count, { store with orders := orders }, ?_, hrep, h.notes, h.block⟩
  rw [Store.updateStatus, hupdate]
  rfl

theorem mem_map_write (N : OrderId) (ids : List OrderId) :
    c.orderId.write N ∈ ids.map c.orderId.write ↔ N ∈ ids :=
  List.mem_map_of_injective c.orderId.write_injective

theorem Store.Represents.updateOrdersStatus (h : store.Represents c db) (ids : List OrderId)
    (status : OrderStatus) :
    ∃ count store', store.updateOrdersStatus (ids.map c.orderId.write) status =
      some (count, store') ∧ store'.Represents c (db.updateOrdersStatus ids status) := by
  refine h.updateStatus status fun row N order hkey _ => ?_
  rw [hkey, decide_eq_decide]
  exact mem_map_write N ids

theorem Store.Represents.markOrdersOnchainNullified (h : store.Represents c db)
    (ids : List OrderId) :
    ∃ count store', store.markOrdersOnchainNullified (ids.map c.orderId.write) =
      some (count, store') ∧ store'.Represents c (db.markOrdersOnchainNullified ids) := by
  refine h.updateStatus .onchainNullified fun row N order hkey hcodes => ?_
  have hstatus : row.status ∈ [OrderStatus.active.asStr, OrderStatus.settling.asStr] ↔
      order.status = .active ∨ order.status = .settling := by
    simp only [List.mem_cons, List.not_mem_nil, or_false, hcodes.status, OrderStatus.asStr_inj]
  simp only [hkey, mem_map_write, hstatus, Bool.decide_or]

theorem Store.Represents.resetAllSettlingToActive (h : store.Represents c db) :
    ∃ count store', store.resetAllSettlingToActive = some (count, store') ∧
      store'.Represents c db.resetAllSettlingToActive := by
  refine h.updateStatus .active fun row N order _ hcodes => ?_
  rw [hcodes.status, decide_eq_decide]
  exact OrderStatus.asStr_inj

/-- **Order rows**: the same ones are inserted. -/
theorem insertOrders_represents {orders : Table ordersSchema}
    {table : FiniteMap OrderId PswapSolver.OrderRow}
    (h : Tables.Represents c.orderId.write (Codes c) orders table)
    (stamp : IngestOrder → Bytes × Int64) (batch : List IngestOrder) :
    (∀ N, c.orderId.write N ∈ (Store.insertOrders orders
        (batch.map fun o => orderRow c (stamp o).1 (stamp o).2 o)).1 ↔
      N ∈ (Database.insertOrders table batch).1) ∧
    Tables.Represents c.orderId.write (Codes c)
      (Store.insertOrders orders (batch.map fun o => orderRow c (stamp o).1 (stamp o).2 o)).2
      (Database.insertOrders table batch).2 := by
  induction batch generalizing orders table with
  | nil => exact ⟨fun N => by simp [Store.insertOrders, Database.insertOrders], h⟩
  | cons o batch ih =>
    have hcodes : Codes c (orderRow c (stamp o).1 (stamp o).2 o) ⟨o.terms, .active⟩ :=
      ⟨rfl, rfl, rfl, rfl, rfl⟩
    have hkey : ordersSchema.key (orderRow c (stamp o).1 (stamp o).2 o) =
        c.orderId.write o.noteId := rfl
    obtain ⟨haffected, hrow⟩ := h.insertOrIgnore c.orderId.write_injective hkey hcodes
      (check_of_codes hcodes)
    obtain ⟨hinserted, hrest⟩ := ih hrow
    rw [List.map_cons, Store.insertOrders, Database.insertOrders]
    refine ⟨fun N => ?_, hrest⟩
    by_cases hold : o.noteId ∈ table
    · have hnot : (orders.insertOrIgnore (orderRow c (stamp o).1 (stamp o).2 o)).1 = false := by
        rw [← Bool.not_eq_true, haffected]
        exact fun hnew => hnew hold
      simp only [hnot, hold, if_true]
      exact hinserted N
    · have hyes : (orders.insertOrIgnore (orderRow c (stamp o).1 (stamp o).2 o)).1 = true :=
        haffected.mpr hold
      simp only [hyes, hold, if_true, if_false, List.mem_cons, Finset.mem_insert]
      exact or_congr c.orderId.write_injective.eq_iff (hinserted N)

theorem insertNotes_represents {notes : Table notesSchema} {table : FiniteMap OrderId Bytes}
    (h : Tables.Represents c.orderId.write CodesNote notes table)
    (stamp : IngestOrder → Bytes × Int64) (batch : List IngestOrder) :
    Tables.Represents c.orderId.write CodesNote
      ((batch.map fun o => noteRow c (stamp o).1 o).foldl
        (fun table note => (table.insertOrIgnore note).2) notes)
      (batch.foldl (fun table o => Database.insertOrIgnore table o.noteId o.rawNoteData)
        table) := by
  induction batch generalizing notes table with
  | nil => exact h
  | cons o batch ih =>
    have hkey : notesSchema.key (noteRow c (stamp o).1 o) = c.orderId.write o.noteId := rfl
    exact ih (h.insertOrIgnore c.orderId.write_injective hkey rfl rfl).2

/-- **A batch of new orders**: the same ids are reported, and the rows represent the result. -/
theorem Store.Represents.insertNotesBatch (h : store.Represents c db)
    (stamp : IngestOrder → Bytes × Int64) (batch : List IngestOrder) (block : Nat) :
    (∀ N, c.orderId.write N ∈ (store.insertNotesBatch (batch.map fun o => noteRow c (stamp o).1 o)
        (batch.map fun o => orderRow c (stamp o).1 (stamp o).2 o) block).1 ↔
      N ∈ (db.insertNotesBatch batch block).1) ∧
    (store.insertNotesBatch (batch.map fun o => noteRow c (stamp o).1 o)
        (batch.map fun o => orderRow c (stamp o).1 (stamp o).2 o) block).2.Represents c
      (db.insertNotesBatch batch block).2 := by
  obtain ⟨hinserted, horders⟩ := insertOrders_represents h.orders stamp batch
  exact ⟨hinserted, horders, insertNotes_represents h.notes stamp batch, rfl⟩

/-! ## Loading -/

/-- **A loop in which no element fails**: the results belong to the elements, one to one. -/
theorem mapM_ok {α β γ δ κ : Type} {f : α → Except δ γ} {g : β → γ} {P : α → β → Prop}
    (key : α → κ) (key' : β → κ) (hkey : ∀ x y, P x y → key x = key' y) {l : List α}
    (h : ∀ x ∈ l, ∃ y, f x = .ok (g y) ∧ P x y) :
    ∃ ys : List β, l.mapM f = .ok (ys.map g) ∧ (∀ y ∈ ys, ∃ x ∈ l, P x y) ∧
      (∀ x ∈ l, ∃ y ∈ ys, P x y) ∧ l.map key = ys.map key' := by
  induction l with
  | nil => exact ⟨[], rfl, by simp, by simp, rfl⟩
  | cons x l ih =>
    obtain ⟨y, hy, hP⟩ := h x (List.mem_cons_self ..)
    obtain ⟨ys, hys, hback, hforth, hkeys⟩ := ih fun x' hx' => h x' (List.mem_cons_of_mem _ hx')
    refine ⟨y :: ys, ?_, ?_, ?_, ?_⟩
    · rw [List.mapM_cons, hy, hys]
      rfl
    · intro y' hy'
      rcases List.mem_cons.mp hy' with rfl | hrest
      · exact ⟨x, List.mem_cons_self .., hP⟩
      · obtain ⟨x', hx', hP'⟩ := hback y' hrest
        exact ⟨x', List.mem_cons_of_mem _ hx', hP'⟩
    · intro x' hx'
      rcases List.mem_cons.mp hx' with rfl | hrest
      · exact ⟨y, List.mem_cons_self .., hP⟩
      · obtain ⟨y', hy', hP'⟩ := hforth x' hrest
        exact ⟨y', List.mem_cons_of_mem _ hy', hP'⟩
    · rw [List.map_cons, List.map_cons, hkeys, hkey x y hP]

/-- An active order of the database, under a joined row. -/
structure Loads (c : IdCodecs ε) (db : Database) (pair : OrderRow × NoteRow) (o : IngestOrder) :
    Prop where
  key : pair.1.noteId = c.orderId.write o.noteId
  order : db.orders.lookup o.noteId = some ⟨o.terms, .active⟩
  note : db.notes.lookup o.noteId = some o.rawNoteData

/-- **A joined row is decoded to what was stored.** -/
theorem decodeRow_ok {pair : OrderRow × NoteRow} {N : OrderId} {order : PswapSolver.OrderRow}
    (hkey : pair.1.noteId = c.orderId.write N) (hcodes : Codes c pair.1 order) :
    decodeRow c pair = .ok (RawOrder.of ⟨N, order.terms, pair.2.rawData⟩) := by
  rw [decodeRow, hkey, hcodes.offeredAsset, hcodes.requestedAsset, readFrom_write, readFrom_write,
    readFrom_write, hcodes.offeredAmount, hcodes.requestedAmount,
    ofI64_toI64 order.terms.offered_lt, ofI64_toI64 order.terms.requested_lt]
  rfl

/-- **What is loaded** are the active orders of the database, and no row fails. -/
theorem Store.Represents.load (h : store.Represents c db) :
    ∃ loaded, store.loadActiveOrdersWithNotes c = .ok (loaded.map RawOrder.of) ∧
      db.LoadsActive loaded := by
  have hinj := c.orderId.write_injective
  obtain ⟨hlisted, hfound⟩ := h.orders.joined h.notes hinj
  have hactive : ∀ pair, pair ∈ store.activeRows ↔ pair ∈ store.orders.joined store.notes ∧
      pair.1.status = OrderStatus.active.asStr := by
    intro pair
    rw [Store.activeRows, List.mem_filter, decide_eq_true_eq]
  have hdecode : ∀ pair ∈ store.activeRows, ∃ o, decodeRow c pair = .ok (RawOrder.of o) ∧
      Loads c db pair o := by
    intro pair hpair
    obtain ⟨hjoined, hstatus⟩ := (hactive pair).mp hpair
    obtain ⟨N, ⟨terms, status⟩, raw, hkey, horder, hnote, hcodes, rfl⟩ := hlisted pair hjoined
    obtain rfl : status = .active := OrderStatus.asStr_inj.mp (hcodes.status.symm.trans hstatus)
    exact ⟨⟨N, terms, pair.2.rawData⟩, decodeRow_ok hkey hcodes, hkey, horder, hnote⟩
  obtain ⟨loaded, hload, hback, hforth, hkeys⟩ :=
    mapM_ok (fun pair => pair.1.noteId) (c.orderId.write ∘ IngestOrder.noteId)
      (fun _ _ hpair => hpair.key) hdecode
  refine ⟨loaded, hload, ?_, fun o => ⟨fun ho => ?_, fun ⟨horder, hnote⟩ => ?_⟩⟩
  · -- the keys are distinct in the join, and so are the ids that they encode
    have hsub : store.activeRows.Sublist (store.orders.joined store.notes) := List.filter_sublist
    have hdistinct : (store.activeRows.map fun pair => pair.1.noteId).Nodup :=
      (hsub.map _).nodup (Table.nodup_joined store.orders store.notes)
    rw [hkeys, ← List.map_map] at hdistinct
    exact List.Nodup.of_map _ hdistinct
  · obtain ⟨pair, -, hpair⟩ := hback o ho
    exact ⟨hpair.order, hpair.note⟩
  · obtain ⟨pair, hpair, hkey, hcodes, -⟩ := hfound o.noteId _ _ horder hnote
    obtain ⟨o', ho', hpair'⟩ := hforth pair ((hactive pair).mpr ⟨hpair, hcodes.status⟩)
    -- an order with the same id is the same order
    have hid : o'.noteId = o.noteId := hinj (hpair'.key.symm.trans hkey)
    have horder' := hpair'.order
    have hnote' := hpair'.note
    rw [hid, horder] at horder'
    rw [hid, hnote] at hnote'
    obtain ⟨N, terms, raw⟩ := o'
    cases hid
    cases horder'
    cases hnote'
    exact ho'

end Refine

/-! ## A run -/

/-- A statement, or a transaction, of the solver. -/
inductive Statement where
  | insertNotesBatch (newNotes : List NoteRow) (newOrders : List OrderRow) (blockNumber : Nat)
  | updateOrdersStatus (noteIds : List Bytes) (newStatus : OrderStatus)
  | markOrdersOnchainNullified (noteIds : List Bytes)
  | resetAllSettlingToActive

def Store.exec (store : Store) : Statement → Option Store
  | .insertNotesBatch newNotes newOrders blockNumber =>
    some (store.insertNotesBatch newNotes newOrders blockNumber).2
  | .updateOrdersStatus noteIds newStatus =>
    (store.updateOrdersStatus noteIds newStatus).map Prod.snd
  | .markOrdersOnchainNullified noteIds => (store.markOrdersOnchainNullified noteIds).map Prod.snd
  | .resetAllSettlingToActive => store.resetAllSettlingToActive.map Prod.snd

variable {Note : Type}

/-- **What a step of the pipeline executes**, with the accounts and times that go into new rows. -/
def statements (c : IdCodecs ε) (api : NoteApi Note) (stamp : IngestOrder → Bytes × Int64)
    (p : Pipeline Note) : Option (PipelineEvent Note) → List Statement
  | some (.sync result) =>
    if result.consumedNotes = [] then []
    else [.markOrdersOnchainNullified (result.consumedNotes.map c.orderId.write)]
  | some .insert =>
    match p.ingest with
    | .reporting result _ =>
      let batch := ingestOrders api result.newNotes
      [.insertNotesBatch (batch.map fun o => noteRow c (stamp o).1 o)
        (batch.map fun o => orderRow c (stamp o).1 (stamp o).2 o) result.blockNum]
    | _ => []
  | some (.act (.updateStatus ids status)) =>
    [.updateOrdersStatus (ids.map c.orderId.write) status]
  | some (.act (.markNullified ids)) =>
    [.markOrdersOnchainNullified (ids.map c.orderId.write)]
  | some .reboot => [.resetAllSettlingToActive]
  | _ => []

/-- The statements of a run; the stamps may change from step to step. -/
def script (c : IdCodecs ε) (api : NoteApi Note) (stamp : Nat → IngestOrder → Bytes × Int64)
    (history : List (Pipeline Note × Option (PipelineEvent Note))) : List Statement :=
  history.zipIdx.flatMap fun x => statements c api (stamp x.2) x.1.1 x.1.2

theorem script_append (c : IdCodecs ε) (api : NoteApi Note)
    (stamp : Nat → IngestOrder → Bytes × Int64)
    (history : List (Pipeline Note × Option (PipelineEvent Note))) (p : Pipeline Note)
    (e : Option (PipelineEvent Note)) :
    script c api stamp (history ++ [(p, e)]) =
      script c api stamp history ++ statements c api (stamp history.length) p e := by
  simp [script, List.zipIdx_append]

/-- **A step**: its statements succeed on rows that represent the database, and the rows then
represent the database after the step. -/
theorem Store.Represents.step {store : Store} {api : NoteApi Note} {consumed : Set OrderId}
    {p p' : Pipeline Note} {e : Option (PipelineEvent Note)} (h : store.Represents c p.db)
    (hstep : CrashStep api consumed p e p') (stamp : IngestOrder → Bytes × Int64) :
    ∃ store', (statements c api stamp p e).foldlM Store.exec store = some store' ∧
      store'.Represents c p'.db := by
  cases hstep with
  | failure hfailure =>
    have hdb : p'.db = p.db := by
      cases hfailure <;> rfl
    exact ⟨store, rfl, hdb ▸ h⟩
  | step hstep _ =>
    cases hstep with
    | sync result _ =>
      by_cases hnone : result.consumedNotes = []
      · refine ⟨store, by rw [statements, if_pos hnone]; rfl, ?_⟩
        show store.Represents c (p.db.markOrdersOnchainNullified result.consumedNotes)
        rw [hnone, Database.markOrdersOnchainNullified_nil]
        exact h
      · obtain ⟨count, store', hexec, hrep⟩ := h.markOrdersOnchainNullified result.consumedNotes
        refine ⟨store', ?_, hrep⟩
        rw [statements, if_neg hnone, List.foldlM_cons, Store.exec, hexec]
        rfl
    | @insert result hreporting _ =>
      have hbatch := h.insertNotesBatch stamp (ingestOrders api result.newNotes) result.blockNum
      refine ⟨_, ?_, hbatch.2⟩
      rw [statements, hreporting]
      rfl
    | @act held action rest _ =>
      cases action with
      | updateStatus ids status =>
        obtain ⟨count, store', hexec, hrep⟩ := h.updateOrdersStatus ids status
        refine ⟨store', ?_, hrep⟩
        rw [statements, List.foldlM_cons, Store.exec, hexec]
        rfl
      | markNullified ids =>
        obtain ⟨count, store', hexec, hrep⟩ := h.markOrdersOnchainNullified ids
        refine ⟨store', ?_, hrep⟩
        rw [statements, List.foldlM_cons, Store.exec, hexec]
        rfl
      | resend order => exact ⟨store, rfl, h⟩
    | reboot _ _ _ =>
      obtain ⟨count, store', hexec, hrep⟩ := h.resetAllSettlingToActive
      refine ⟨store', ?_, hrep⟩
      rw [statements, List.foldlM_cons, Store.exec, hexec]
      rfl
    | matcher _ hexch => exact ⟨store, rfl, hexch.frame.1 ▸ h⟩
    | report _ => exact ⟨store, rfl, h⟩
    | send _ => exact ⟨store, rfl, h⟩
    | finish _ => exact ⟨store, rfl, h⟩
    | finishEarly _ => exact ⟨store, rfl, h⟩
    | takeEmpty _ _ => exact ⟨store, rfl, h⟩
    | take _ _ _ _ => exact ⟨store, rfl, h⟩
    | done _ => exact ⟨store, rfl, h⟩

/-- **The rows and the maps agree**, over every run of the pipeline with crashes and failures, on an
older file that is upgraded: every statement of the run succeeds, the rows represent the database of
the model, the orders that a batch reports as new are the same, and loading the active orders fails
at no row and yields the orders as they were ingested. -/
theorem storage_refines (c : IdCodecs ε) (api : NoteApi Note) (consumed : Set OrderId)
    {old : OldStore} {db₀ : Database} (hold : old.Represents c db₀) (feed : PriceFeed)
    (triangularEnabled : Bool) (router : Option RouterHooks)
    (stamp : Nat → IngestOrder → Bytes × Int64)
    {history : List (Pipeline Note × Option (PipelineEvent Note))} {p : Pipeline Note}
    (hrun : Run (CrashStep api consumed) unguarded
      (Pipeline.boot db₀ feed triangularEnabled router) history p) :
    ∃ store, (old.migrate.bind fun store =>
        (.resetAllSettlingToActive :: script c api stamp history).foldlM Store.exec store) =
          some store ∧
      store.Represents c p.db ∧
      (∀ (stamp : IngestOrder → Bytes × Int64) batch block N,
        c.orderId.write N ∈ (store.insertNotesBatch (batch.map fun o => noteRow c (stamp o).1 o)
          (batch.map fun o => orderRow c (stamp o).1 (stamp o).2 o) block).1 ↔
        N ∈ (p.db.insertNotesBatch batch block).1) ∧
      ∃ loaded, store.loadActiveOrdersWithNotes c = .ok (loaded.map RawOrder.of) ∧
        p.db.LoadsActive loaded := by
  obtain ⟨upgraded, hmigrate, hupgraded⟩ := hold.migrate
  obtain ⟨count, booted, hreset, hbooted⟩ := hupgraded.resetAllSettlingToActive
  have hrows : ∃ store, (script c api stamp history).foldlM Store.exec booted = some store ∧
      store.Represents c p.db := by
    induction hrun with
    | start => exact ⟨booted, rfl, hbooted⟩
    | @step history p p' e _ _ hstep ih =>
      obtain ⟨store, hexec, hrep⟩ := ih
      obtain ⟨store', hexec', hrep'⟩ := hrep.step hstep (stamp history.length)
      refine ⟨store', ?_, hrep'⟩
      rw [script_append, List.foldlM_append, hexec]
      exact hexec'
  obtain ⟨store, hexec, hrep⟩ := hrows
  refine ⟨store, ?_, hrep, fun stamp batch block => (hrep.insertNotesBatch stamp batch block).1,
    hrep.load⟩
  rw [hmigrate, Option.bind_some, List.foldlM_cons, Store.exec, hreset]
  exact hexec

end Rows

/-! ### An older file -/

/-- Ids in unary. -/
def unaryIds : IdCodecs Unit := ⟨.nat (), .nat ()⟩

/-- A file of the older version, with an order that was being settled. -/
def olderFile : OldStore where
  orders := ((Table.empty oldOrdersSchema).insertOrIgnore
    ((orderRow unaryIds [] 0 orderOne).withStatus .settling)).2
  notes := ((Table.empty notesSchema).insertOrIgnore (noteRow unaryIds [] orderOne)).2
  lastFetchedBlock := 0

/-- What it says. -/
def olderDb : Database where
  orders := Database.insertOrIgnore ∅ 1 ⟨crossingTerms 1, .settling⟩
  notes := Database.insertOrIgnore ∅ 1 [1]
  lastFetchedBlock := 0

theorem olderFile_represents : olderFile.Represents unaryIds olderDb := by
  have hinj := unaryIds.orderId.write_injective
  have horder : oldOrdersSchema.key ((orderRow unaryIds [] 0 orderOne).withStatus .settling) =
      unaryIds.orderId.write 1 := rfl
  have hnote : notesSchema.key (noteRow unaryIds [] orderOne) = unaryIds.orderId.write 1 := rfl
  have hbytes : CodesNote (noteRow unaryIds [] orderOne) [1] := rfl
  exact ⟨(represents_empty.insertOrIgnore hinj horder ⟨rfl, rfl, rfl, rfl, rfl⟩ rfl).2,
    (represents_empty.insertOrIgnore hinj hnote hbytes rfl).2, rfl⟩

/-- The order of the older file and a new one are both loaded after a crash. -/
theorem older_file_loaded :
    ∃ history, ∃ p : Pipeline OrderTerms, ∃ store, ∃ loaded : List IngestOrder,
      Run (CrashStep exactApi ∅) unguarded (Pipeline.boot olderDb crossingInputs.feed false none)
        history p ∧
      (olderFile.migrate.bind fun store => (.resetAllSettlingToActive ::
        script unaryIds exactApi (fun _ _ => ([], 0)) history).foldlM Store.exec store) =
          some store ∧
      store.loadActiveOrdersWithNotes unaryIds = .ok (loaded.map RawOrder.of) ∧
      ⟨1, crossingTerms 1, [1]⟩ ∈ loaded ∧ ⟨2, crossingTerms 2, [2]⟩ ∈ loaded := by
  have h₁ : Run (CrashStep exactApi ∅) unguarded
      (Pipeline.boot olderDb crossingInputs.feed false none) _ _ :=
    Run.single (.step (.sync ⟨0, [noteTwo], []⟩ rfl) nofun)
  have h₂ := h₁.step trivial (.step (.insert rfl (by decide)) trivial)
  have h₃ := h₂.step trivial (.step (.reboot crossingInputs.feed false none) trivial)
  obtain ⟨store, hexec, -, -, loaded, hload, hactive⟩ := storage_refines unaryIds exactApi ∅
    olderFile_represents crossingInputs.feed false none (fun _ _ => ([], 0)) h₃
  exact ⟨_, _, store, loaded, h₃, hexec, hload, (hactive.mem _).mpr (by decide),
    (hactive.mem _).mpr (by decide)⟩

end Sql
end PswapSolver
