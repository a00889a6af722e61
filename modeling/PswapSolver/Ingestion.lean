import PswapSolver.Recovery

/-! # Ingest iterations that fail

The model of one iteration of ingest, `ingest_once` in `ingest/ingest.rs`, with all its ways
to fail, and of the loop around it.  The cursor of the client's store advances inside
`sync_state`, before the two writes to the database; an iteration that fails at a write
returns, and nothing remembers what the sync had found.  `last_fetched_block` is written and
never read.

The sync source is edge-triggered: what one result lists no other does.  So what an iteration
fails to write is lost, whatever the later ones do, and a run keeps everything iff no
iteration failed at a write that had something to do (`ingest_keeps_iff`).
-/
namespace PswapSolver
open Runs
variable {Note : Type}

/-! ## One iteration -/

/-- How a write can fail: no connection is free, or the statement fails and is rolled back. -/
inductive WriteError where
  | noConnection
  | statement
deriving DecidableEq

/-- How an iteration can fail. -/
inductive IngestError where
  | sync
  | write (error : WriteError)
  | matcherChannelClosed
deriving DecidableEq

/-- What an iteration meets: the sync result, unless the sync fails; how each of the two
writes fails, if it does; and after how many orders the matcher's channel is closed. -/
structure IngestInputs (Note : Type) where
  sync : Option (SyncResult Note)
  markError : Option WriteError
  insertError : Option WriteError
  closedAfter : Option Nat

/-- What an iteration leaves behind: the database, the consumed notes it reported and the
orders it forwarded to the matcher, and its error. -/
structure IngestOutcome where
  db : Database
  reported : List OrderId
  forwarded : List IngestOrder
  error : Option IngestError

/-- The consumed notes are marked, if there are any. -/
def markConsumed (db : Database) (consumedNotes : List OrderId) (error : Option WriteError) :
    Except WriteError Database :=
  if consumedNotes = [] then .ok db
  else
    match error with
    | some e => .error e
    | none => .ok (db.markOrdersOnchainNullified consumedNotes)

/-- The new orders are inserted, if there are any; those seen for the first time are to be
forwarded. -/
def insertOrdersOnce (db : Database) (orders : List IngestOrder) (blockNum : Nat)
    (error : Option WriteError) : Except WriteError (List IngestOrder × Database) :=
  if orders = [] then .ok ([], db)
  else
    match error with
    | some e => .error e
    | none =>
      let (inserted, db') := db.insertNotesBatch orders blockNum
      .ok (orders.filter fun o => decide (o.noteId ∈ inserted), db')

/-- Sends the orders; the first that does not go through ends the iteration. -/
def forwardOrders (orders : List IngestOrder) : Option Nat → List IngestOrder × Option IngestError
  | none => (orders, none)
  | some n =>
    if n < orders.length then (orders.take n, some .matcherChannelClosed) else (orders, none)

/-- **A single iteration of the ingest loop.** -/
def ingestOnce (api : NoteApi Note) (db : Database) (i : IngestInputs Note) : IngestOutcome :=
  match i.sync with
  | none => ⟨db, [], [], some .sync⟩
  | some sync =>
    match markConsumed db sync.consumedNotes i.markError with
    | .error e => ⟨db, [], [], some (.write e)⟩
    | .ok db₁ =>
      match insertOrdersOnce db₁ (ingestOrders api sync.newNotes) sync.blockNum i.insertError with
      | .error e => ⟨db₁, sync.consumedNotes, [], some (.write e)⟩
      | .ok (orders, db₂) =>
        let (forwarded, error) := forwardOrders orders i.closedAfter
        ⟨db₂, sync.consumedNotes, forwarded, error⟩

/-- One turn of the loop in `run_ingest`: an error is logged. -/
def IngestStep (api : NoteApi Note) (db : Database) (i : IngestInputs Note) (db' : Database) :
    Prop :=
  db' = (ingestOnce api db i).db

/-! ## The iteration as steps of the pipeline -/

section Pipeline
variable {api : NoteApi Note}

/-- A run goes on to report the consumed notes, one by one. -/
theorem reports_run {p₀ p : Pipeline Note} {history : List (Pipeline Note × PipelineEvent Note)}
    {sync : SyncResult Note} {pending : List OrderId}
    (hrun : Run (Pipeline.Step api) unguarded p₀ history p)
    (h : p.ingest = .reporting sync pending) :
    ∃ history, Run (Pipeline.Step api) unguarded p₀ history
      { p with consumedCh := p.consumedCh ++ pending, ingest := .reporting sync [] } := by
  induction pending generalizing history p with
  | nil =>
    rw [List.append_nil, ← h]
    exact ⟨_, hrun⟩
  | cons id pending ih =>
    obtain ⟨history, hrest⟩ := ih (hrun.step trivial (.report h)) rfl
    rw [List.append_assoc] at hrest
    exact ⟨_, hrest⟩

/-- A run goes on to send the new orders, one by one. -/
theorem sends_run {p₀ p : Pipeline Note} {history : List (Pipeline Note × PipelineEvent Note)}
    {sync : SyncResult Note} {pending : List IngestOrder}
    (hrun : Run (Pipeline.Step api) unguarded p₀ history p)
    (h : p.ingest = .sending sync pending) :
    ∃ history, Run (Pipeline.Step api) unguarded p₀ history
      { p with orderCh := p.orderCh ++ pending, ingest := .idle } := by
  induction pending generalizing history p with
  | nil =>
    rw [List.append_nil]
    exact ⟨_, hrun.step trivial (.finish h)⟩
  | cons order pending ih =>
    obtain ⟨history, hrest⟩ := ih (hrun.step trivial (.send h)) rfl
    rw [List.append_assoc] at hrest
    exact ⟨_, hrest⟩

theorem eq_of_markConsumed_ok {db db' : Database} {consumedNotes : List OrderId}
    {error : Option WriteError} (h : markConsumed db consumedNotes error = .ok db') :
    db' = db.markOrdersOnchainNullified consumedNotes := by
  unfold markConsumed at h
  split at h
  · rename_i hnil
    cases h
    rw [hnil, Database.markOrdersOnchainNullified_nil]
  · split at h
    · cases h
    · cases h
      rfl

/-- **An iteration is a run of the pipeline** in which only ingest acts, as long as the
matcher's channel is open. -/
theorem ingestOnce_run (i : IngestInputs Note) (hopen : i.closedAfter = none) {p : Pipeline Note}
    (hidle : p.ingest = .idle) :
    ∃ history, Run (Pipeline.Step api) unguarded p history
      { p with
        db := (ingestOnce api p.db i).db
        consumedCh := p.consumedCh ++ (ingestOnce api p.db i).reported
        orderCh := p.orderCh ++ (ingestOnce api p.db i).forwarded
        ingest := .idle } := by
  have hnothing : ∃ history, Run (Pipeline.Step api) unguarded p history
      { p with consumedCh := p.consumedCh ++ [], orderCh := p.orderCh ++ [], ingest := .idle } := by
    rw [List.append_nil, List.append_nil, ← hidle]
    exact ⟨[], Run.start⟩
  unfold ingestOnce
  cases i.sync with
  | none => exact hnothing
  | some sync =>
    dsimp only
    cases hmark : markConsumed p.db sync.consumedNotes i.markError with
    | error e => exact hnothing
    | ok db₁ =>
      cases eq_of_markConsumed_ok hmark
      obtain ⟨history, hreported⟩ := reports_run (Run.single (.sync sync hidle)) rfl
      dsimp only [insertOrdersOnce]
      split
      · -- the iteration ends before the insert
        rename_i e he
        rw [List.append_nil]
        exact ⟨_, hreported.step trivial (.finishEarly rfl)⟩
      · rename_i orders db₂ hins
        rw [hopen]
        dsimp only [forwardOrders]
        split at hins
        · cases hins
          rw [List.append_nil]
          exact ⟨_, hreported.step trivial (.finishEarly rfl)⟩
        · rename_i hne
          cases herror : i.insertError with
          | some e =>
            rw [herror] at hins
            cases hins
          | none =>
            rw [herror] at hins
            cases hins
            exact sends_run (hreported.step trivial (.insert rfl hne)) rfl

end Pipeline

/-! ## Edge-triggered syncs -/

/-- The notes a sync finds new. -/
def SyncResult.newIds (sync : SyncResult Note) : List OrderId := sync.newNotes.map NewNote.id

/-- Two results list different notes, among the new and among the consumed. -/
def SyncResult.Apart (sync sync' : SyncResult Note) : Prop :=
  (∀ N ∈ sync.newIds, N ∉ sync'.newIds) ∧ ∀ N ∈ sync.consumedNotes, N ∉ sync'.consumedNotes

/-- **The sync source is edge-triggered**: a successful sync lists nothing that an earlier one
has listed. -/
def EdgeTriggered : Guard Database (IngestInputs Note) := fun history _ i =>
  ∀ x ∈ history, ∀ sync, x.2.sync = some sync → ∀ sync', i.sync = some sync' → sync.Apart sync'

/-- **What an iteration found is in the database**: its orders have rows, and the rows of the
consumed notes it knew are ended.  The iteration started from `before`. -/
def Kept (api : NoteApi Note) (before : Database) (i : IngestInputs Note) (db : Database) : Prop :=
  ∀ sync, i.sync = some sync →
    (∀ o ∈ ingestOrders api sync.newNotes, o.noteId ∈ db.orders) ∧
    ∀ N ∈ sync.consumedNotes, N ∈ before.orders → db.Spent N

/-- The iteration gets past marking. -/
def IngestInputs.Marks (i : IngestInputs Note) (sync : SyncResult Note) : Prop :=
  sync.consumedNotes = [] ∨ i.markError = none

/-- The iteration gets past inserting. -/
def IngestInputs.Inserts (i : IngestInputs Note) (api : NoteApi Note) (sync : SyncResult Note) :
    Prop :=
  i.Marks sync ∧ (ingestOrders api sync.newNotes = [] ∨ i.insertError = none)

/-- **The condition on an iteration**: it gets past marking if a consumed note has an open
row, and past inserting if an order has no row. -/
def Unimpeded (api : NoteApi Note) (before : Database) (i : IngestInputs Note) : Prop :=
  ∀ sync, i.sync = some sync →
    ((∃ N ∈ sync.consumedNotes, before.Open N) → i.Marks sync) ∧
    ((∃ o ∈ ingestOrders api sync.newNotes, o.noteId ∉ before.orders) → i.Inserts api sync)

/-! ## The writes of an iteration -/

namespace Database
variable {db : Database} {N : OrderId}

theorem Open.mem (h : db.Open N) : N ∈ db.orders := by
  rw [← statusOf_isSome]
  rcases h with h | h <;> rw [h] <;> rfl

/-- A row is open or spent. -/
theorem spent_iff (hN : N ∈ db.orders) : db.Spent N ↔ ¬ db.Open N := by
  obtain ⟨s, hs⟩ := Option.isSome_iff_exists.mp (statusOf_isSome.mpr hN)
  rw [Spent, Open, hs]
  cases s <;> simp

theorem spent_mark (hN : N ∈ db.orders) {ids : List OrderId} (hids : N ∈ ids) :
    (db.markOrdersOnchainNullified ids).Spent N := by
  obtain ⟨s, hs⟩ := Option.isSome_iff_exists.mp (statusOf_isSome.mpr hN)
  rw [Spent, statusOf_markOrdersOnchainNullified, hs]
  cases s <;> simp [hids]

theorem statusOf_mark_of_notMem {ids : List OrderId} (hids : N ∉ ids) :
    (db.markOrdersOnchainNullified ids).statusOf N = db.statusOf N := by
  simp [hids]

theorem statusOf_insert_of_mem (hN : N ∈ db.orders) (batch : List IngestOrder)
    (blockNumber : Nat) :
    (db.insertNotesBatch batch blockNumber).2.statusOf N = db.statusOf N := by
  obtain ⟨s, hs⟩ := Option.isSome_iff_exists.mp (statusOf_isSome.mpr hN)
  rw [hs, statusOf_insertNotesBatch hs]

end Database

section Iteration
variable {api : NoteApi Note} {db : Database} {i : IngestInputs Note} {sync : SyncResult Note}
  {N : OrderId}

theorem markConsumed_of_marks (h : i.Marks sync) :
    markConsumed db sync.consumedNotes i.markError =
      .ok (db.markOrdersOnchainNullified sync.consumedNotes) := by
  unfold markConsumed
  split
  · rename_i hnil
    rw [hnil, Database.markOrdersOnchainNullified_nil]
  · rename_i hne
    rw [h.resolve_left hne]

theorem markConsumed_of_not_marks (h : ¬ i.Marks sync) (db : Database) :
    ∃ e, markConsumed db sync.consumedNotes i.markError = .error e := by
  obtain ⟨hne, herror⟩ := not_or.mp h
  obtain ⟨e, he⟩ := Option.ne_none_iff_exists'.mp herror
  refine ⟨e, ?_⟩
  unfold markConsumed
  rw [if_neg hne, he]

theorem ingestOnce_of_sync_none (h : i.sync = none) : (ingestOnce api db i).db = db := by
  rw [ingestOnce, h]

theorem ingestOnce_of_not_marks (hsync : i.sync = some sync) (h : ¬ i.Marks sync) :
    (ingestOnce api db i).db = db := by
  obtain ⟨e, he⟩ := markConsumed_of_not_marks h db
  rw [ingestOnce, hsync]
  dsimp only
  rw [he]

/-- An iteration that gets past marking: the orders table has the consumed notes marked, and
the new orders if it gets past inserting. -/
theorem ingestOnce_of_marks (api : NoteApi Note) (db : Database) (hsync : i.sync = some sync)
    (h : i.Marks sync) :
    (i.Inserts api sync ∧ (ingestOnce api db i).db.orders =
      ((db.markOrdersOnchainNullified sync.consumedNotes).insertNotesBatch
        (ingestOrders api sync.newNotes) sync.blockNum).2.orders) ∨
    (¬ i.Inserts api sync ∧
      (ingestOnce api db i).db = db.markOrdersOnchainNullified sync.consumedNotes) := by
  rw [ingestOnce, hsync]
  dsimp only
  rw [markConsumed_of_marks h]
  dsimp only [insertOrdersOnce]
  by_cases hnil : ingestOrders api sync.newNotes = []
  · rw [if_pos hnil, hnil]
    exact Or.inl ⟨⟨h, Or.inl hnil⟩, rfl⟩
  · rw [if_neg hnil]
    cases herror : i.insertError with
    | none => exact Or.inl ⟨⟨h, Or.inr herror⟩, rfl⟩
    | some e =>
      refine Or.inr ⟨fun hins => ?_, rfl⟩
      cases herror.symm.trans (hins.2.resolve_left hnil)

/-- **The rows after an iteration**: the orders are there if it gets past inserting. -/
theorem mem_ingestOnce (hsync : i.sync = some sync) : N ∈ (ingestOnce api db i).db.orders ↔
    N ∈ db.orders ∨
      (i.Inserts api sync ∧ N ∈ (ingestOrders api sync.newNotes).map IngestOrder.noteId) := by
  by_cases hmarks : i.Marks sync
  · rcases ingestOnce_of_marks api db hsync hmarks with ⟨hins, hdb⟩ | ⟨hins, hdb⟩
    · rw [hdb, Database.mem_insertNotesBatch, Database.markOrdersOnchainNullified,
        Database.mem_updateWhere]
      tauto
    · rw [hdb, Database.markOrdersOnchainNullified, Database.mem_updateWhere]
      tauto
  · rw [ingestOnce_of_not_marks hsync hmarks]
    exact ⟨Or.inl, fun h => h.resolve_right fun hc => hmarks hc.1.1⟩

/-- The status of a row that was there is that after marking. -/
theorem statusOf_ingestOnce_of_marks (hsync : i.sync = some sync) (h : i.Marks sync)
    (hN : N ∈ db.orders) : (ingestOnce api db i).db.statusOf N =
      (db.markOrdersOnchainNullified sync.consumedNotes).statusOf N := by
  rcases ingestOnce_of_marks api db hsync h with ⟨-, hdb⟩ | ⟨-, hdb⟩
  · have hmem : N ∈ (db.markOrdersOnchainNullified sync.consumedNotes).orders :=
      Database.mem_updateWhere.mpr hN
    rw [← Database.statusOf_insert_of_mem hmem (ingestOrders api sync.newNotes) sync.blockNum,
      Database.statusOf, hdb]
    rfl
  · rw [hdb]

/-- The status of a row whose note is not reported does not change. -/
theorem statusOf_ingestOnce_of_notMem (hsync : i.sync = some sync) (hN : N ∈ db.orders)
    (hconsumed : N ∉ sync.consumedNotes) :
    (ingestOnce api db i).db.statusOf N = db.statusOf N := by
  by_cases h : i.Marks sync
  · rw [statusOf_ingestOnce_of_marks hsync h hN, Database.statusOf_mark_of_notMem hconsumed]
  · rw [ingestOnce_of_not_marks hsync h]

/-- No iteration deletes a row. -/
theorem mem_ingestOnce_of_mem (hN : N ∈ db.orders) : N ∈ (ingestOnce api db i).db.orders := by
  cases hsync : i.sync with
  | none => rwa [ingestOnce_of_sync_none hsync]
  | some sync => exact (mem_ingestOnce hsync).mpr (Or.inl hN)

theorem mem_newIds_of_mem_ingestOrders
    (hN : N ∈ (ingestOrders api sync.newNotes).map IngestOrder.noteId) : N ∈ sync.newIds := by
  obtain ⟨o, ho, rfl⟩ := List.mem_map.mp hN
  obtain ⟨n, hn, hsome⟩ := List.mem_filterMap.mp ho
  split at hsome
  · obtain ⟨terms, -, rfl⟩ := Option.map_eq_some_iff.mp hsome
    exact List.mem_map_of_mem hn
  · cases hsome

/-- **An iteration keeps what it found iff it is unimpeded.** -/
theorem kept_ingestOnce : Kept api db i (ingestOnce api db i).db ↔ Unimpeded api db i := by
  refine forall₂_congr fun sync hsync => ?_
  rw [and_comm]
  refine and_congr ?_ ?_
  · by_cases hmarks : i.Marks sync
    · refine iff_of_true (fun N hN hrow => ?_) fun _ => hmarks
      have hspent := Database.spent_mark hrow hN
      rwa [Database.Spent, ← statusOf_ingestOnce_of_marks hsync hmarks hrow] at hspent
    · rw [ingestOnce_of_not_marks hsync hmarks]
      refine ⟨fun h => ?_, fun h N hN hrow => ?_⟩
      · rintro ⟨N, hN, hopen⟩
        exact absurd hopen ((Database.spent_iff hopen.mem).mp (h N hN hopen.mem))
      · exact (Database.spent_iff hrow).mpr fun hopen => hmarks (h ⟨N, hN, hopen⟩)
  · simp only [mem_ingestOnce hsync]
    constructor
    · rintro h ⟨o, ho, hnew⟩
      exact ((h o ho).resolve_left hnew).1
    · intro h o ho
      by_cases hrow : o.noteId ∈ db.orders
      · exact Or.inl hrow
      · exact Or.inr ⟨h ⟨o, ho, hrow⟩, List.mem_map_of_mem ho⟩

/-- **A later iteration changes nothing about it**: it neither inserts nor ends what another
sync has listed. -/
theorem kept_later {before : Database} {x : IngestInputs Note}
    (hrows : ∀ N ∈ before.orders, N ∈ db.orders)
    (hapart : ∀ sync, x.sync = some sync → ∀ sync', i.sync = some sync' → sync.Apart sync') :
    Kept api before x (ingestOnce api db i).db ↔ Kept api before x db := by
  cases hi : i.sync with
  | none => rw [ingestOnce_of_sync_none hi]
  | some sync' =>
    refine forall₂_congr fun sync hsync => and_congr ?_ ?_
    · obtain ⟨hnew, -⟩ := hapart sync hsync sync' hi
      refine forall₂_congr fun o ho => ?_
      have hN : o.noteId ∉ (ingestOrders api sync'.newNotes).map IngestOrder.noteId := fun hc =>
        hnew _ (mem_newIds_of_mem_ingestOrders (List.mem_map_of_mem ho))
          (mem_newIds_of_mem_ingestOrders hc)
      rw [mem_ingestOnce hi]
      tauto
    · obtain ⟨-, hconsumed⟩ := hapart sync hsync sync' hi
      refine forall₃_congr fun N hN hrow => ?_
      rw [Database.Spent, Database.Spent,
        statusOf_ingestOnce_of_notMem hi (hrows N hrow) (hconsumed N hN)]

end Iteration

/-! ## Whole runs -/

/-- **What the iterations kept.**  In every run of the ingest loop on an edge-triggered sync
source, from any database, with any acquisition of a connection and any statement failing:
everything that the syncs found is in the database iff all iterations were unimpeded.  It
does not matter how many iterations have completed without error since. -/
theorem ingest_keeps_iff (api : NoteApi Note) (db₀ : Database)
    {history : List (Database × IngestInputs Note)} {db : Database}
    (hrun : Run (IngestStep api) EdgeTriggered db₀ history db) :
    (∀ x ∈ history, Kept api x.1 x.2 db) ↔ ∀ x ∈ history, Unimpeded api x.1 x.2 := by
  have hinv : ∀ x ∈ history, (∀ N ∈ x.1.orders, N ∈ db.orders) ∧
      (Kept api x.1 x.2 db ↔ Unimpeded api x.1 x.2) := by
    refine hrun.invariant (P := fun history db => ∀ x ∈ history,
      (∀ N ∈ x.1.orders, N ∈ db.orders) ∧ (Kept api x.1 x.2 db ↔ Unimpeded api x.1 x.2))
      (fun _ hx => absurd hx List.not_mem_nil) ?_
    rintro history db i _ ih hedge rfl x hx
    rcases List.mem_append.mp hx with hx | hx
    · obtain ⟨hrows, hkept⟩ := ih x hx
      exact ⟨fun N hN => mem_ingestOnce_of_mem (hrows N hN),
        (kept_later hrows (hedge x hx)).trans hkept⟩
    · cases List.mem_singleton.mp hx
      exact ⟨fun N hN => mem_ingestOnce_of_mem hN, kept_ingestOnce⟩
  exact forall₂_congr fun x hx => (hinv x hx).2

/-! ### A note that is lost

The write connection is busy when note 1 has been found, and no later sync finds it again.
And order 1 being known, marking it consumed fails, which also loses note 2 of the same sync;
then everything works. -/

/-- An iteration in which every write succeeds. -/
def calm (blockNum : Nat) (newNotes : List (NewNote OrderTerms)) (consumedNotes : List OrderId) :
    IngestInputs OrderTerms := ⟨some ⟨blockNum, newNotes, consumedNotes⟩, none, none, none⟩

/-- Note 1 is found, and there is no connection to insert it. -/
def busy : IngestInputs OrderTerms :=
  ⟨some ⟨1, [noteOne], []⟩, none, some .noConnection, none⟩

/-- Note 1 is consumed and note 2 is found, and marking fails. -/
def locked : IngestInputs OrderTerms :=
  ⟨some ⟨2, [noteTwo], [1]⟩, some .statement, none, none⟩

/-- The sync itself fails. -/
def offline : IngestInputs OrderTerms := ⟨none, none, none, none⟩

section Lost
variable {history : List (Database × IngestInputs OrderTerms)} {db : Database}

theorem edgeTriggered_first (i : IngestInputs OrderTerms) : EdgeTriggered [] db i :=
  fun _ h => absurd h List.not_mem_nil

theorem edgeTriggered_calm (blockNum : Nat) : EdgeTriggered history db (calm blockNum [] []) := by
  rintro x - sync - sync' ⟨⟩
  exact ⟨fun _ _ => List.not_mem_nil, fun _ _ => List.not_mem_nil⟩

theorem edgeTriggered_locked :
    EdgeTriggered [(emptyDb, calm 1 [noteOne] [])] db locked := by
  intro x hx
  cases List.mem_singleton.mp hx
  rintro sync ⟨⟩ sync' ⟨⟩
  exact ⟨by decide, nofun⟩

theorem unimpeded_calm (blockNum : Nat) (newNotes : List (NewNote OrderTerms))
    (consumedNotes : List OrderId) :
    Unimpeded exactApi db (calm blockNum newNotes consumedNotes) := by
  rintro sync ⟨⟩
  exact ⟨fun _ => Or.inr rfl, fun _ => ⟨Or.inr rfl, Or.inr rfl⟩⟩

end Lost

/-- **A failed iteration loses notes**, though the one after it completes. -/
theorem failed_iteration_loses_notes :
    (∃ history db, Run (IngestStep exactApi) EdgeTriggered emptyDb history db ∧
      (∃ before, history = [(emptyDb, busy), (before, calm 2 [] [])] ∧
        (ingestOnce exactApi before (calm 2 [] [])).error = none) ∧
      1 ∉ db.orders) ∧
    ∃ history db, Run (IngestStep exactApi) EdgeTriggered emptyDb history db ∧
      (∃ known before, history =
          [(emptyDb, calm 1 [noteOne] []), (known, locked), (before, calm 3 [] [])] ∧
        1 ∈ known.orders ∧ (ingestOnce exactApi before (calm 3 [] [])).error = none) ∧
      db.statusOf 1 = some .active ∧ 2 ∉ db.orders := by
  constructor
  · have h₁ : Run (IngestStep exactApi) EdgeTriggered emptyDb _ _ :=
      Run.start.step (edgeTriggered_first busy) rfl
    have h₂ := h₁.step (edgeTriggered_calm 2) rfl
    exact ⟨_, _, h₂, ⟨_, rfl, by decide⟩, by decide⟩
  · have h₁ : Run (IngestStep exactApi) EdgeTriggered emptyDb _ _ :=
      Run.start.step (edgeTriggered_first (calm 1 [noteOne] [])) rfl
    have h₂ := h₁.step edgeTriggered_locked rfl
    have h₃ := h₂.step (edgeTriggered_calm 3) rfl
    exact ⟨_, _, h₃, ⟨_, _, rfl, by decide, by decide⟩, by decide, by decide⟩

/-- A sync that fails loses nothing: note 1 is inserted before it, and ended after it. -/
theorem offline_iteration_keeps :
    ∃ history db, Run (IngestStep exactApi) EdgeTriggered emptyDb history db ∧
      history.map (fun x => x.2.sync.isSome) = [true, false, true] ∧
      db.statusOf 1 = some .onchainNullified ∧ ∀ x ∈ history, Kept exactApi x.1 x.2 db := by
  have hoffline : ∀ {history : List (Database × IngestInputs OrderTerms)} {db},
      EdgeTriggered history db offline := by
    rintro history db x - sync - sync' ⟨⟩
  have hlast : ∀ {db₁ db₂ : Database}, EdgeTriggered
      [(emptyDb, calm 1 [noteOne] []), (db₁, offline)] db₂ (calm 2 [] [1]) := by
    intro db₁ db₂ x hx
    rcases List.mem_pair.mp hx with rfl | rfl
    · rintro sync ⟨⟩ sync' ⟨⟩
      exact ⟨fun _ _ => List.not_mem_nil, nofun⟩
    · rintro sync ⟨⟩
  have h₁ : Run (IngestStep exactApi) EdgeTriggered emptyDb _ _ :=
    Run.start.step (edgeTriggered_first (calm 1 [noteOne] [])) rfl
  have h₂ := h₁.step hoffline rfl
  have h₃ := h₂.step hlast rfl
  refine ⟨_, _, h₃, rfl, by decide, (ingest_keeps_iff exactApi emptyDb h₃).mpr ?_⟩
  simp only [List.nil_append, List.cons_append, List.forall_mem_cons]
  exact ⟨unimpeded_calm _ _ _, nofun, unimpeded_calm _ _ _, nofun⟩

end PswapSolver
