import PswapSolver.Database
import PswapSolver.Settlement

/-! # The executor

The model of `execute_batch` in `executor/executor.rs`, with the backoff loop around the
submission and the two ways orders are rebuilt for the matcher.  The executor reads no
shared state: what it writes to the database and re-sends to the matcher depends on the
batch and on the answers of the chain alone.  So `executeBatch` returns the list of its
actions, in order; other tasks may act between any two of them.

`execute_batch_resolves_iff` says when a batch leaves no order behind.  On two of its
exits it leaves all of them: when the batch cannot be prepared nothing is written and
nothing re-sent, and when the nullifier check fails the orders stay `Settling`.
-/
namespace PswapSolver
variable {Note : Type}

/-! ## Submitting -/

/-- What one submit attempt comes to; a transient error is followed by a sleep, which a
shutdown may cut short. -/
inductive Attempt where
  | buildFailed
  | landed
  | rpcError (cancelled : Bool)
  | rejected
deriving DecidableEq

/-- Outcome of `submit_with_rpc_backoff`. -/
inductive SubmitOutcome where
  | success
  | rpcExhausted
  | txError
  | buildFailed
  | cancelled
deriving DecidableEq

/-- Retries after the first submit. -/
def maxRpcRetries : Nat := 5

/-- The backoff loop with this many retries left; `answer` gives what each attempt comes
to. -/
def submitFrom (answer : Nat → Attempt) : Nat → SubmitOutcome
  | 0 =>
    match answer maxRpcRetries with
    | .buildFailed => .buildFailed
    | .landed => .success
    | .rpcError _ => .rpcExhausted
    | .rejected => .txError
  | left + 1 =>
    match answer (maxRpcRetries - (left + 1)) with
    | .buildFailed => .buildFailed
    | .landed => .success
    | .rpcError cancelled => if cancelled then .cancelled else submitFrom answer left
    | .rejected => .txError

/-- Submits with bounded retries on transient errors. -/
def submitWithRpcBackoff (answer : Nat → Attempt) : SubmitOutcome := submitFrom answer maxRpcRetries

/-! ## Rebuilding orders -/

/-- Rebuilds the order of one filled note. -/
def rebuildIngestOrder (api : NoteApi Note) (filled : FilledNote) (note : Note) :
    Option IngestOrder :=
  (orderFromNote api note).map fun terms => ⟨filled.noteId, terms, filled.rawNoteData⟩

/-- Rebuilds every order of the batch. -/
def rebuildAllOrders (api : NoteApi Note) : List (FilledNote × Note) → Option (List IngestOrder)
  | [] => some []
  | (filled, note) :: rest =>
    match rebuildIngestOrder api filled note with
    | none => none
    | some order => (rebuildAllOrders api rest).map (order :: ·)

/-- The classification of a batch: the consumed ids, the active ids, and the active
orders. -/
structure Classified where
  consumed : List OrderId
  active : List OrderId
  activeOrders : List IngestOrder

/-- Partitions the batch by the ids found consumed on-chain. -/
def classifyInputNotes (api : NoteApi Note) (consumedIds : List OrderId) :
    List (FilledNote × Note) → Option Classified
  | [] => some ⟨[], [], []⟩
  | (filled, note) :: rest =>
    if filled.noteId ∈ consumedIds then
      (classifyInputNotes api consumedIds rest).map fun c =>
        { c with consumed := filled.noteId :: c.consumed }
    else
      match rebuildIngestOrder api filled note with
      | none => none
      | some order =>
        (classifyInputNotes api consumedIds rest).map fun c =>
          { c with active := filled.noteId :: c.active, activeOrders := order :: c.activeOrders }

/-! ## Executing a batch -/

/-- What the executor does to the rest of the solver. -/
inductive ExecutorAction where
  | updateStatus (ids : List OrderId) (status : OrderStatus)
  | markNullified (ids : List OrderId)
  | resend (order : IngestOrder)
deriving DecidableEq

/-- What the chain and the hash maps answer during a batch. -/
structure ExecutorAnswers where
  /-- The order in which the token flows are visited. -/
  flowOrder : List TokenId
  attempts : Nat → Attempt
  /-- The ids `check_consumed_notes` returns, unless it fails. -/
  checkConsumed : Option (List OrderId)

/-- Re-sends orders to the matcher. -/
def refeedOrders (orders : List IngestOrder) : List ExecutorAction :=
  orders.map ExecutorAction.resend

/-- The `RpcExhausted` and the `BuildFailed` branch of `execute_batch`: back to `Active`
(`revert_to_active`), and to the live matcher. -/
def revertAndRefeed (api : NoteApi Note) (batch : ExecutionBatch) (notes : List Note) :
    List ExecutorAction :=
  .updateStatus batch.ids .active ::
    match rebuildAllOrders api (batch.filledNotes.zip notes) with
    | some orders => refeedOrders orders
    -- recoverable only at the next boot
    | none => []

/-- The `TxError` branch of `execute_batch`: the way out of a rejected submission. -/
def classifyAndRefeed (api : NoteApi Note) (answers : ExecutorAnswers) (batch : ExecutionBatch)
    (notes : List Note) : List ExecutorAction :=
  match answers.checkConsumed with
  | none => []
  | some consumedIds =>
    match classifyInputNotes api consumedIds (batch.filledNotes.zip notes) with
    | none => []
    | some c =>
      (if c.consumed = [] then [] else [.markNullified c.consumed]) ++
        ((if c.active = [] then [] else [.updateStatus c.active .active]) ++
          refeedOrders c.activeOrders)

/-- **Executing a batch**: the actions, and whether it succeeded. -/
def executeBatch (api : NoteApi Note) (answers : ExecutorAnswers) (batch : ExecutionBatch) :
    List ExecutorAction × Bool :=
  match prepareBatchComponents api batch answers.flowOrder with
  | .error _ => ([], false)
  | .ok components =>
    let notes := components.inputNotes.map Prod.fst
    -- Marked before submitting, so that a crash after the submit can be recovered.
    let settling := ExecutorAction.updateStatus batch.ids .settling
    match submitWithRpcBackoff answers.attempts with
    | .success => ([settling, .updateStatus batch.ids .executed], true)
    | .rpcExhausted => (settling :: revertAndRefeed api batch notes, false)
    | .buildFailed => (settling :: revertAndRefeed api batch notes, false)
    | .cancelled => ([settling], false)
    | .txError => (settling :: classifyAndRefeed api answers batch notes, false)

/-- The database and the orders sent to the matcher so far. -/
structure Outcome where
  db : Database
  sent : List IngestOrder

/-- One action, all writes succeeding and the matcher's channel open. -/
def Outcome.perform (s : Outcome) : ExecutorAction → Outcome
  | .updateStatus ids status => { s with db := s.db.updateOrdersStatus ids status }
  | .markNullified ids => { s with db := s.db.markOrdersOnchainNullified ids }
  | .resend order => { s with sent := s.sent ++ [order] }

/-- What a batch leaves behind when nothing interferes. -/
def runBatch (api : NoteApi Note) (answers : ExecutorAnswers) (batch : ExecutionBatch)
    (db : Database) : Outcome :=
  (executeBatch api answers batch).1.foldl Outcome.perform ⟨db, []⟩

/-! ## The notes of a prepared batch -/

/-- The notes of a batch, one for each filled note, as its bytes parse. -/
def Notes (api : NoteApi Note) (filled : List FilledNote) (notes : List Note) : Prop :=
  List.Forall₂ (fun f n => api.readFrom f.rawNoteData = some n) filled notes

theorem foldlM_prepareNote_notes {api : NoteApi Note} {filled : List FilledNote}
    {acc acc' : Prepared Note} (h : filled.foldlM (prepareNote api) acc = .ok acc') :
    ∃ notes, acc'.inputNotes = acc.inputNotes ++ notes ∧ Notes api filled (notes.map Prod.fst) := by
  induction filled generalizing acc with
  | nil =>
    cases h
    exact ⟨[], (List.append_nil _).symm, .nil⟩
  | cons f filled ih =>
    rw [List.foldlM_cons] at h
    cases hn : prepareNote api acc f with
    | error e =>
      rw [hn] at h
      cases h
    | ok acc₁ =>
      rw [hn] at h
      obtain ⟨x, hx, -⟩ := prepareNote_ok hn
      obtain ⟨notes, hnotes, hall⟩ := ih h
      refine ⟨(x.note, f.requestedFilled) :: notes, ?_, .cons x.read hall⟩
      rw [hnotes, hx, List.append_assoc]
      rfl

/-- A prepared batch comes with the notes its filled notes parse to. -/
theorem prepareBatchComponents_notes {api : NoteApi Note} {batch : ExecutionBatch}
    {order : List TokenId} {components : BatchComponents Note}
    (h : prepareBatchComponents api batch order = .ok components) :
    Notes api batch.filledNotes (components.inputNotes.map Prod.fst) := by
  unfold prepareBatchComponents at h
  split at h
  · cases h
  · rename_i acc hacc
    split at h
    · cases h
    · cases h
      obtain ⟨notes, hnotes, hall⟩ := foldlM_prepareNote_notes hacc
      rw [hnotes]
      exact hall

/-- Every note of the batch parses as an order. -/
def ParsesAll (api : NoteApi Note) (filled : List FilledNote) : Prop :=
  ∀ f ∈ filled, ∃ terms, ParsesTo api f.rawNoteData terms

theorem rebuildIngestOrder_some {api : NoteApi Note} {f : FilledNote} {n : Note}
    (hread : api.readFrom f.rawNoteData = some n)
    (hparse : ∃ terms, ParsesTo api f.rawNoteData terms) :
    ∃ order, rebuildIngestOrder api f n = some order := by
  obtain ⟨terms, n', hread', hterms⟩ := hparse
  cases hread.symm.trans hread'
  exact ⟨_, by rw [rebuildIngestOrder, hterms]; rfl⟩

section Rebuild
variable {api : NoteApi Note} {pairs : List (FilledNote × Note)}

/-- The ids of a list of notes with their parsed forms. -/
def pairIds (pairs : List (FilledNote × Note)) : List OrderId :=
  (pairs.map Prod.fst).map FilledNote.noteId

/-- A rebuilt batch has the ids of the batch. -/
theorem rebuildAllOrders_ids {orders : List IngestOrder}
    (h : rebuildAllOrders api pairs = some orders) :
    orders.map IngestOrder.noteId = pairIds pairs := by
  induction pairs generalizing orders with
  | nil =>
    cases h
    rfl
  | cons x pairs ih =>
    rw [rebuildAllOrders] at h
    split at h
    · cases h
    · rename_i order horder
      obtain ⟨orders', horders, rfl⟩ := Option.map_eq_some_iff.mp h
      obtain ⟨terms, -, rfl⟩ := Option.map_eq_some_iff.mp horder
      rw [List.map_cons, ih horders]
      rfl

/-- The classification partitions the batch by the reported ids. -/
theorem classifyInputNotes_ids {consumedIds : List OrderId} {c : Classified}
    (h : classifyInputNotes api consumedIds pairs = some c) :
    c.consumed = (pairIds pairs).filter (· ∈ consumedIds) ∧
    c.active = (pairIds pairs).filter (· ∉ consumedIds) ∧
    c.activeOrders.map IngestOrder.noteId = c.active := by
  induction pairs generalizing c with
  | nil =>
    cases h
    exact ⟨rfl, rfl, rfl⟩
  | cons x pairs ih =>
    have hids : pairIds (x :: pairs) = x.1.noteId :: pairIds pairs := rfl
    rw [classifyInputNotes] at h
    split at h
    · rename_i hx
      obtain ⟨c', hc', rfl⟩ := Option.map_eq_some_iff.mp h
      obtain ⟨hconsumed, hactive, horders⟩ := ih hc'
      rw [hids, List.filter_cons_of_pos (by simpa using hx),
        List.filter_cons_of_neg (by simpa using hx)]
      exact ⟨congrArg _ hconsumed, hactive, horders⟩
    · rename_i hx
      split at h
      · cases h
      · rename_i order horder
        obtain ⟨c', hc', rfl⟩ := Option.map_eq_some_iff.mp h
        obtain ⟨terms, -, rfl⟩ := Option.map_eq_some_iff.mp horder
        obtain ⟨hconsumed, hactive, horders⟩ := ih hc'
        rw [hids, List.filter_cons_of_neg (by simpa using hx),
          List.filter_cons_of_pos (by simpa using hx)]
        exact ⟨hconsumed, congrArg _ hactive, congrArg _ horders⟩

variable {filled : List FilledNote} {notes : List Note}

/-- All notes of the batch that parse as orders can be rebuilt. -/
theorem rebuildAllOrders_some (hnotes : Notes api filled notes) (hparse : ParsesAll api filled) :
    ∃ orders, rebuildAllOrders api (filled.zip notes) = some orders := by
  induction hnotes with
  | nil => exact ⟨[], rfl⟩
  | cons hread _ ih =>
    obtain ⟨order, horder⟩ := rebuildIngestOrder_some hread (hparse _ (List.mem_cons_self ..))
    obtain ⟨orders, horders⟩ := ih fun f hf => hparse f (List.mem_cons_of_mem _ hf)
    refine ⟨order :: orders, ?_⟩
    rw [List.zip_cons_cons, rebuildAllOrders, horder, horders]
    rfl

theorem classifyInputNotes_some (consumedIds : List OrderId) (hnotes : Notes api filled notes)
    (hparse : ParsesAll api filled) :
    ∃ c, classifyInputNotes api consumedIds (filled.zip notes) = some c := by
  induction hnotes with
  | nil => exact ⟨_, rfl⟩
  | @cons f n filled notes hread _ ih =>
    obtain ⟨c, hc⟩ := ih fun f hf => hparse f (List.mem_cons_of_mem _ hf)
    obtain ⟨order, horder⟩ := rebuildIngestOrder_some hread (hparse _ (List.mem_cons_self ..))
    rw [List.zip_cons_cons, classifyInputNotes, horder, hc]
    split
    · exact ⟨_, rfl⟩
    · exact ⟨_, rfl⟩

/-- The notes of a prepared batch are all there. -/
theorem Notes.pairIds_zip (h : Notes api filled notes) :
    pairIds (filled.zip notes) = filled.map FilledNote.noteId := by
  rw [pairIds, List.map_fst_zip (Nat.le_of_eq h.length_eq)]

end Rebuild

/-! ## Where a batch leaves its orders -/

/-- **An order is resolved**: it is executed after a successful submit, or nullified because
it was reported consumed, or active again and re-sent once. -/
def Resolved (before : Database) (submitted : Bool) (reported : List OrderId) (after : Outcome)
    (id : OrderId) : Prop :=
  (after.db.statusOf id = some .executed ∧
    (submitted = true ∨ before.statusOf id = some .executed) ∧
    (after.sent.map IngestOrder.noteId).count id = 0) ∨
  (after.db.statusOf id = some .onchainNullified ∧
    (id ∈ reported ∨ before.statusOf id = some .onchainNullified) ∧
    (after.sent.map IngestOrder.noteId).count id = 0) ∨
  (after.db.statusOf id = some .active ∧ (after.sent.map IngestOrder.noteId).count id = 1)

instance (before : Database) (submitted : Bool) (reported : List OrderId) (after : Outcome)
    (id : OrderId) : Decidable (Resolved before submitted reported after id) :=
  inferInstanceAs (Decidable (_ ∨ _ ∨ _))

/-- **The condition**: a batch that cannot be prepared has only orders that are done with
already, and a rejected one can be checked for consumed notes. -/
def Recoverable (api : NoteApi Note) (answers : ExecutorAnswers) (batch : ExecutionBatch)
    (db : Database) : Prop :=
  match prepareBatchComponents api batch answers.flowOrder with
  | .error _ => ∀ id ∈ batch.ids,
      db.statusOf id = some .executed ∨ db.statusOf id = some .onchainNullified
  | .ok _ => submitWithRpcBackoff answers.attempts = .txError → answers.checkConsumed.isSome = true

theorem foldl_perform_refeed (s : Outcome) (orders : List IngestOrder) :
    (refeedOrders orders).foldl Outcome.perform s = { s with sent := s.sent ++ orders } := by
  induction orders generalizing s with
  | nil => rw [List.append_nil]; rfl
  | cons o orders ih =>
    rw [refeedOrders, List.map_cons, List.foldl_cons]
    refine (ih _).trans ?_
    simp [Outcome.perform]

section Batch
variable {api : NoteApi Note} {answers : ExecutorAnswers} {batch : ExecutionBatch} {db : Database}
  {notes : List Note}

/-- The revert makes every order of the batch active and re-sends it. -/
theorem revertAndRefeed_spec (hnotes : Notes api batch.filledNotes notes)
    (hparse : ParsesAll api batch.filledNotes) (db : Database) :
    ∃ orders, orders.map IngestOrder.noteId = batch.ids ∧
      (revertAndRefeed api batch notes).foldl Outcome.perform ⟨db, []⟩ =
        ⟨db.updateOrdersStatus batch.ids .active, orders⟩ := by
  obtain ⟨orders, horders⟩ := rebuildAllOrders_some hnotes hparse
  refine ⟨orders, (rebuildAllOrders_ids horders).trans hnotes.pairIds_zip, ?_⟩
  rw [revertAndRefeed, horders, List.foldl_cons, foldl_perform_refeed]
  rfl

/-- The classification nullifies what was reported, and makes the rest active and re-sends
it. -/
theorem classifyAndRefeed_spec {consumedIds : List OrderId}
    (hcheck : answers.checkConsumed = some consumedIds)
    (hnotes : Notes api batch.filledNotes notes) (hparse : ParsesAll api batch.filledNotes)
    (db : Database) :
    ∃ after : Outcome,
      (classifyAndRefeed api answers batch notes).foldl Outcome.perform ⟨db, []⟩ = after ∧
      after.sent.map IngestOrder.noteId = batch.ids.filter (· ∉ consumedIds) ∧
      ∀ id ∈ batch.ids, after.db.statusOf id = (db.statusOf id).map fun s =>
        if id ∉ consumedIds then .active
        else if s = .active ∨ s = .settling then .onchainNullified else s := by
  obtain ⟨c, hc⟩ := classifyInputNotes_some consumedIds hnotes hparse
  obtain ⟨hconsumed, hactive, horders⟩ := classifyInputNotes_ids hc
  rw [hnotes.pairIds_zip] at hconsumed hactive
  -- skipping an update of no rows is the same as making it
  have hactions : (classifyAndRefeed api answers batch notes).foldl Outcome.perform ⟨db, []⟩ =
      ⟨(db.markOrdersOnchainNullified c.consumed).updateOrdersStatus c.active .active,
        c.activeOrders⟩ := by
    rw [classifyAndRefeed, hcheck]
    dsimp only
    rw [hc]
    dsimp only
    rw [List.foldl_append, List.foldl_append, foldl_perform_refeed]
    split <;> split <;> simp_all [Outcome.perform]
  refine ⟨_, hactions, horders.trans hactive, fun id hid => ?_⟩
  rw [Database.statusOf_updateOrdersStatus, Database.statusOf_markOrdersOnchainNullified,
    Option.map_map, hactive, hconsumed]
  refine Option.map_congr fun s _ => ?_
  have hid : id ∈ batch.filledNotes.map FilledNote.noteId := hid
  by_cases hc : id ∈ consumedIds <;> simp [hc, hid]

/-- After a revert every order of the batch is active and was re-sent once. -/
theorem resolved_revert (hnotes : Notes api batch.filledNotes notes)
    (hparse : ParsesAll api batch.filledNotes) (hnodup : batch.ids.Nodup)
    (hrows : ∀ id ∈ batch.ids, (db.statusOf id).isSome = true) (submitted : Bool)
    (reported : List OrderId) :
    ∀ id ∈ batch.ids, Resolved db submitted reported
      ((.updateStatus batch.ids .settling :: revertAndRefeed api batch notes).foldl
        Outcome.perform ⟨db, []⟩) id := by
  intro id hid
  obtain ⟨s, hs⟩ := Option.isSome_iff_exists.mp (hrows id hid)
  obtain ⟨orders, hids, hafter⟩ := revertAndRefeed_spec hnotes hparse
    (db.updateOrdersStatus batch.ids .settling)
  refine Or.inr (Or.inr ?_)
  rw [List.foldl_cons, Outcome.perform, hafter, hids]
  exact ⟨by simp [hs, hid], List.count_eq_one_of_mem hnodup hid⟩

/-- After a classification an order was reported and is nullified, or is active and was
re-sent once. -/
theorem resolved_classify {consumedIds : List OrderId}
    (hcheck : answers.checkConsumed = some consumedIds)
    (hnotes : Notes api batch.filledNotes notes) (hparse : ParsesAll api batch.filledNotes)
    (hnodup : batch.ids.Nodup) (hrows : ∀ id ∈ batch.ids, (db.statusOf id).isSome = true)
    (submitted : Bool) :
    ∀ id ∈ batch.ids, Resolved db submitted consumedIds
      ((.updateStatus batch.ids .settling :: classifyAndRefeed api answers batch notes).foldl
        Outcome.perform ⟨db, []⟩) id := by
  intro id hid
  obtain ⟨s, hs⟩ := Option.isSome_iff_exists.mp (hrows id hid)
  obtain ⟨after, hafter, hsent, hstatus⟩ := classifyAndRefeed_spec hcheck hnotes hparse
    (db.updateOrdersStatus batch.ids .settling)
  have hstatus := hstatus id hid
  rw [List.foldl_cons, Outcome.perform, hafter, Resolved, hsent, hstatus,
    Database.statusOf_updateOrdersStatus, hs]
  by_cases hc : id ∈ consumedIds
  · refine Or.inr (Or.inl ⟨by simp [hc, hid], Or.inl hc, ?_⟩)
    exact List.count_eq_zero.mpr (by simp [hc])
  · refine Or.inr (Or.inr ⟨by simp [hc], ?_⟩)
    exact List.count_eq_one_of_mem (hnodup.filter _) (List.mem_filter.mpr ⟨hid, by simpa using hc⟩)

/-- **When a batch leaves no order behind.**  For every batch of distinct notes that parse
as orders and have rows, and whatever the chain answers short of a shutdown, all orders of
the batch are resolved iff the batch is recoverable. -/
theorem execute_batch_resolves_iff (api : NoteApi Note) (answers : ExecutorAnswers)
    (batch : ExecutionBatch) (db : Database) (hne : batch.filledNotes ≠ [])
    (hnodup : batch.ids.Nodup) (hparse : ParsesAll api batch.filledNotes)
    (hrows : ∀ id ∈ batch.ids, (db.statusOf id).isSome = true)
    (hrunning : submitWithRpcBackoff answers.attempts ≠ .cancelled) :
    (∀ id ∈ batch.ids, Resolved db (executeBatch api answers batch).2
      (answers.checkConsumed.getD []) (runBatch api answers batch db) id) ↔
    Recoverable api answers batch db := by
  unfold Recoverable runBatch executeBatch
  cases hprep : prepareBatchComponents api batch answers.flowOrder with
  | error e =>
    -- nothing was written and nothing sent
    refine forall₂_congr fun id hid => ?_
    simp only [Resolved, List.foldl_nil, List.map_nil, List.count_nil, Bool.false_eq_true]
    grind
  | ok components =>
    have hnotes := prepareBatchComponents_notes hprep
    dsimp only
    cases hsubmit : submitWithRpcBackoff answers.attempts with
    | cancelled => exact absurd hsubmit hrunning
    | success =>
      refine iff_of_true (fun id hid => Or.inl ?_) nofun
      obtain ⟨s, hs⟩ := Option.isSome_iff_exists.mp (hrows id hid)
      simp [Outcome.perform, hs, hid]
    | rpcExhausted => exact iff_of_true (resolved_revert hnotes hparse hnodup hrows _ _) nofun
    | buildFailed => exact iff_of_true (resolved_revert hnotes hparse hnodup hrows _ _) nofun
    | txError =>
      cases hcheck : answers.checkConsumed with
      | some consumedIds =>
        exact iff_of_true (resolved_classify hcheck hnotes hparse hnodup hrows _) fun _ => rfl
      | none =>
        -- every order is left `Settling`, and there is one
        refine iff_of_false (fun h => ?_) (by simp)
        obtain ⟨f, filled, hfilled⟩ := List.exists_cons_of_ne_nil hne
        have hid : f.noteId ∈ batch.ids := by simp [ExecutionBatch.ids, hfilled]
        obtain ⟨s, hs⟩ := Option.isSome_iff_exists.mp (hrows _ hid)
        have hres := h _ hid
        rw [classifyAndRefeed, hcheck] at hres
        simp [Resolved, Outcome.perform, hs, hid] at hres

end Batch

/-! ## What a batch touches -/

/-- The notes an action is about. -/
def ExecutorAction.ids : ExecutorAction → List OrderId
  | updateStatus ids _ => ids
  | markNullified ids => ids
  | resend order => [order.noteId]

/-- The notes that a list of actions re-sends, in order. -/
def resent (actions : List ExecutorAction) : List OrderId :=
  actions.filterMap fun
    | .resend order => some order.noteId
    | _ => none

@[simp] theorem resent_refeedOrders (orders : List IngestOrder) :
    resent (refeedOrders orders) = orders.map IngestOrder.noteId := by
  induction orders with
  | nil => rfl
  | cons o orders ih => exact congrArg _ ih

theorem mem_refeedOrders_ids {orders : List IngestOrder} {a : ExecutorAction}
    (ha : a ∈ refeedOrders orders) : a.ids ⊆ orders.map IngestOrder.noteId := by
  obtain ⟨o, ho, rfl⟩ := List.mem_map.mp ha
  exact fun id hid => List.mem_singleton.mp hid ▸ List.mem_map_of_mem ho

theorem zip_pairIds_sublist (filled : List FilledNote) (notes : List Note) :
    (pairIds (filled.zip notes)).Sublist (filled.map FilledNote.noteId) := by
  refine List.Sublist.map _ ?_
  induction filled generalizing notes with
  | nil => exact List.nil_sublist _
  | cons f filled ih =>
    cases notes with
    | nil => exact List.nil_sublist _
    | cons n notes => exact (ih notes).cons_cons f

section Touches
variable {api : NoteApi Note} {answers : ExecutorAnswers} {batch : ExecutionBatch}
  {notes : List Note}

/-- The actions keep to the notes of the batch, and re-send each at most once. -/
def WithinBatch (batch : ExecutionBatch) (actions : List ExecutorAction) : Prop :=
  (∀ a ∈ actions, a.ids ⊆ batch.ids) ∧ (resent actions).Sublist batch.ids

theorem WithinBatch.cons_update {actions : List ExecutorAction} (h : WithinBatch batch actions)
    {ids : List OrderId} (hids : ids ⊆ batch.ids) (status : OrderStatus) :
    WithinBatch batch (.updateStatus ids status :: actions) :=
  ⟨List.forall_mem_cons.mpr ⟨hids, h.1⟩, h.2⟩

theorem withinBatch_nil : WithinBatch batch [] := ⟨nofun, List.nil_sublist _⟩

theorem withinBatch_refeed {orders : List IngestOrder}
    (h : (orders.map IngestOrder.noteId).Sublist batch.ids) :
    WithinBatch batch (refeedOrders orders) :=
  ⟨fun _ ha => List.Subset.trans (mem_refeedOrders_ids ha) h.subset,
    (resent_refeedOrders orders).symm ▸ h⟩

theorem withinBatch_revert : WithinBatch batch (revertAndRefeed api batch notes) := by
  unfold revertAndRefeed
  refine WithinBatch.cons_update ?_ (List.Subset.refl _) _
  split
  · rename_i orders horders
    refine withinBatch_refeed ?_
    rw [rebuildAllOrders_ids horders]
    exact zip_pairIds_sublist _ _
  · exact withinBatch_nil

theorem withinBatch_classify : WithinBatch batch (classifyAndRefeed api answers batch notes) := by
  unfold classifyAndRefeed
  split
  · exact withinBatch_nil
  split
  · exact withinBatch_nil
  rename_i c hc
  obtain ⟨hconsumed, hactive, horders⟩ := classifyInputNotes_ids hc
  have hsub := zip_pairIds_sublist batch.filledNotes notes
  have hc : c.consumed ⊆ batch.ids := hconsumed ▸ (List.filter_sublist.trans hsub).subset
  have ha : c.active.Sublist batch.ids := hactive ▸ List.filter_sublist.trans hsub
  have hrefeed : WithinBatch batch (refeedOrders c.activeOrders) :=
    withinBatch_refeed (horders ▸ ha)
  have hupdate : WithinBatch batch
      ((if c.active = [] then [] else [.updateStatus c.active .active]) ++
        refeedOrders c.activeOrders) := by
    split
    · exact hrefeed
    · exact hrefeed.cons_update ha.subset _
  split
  · exact hupdate
  · exact ⟨List.forall_mem_cons.mpr ⟨hc, hupdate.1⟩, hupdate.2⟩

/-- **A batch touches its own notes only**, and re-sends each at most once. -/
theorem withinBatch_executeBatch : WithinBatch batch (executeBatch api answers batch).1 := by
  unfold executeBatch
  split
  · exact withinBatch_nil
  dsimp only
  split
  · exact (withinBatch_nil.cons_update (List.Subset.refl _) _).cons_update (List.Subset.refl _) _
  · exact withinBatch_revert.cons_update (List.Subset.refl _) _
  · exact withinBatch_revert.cons_update (List.Subset.refl _) _
  · exact withinBatch_nil.cons_update (List.Subset.refl _) _
  · exact withinBatch_classify.cons_update (List.Subset.refl _) _

end Touches

/-! ### Orders left behind -/

/-- The rows of the two crossing orders, both active. -/
def activeRows : Database where
  orders := Finmap.insert 2 ⟨crossingTerms 2, .active⟩
    (Finmap.insert 1 ⟨crossingTerms 1, .active⟩ ∅)
  notes := Finmap.insert 2 [2] (Finmap.insert 1 [1] ∅)
  lastFetchedBlock := 0

/-- Order 1 filled on its own: nobody brings the 5 of token 2 it is to be paid. -/
def insolventBatch : ExecutionBatch := ⟨[⟨1, 5, [1], 0⟩]⟩

/-- Both orders filled, which leaves 3 of token 1 and 1 of token 2. -/
def solventBatch : ExecutionBatch := ⟨[⟨1, 5, [1], 0⟩, ⟨2, 7, [2], 0⟩]⟩

/-- A chain on which every submit comes to `attempt`, and which cannot be asked for
consumed notes. -/
def uncheckable (attempt : Attempt) : ExecutorAnswers := ⟨[1, 2], fun _ => attempt, none⟩

/-- **Orders are left behind on two exits**: an insolvent batch leaves its order active and
not re-sent, a rejected one that cannot be checked leaves its orders settling. -/
theorem batches_leave_orders_behind :
    ((runBatch exactApi (uncheckable .landed) insolventBatch activeRows).db.statusOf 1 =
        some .active ∧
      (runBatch exactApi (uncheckable .landed) insolventBatch activeRows).sent = [] ∧
      ¬ Resolved activeRows (executeBatch exactApi (uncheckable .landed) insolventBatch).2 []
        (runBatch exactApi (uncheckable .landed) insolventBatch activeRows) 1) ∧
    ((runBatch exactApi (uncheckable .rejected) solventBatch activeRows).db.statusOf 1 =
        some .settling ∧
      ¬ Resolved activeRows (executeBatch exactApi (uncheckable .rejected) solventBatch).2 []
        (runBatch exactApi (uncheckable .rejected) solventBatch activeRows) 1) := by
  decide

theorem crossing_parses {byte : UInt8} : ∃ terms, ParsesTo exactApi [byte] terms :=
  ⟨crossingTerms byte.toNat, crossingTerms byte.toNat, rfl, exactApi_orderFromNote _⟩

/-- A chain that cannot be reached sends both orders back to the matcher. -/
theorem execute_batch_resolves_unreachable :
    (runBatch exactApi (uncheckable (.rpcError false)) solventBatch activeRows).sent.map
      IngestOrder.noteId = [1, 2] ∧
    ∀ id ∈ solventBatch.ids, Resolved activeRows
      (executeBatch exactApi (uncheckable (.rpcError false)) solventBatch).2 []
      (runBatch exactApi (uncheckable (.rpcError false)) solventBatch activeRows) id := by
  refine ⟨by decide, (execute_batch_resolves_iff exactApi (uncheckable (.rpcError false))
    solventBatch activeRows (by decide) (by decide) ?_ (by decide) (by decide)).mpr ?_⟩
  · intro f hf
    rcases List.mem_pair.mp hf with rfl | rfl
    · exact crossing_parses
    · exact crossing_parses
  · exact fun h => absurd h (by decide)

end PswapSolver
