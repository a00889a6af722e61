import PswapSolver.Executor
import PswapSolver.Matcher
import PswapSolver.Runs

/-! # The pipeline

Ingest, matcher and executor run concurrently and share the database and three first-in
first-out channels.  This module models `ingest_once` (`ingest/ingest.rs`) and puts the
three tasks together.  A step of the pipeline is one database transaction, one channel
operation or one phase of the matcher; between any two of them the other tasks may act.
A reboot, after a crash or a shutdown, loses everything but the database, in which it
puts the `Settling` rows back to `Active`.

The answers of the chain to the executor are fixed when it takes a batch: no other task
sees them before the executor acts on them.
-/
namespace PswapSolver
open Runs
variable {Note : Type}

/-! ## Ingest -/

/-- A note found by a sync, with what ingest looks at: its id, whether it has the PSWAP
script, and its serialized bytes. -/
structure NewNote (Note : Type) where
  id : OrderId
  note : Note
  pswapScript : Bool
  bytes : Bytes

/-- What `sync_state` returns. -/
structure SyncResult (Note : Type) where
  blockNum : Nat
  newNotes : List (NewNote Note)
  consumedNotes : List OrderId

/-- The PSWAP orders among the new notes; a note that does not parse is skipped. -/
def ingestOrders (api : NoteApi Note) (newNotes : List (NewNote Note)) : List IngestOrder :=
  newNotes.filterMap fun n =>
    if n.pswapScript then (orderFromNote api n.note).map fun terms => ⟨n.id, terms, n.bytes⟩
    else none

/-- Where ingest stands in an iteration: reporting consumed notes, or sending orders. -/
inductive Ingest (Note : Type) where
  | idle
  | reporting (sync : SyncResult Note) (pending : List OrderId)
  | sending (sync : SyncResult Note) (pending : List IngestOrder)

/-- The orders ingest has committed and not yet sent. -/
def Ingest.unsent : Ingest Note → List IngestOrder
  | sending _ pending => pending
  | _ => []

/-- The notes the current iteration reports as consumed. -/
def Ingest.reported : Ingest Note → List OrderId
  | idle => []
  | reporting sync _ => sync.consumedNotes
  | sending sync _ => sync.consumedNotes

/-! ## The state -/

/-- A batch in the hands of the executor: the notes it has not given back, and the actions
still to come. -/
structure ExecutorTask where
  held : List OrderId
  pending : List ExecutorAction

/-- The state of the solver. -/
structure Pipeline (Note : Type) where
  db : Database
  ingest : Ingest Note
  orderCh : List IngestOrder
  consumedCh : List OrderId
  matcher : Matcher
  execCh : List ExecutionBatch
  executor : Option ExecutorTask

/-- The solver right after `prepare_db`: the database recovered, the tasks not yet started. -/
def Pipeline.boot (db : Database) (feed : PriceFeed) (triangularEnabled : Bool)
    (router : Option RouterHooks) : Pipeline Note where
  db := db.resetAllSettlingToActive
  ingest := .idle
  orderCh := []
  consumedCh := []
  matcher := Matcher.new feed triangularEnabled router
  execCh := []
  executor := none

/-! ## The steps -/

/-- What happens in a step. -/
inductive PipelineEvent (Note : Type) where
  | sync (result : SyncResult Note)
  | report (id : OrderId)
  | insert
  | send (order : IngestOrder)
  | finish
  | matcher (event : MatcherEvent)
  | take (batch : ExecutionBatch)
  | act (action : ExecutorAction)
  | done
  | reboot

namespace Pipeline

/-- The channels and the database as a step of the matcher uses them. -/
def Exchanged (p : Pipeline Note) (p' : Pipeline Note) : MatcherEvent → Prop
  -- a failed query loads nothing
  | .hydrate loaded => (p.db.LoadsActive loaded ∨ loaded = []) ∧ p' = p
  | .consume id => ∃ rest, p.consumedCh = id :: rest ∧ p' = { p with consumedCh := rest }
  | .consumedEmpty => p.consumedCh = [] ∧ p' = p
  | .receive order => ∃ rest, p.orderCh = order :: rest ∧ p' = { p with orderCh := rest }
  | .ordersEmpty => p.orderCh = [] ∧ p' = p
  | .execute (some batch) => p' = { p with execCh := p.execCh ++ [batch] }
  | _ => p' = p

/-- One action of the executor; a re-sent note is no longer in its hands. -/
def perform (p : Pipeline Note) (held : List OrderId) (rest : List ExecutorAction) :
    ExecutorAction → Pipeline Note
  | .updateStatus ids status =>
    { p with db := p.db.updateOrdersStatus ids status, executor := some ⟨held, rest⟩ }
  | .markNullified ids =>
    { p with db := p.db.markOrdersOnchainNullified ids, executor := some ⟨held, rest⟩ }
  | .resend order =>
    { p with
      orderCh := p.orderCh ++ [order]
      executor := some ⟨held.filter (· ≠ order.noteId), rest⟩ }

/-- **The steps of the pipeline.** -/
inductive Step (api : NoteApi Note) : Pipeline Note → PipelineEvent Note → Pipeline Note → Prop
  /-- The database is updated first, so that it is right if the rest is lost. -/
  | sync {p : Pipeline Note} (result : SyncResult Note) (idle : p.ingest = .idle) :
      Step api p (.sync result)
        { p with
          db := p.db.markOrdersOnchainNullified result.consumedNotes
          ingest := .reporting result result.consumedNotes }
  | report {p : Pipeline Note} {result : SyncResult Note} {id : OrderId} {rest : List OrderId}
      (reporting : p.ingest = .reporting result (id :: rest)) :
      Step api p (.report id)
        { p with consumedCh := p.consumedCh ++ [id], ingest := .reporting result rest }
  /-- Only orders seen for the first time are forwarded. -/
  | insert {p : Pipeline Note} {result : SyncResult Note}
      (reporting : p.ingest = .reporting result [])
      (some_new : ingestOrders api result.newNotes ≠ []) :
      Step api p .insert
        { p with
          db := (p.db.insertNotesBatch (ingestOrders api result.newNotes) result.blockNum).2
          ingest := .sending result ((ingestOrders api result.newNotes).filter fun o =>
            decide (o.noteId ∈
              (p.db.insertNotesBatch (ingestOrders api result.newNotes) result.blockNum).1)) }
  | send {p : Pipeline Note} {result : SyncResult Note} {order : IngestOrder}
      {rest : List IngestOrder} (sending : p.ingest = .sending result (order :: rest)) :
      Step api p (.send order)
        { p with orderCh := p.orderCh ++ [order], ingest := .sending result rest }
  | finish {p : Pipeline Note} {result : SyncResult Note}
      (sending : p.ingest = .sending result []) : Step api p .finish { p with ingest := .idle }
  /-- There was nothing to insert, or the transaction failed. -/
  | finishEarly {p : Pipeline Note} {result : SyncResult Note}
      (reporting : p.ingest = .reporting result []) : Step api p .finish { p with ingest := .idle }
  | matcher {p p' : Pipeline Note} {i : MatcherInputs} {event : MatcherEvent} {m' : Matcher}
      (step : Matcher.Step i p.matcher event m') (exchanged : p.Exchanged p' event) :
      Step api p (.matcher event) { p' with matcher := m' }
  | takeEmpty {p : Pipeline Note} {rest : List ExecutionBatch} (idle : p.executor = none)
      (queued : p.execCh = ⟨[]⟩ :: rest) : Step api p (.take ⟨[]⟩) { p with execCh := rest }
  | take {p : Pipeline Note} {batch : ExecutionBatch} {rest : List ExecutionBatch}
      (answers : ExecutorAnswers) (idle : p.executor = none) (queued : p.execCh = batch :: rest)
      (some_filled : batch.filledNotes ≠ []) :
      Step api p (.take batch)
        { p with
          execCh := rest
          executor := some ⟨batch.ids, (executeBatch api answers batch).1⟩ }
  | act {p : Pipeline Note} {held : List OrderId} {action : ExecutorAction}
      {rest : List ExecutorAction} (busy : p.executor = some ⟨held, action :: rest⟩) :
      Step api p (.act action) (p.perform held rest action)
  | done {p : Pipeline Note} {held : List OrderId} (busy : p.executor = some ⟨held, []⟩) :
      Step api p .done { p with executor := none }
  | reboot {p : Pipeline Note} (feed : PriceFeed) (triangularEnabled : Bool)
      (router : Option RouterHooks) : Step api p .reboot (boot p.db feed triangularEnabled router)

section Matcher
variable {api : NoteApi Note} {p : Pipeline Note} {i : MatcherInputs} {m' : Matcher}

/-- A step of the matcher that leaves the channels alone. -/
theorem Step.matcher_alone {e : MatcherEvent} (h : Matcher.Step i p.matcher e m')
    (hexch : p.Exchanged p e) : Step api p (.matcher e) { p with matcher := m' } :=
  .matcher h hexch

theorem Step.matcher_consume {id : OrderId} {rest : List OrderId}
    (h : Matcher.Step i p.matcher (.consume id) m') (hch : p.consumedCh = id :: rest) :
    Step api p (.matcher (.consume id)) { p with matcher := m', consumedCh := rest } :=
  have hexch : p.Exchanged { p with consumedCh := rest } (.consume id) := ⟨rest, hch, rfl⟩
  Step.matcher h hexch

theorem Step.matcher_receive {order : IngestOrder} {rest : List IngestOrder}
    (h : Matcher.Step i p.matcher (.receive order) m') (hch : p.orderCh = order :: rest) :
    Step api p (.matcher (.receive order)) { p with matcher := m', orderCh := rest } :=
  have hexch : p.Exchanged { p with orderCh := rest } (.receive order) := ⟨rest, hch, rfl⟩
  Step.matcher h hexch

theorem Step.matcher_emit {batch : ExecutionBatch}
    (h : Matcher.Step i p.matcher (.execute (some batch)) m') :
    Step api p (.matcher (.execute (some batch)))
      { p with matcher := m', execCh := p.execCh ++ [batch] } :=
  have hexch : p.Exchanged { p with execCh := p.execCh ++ [batch] } (.execute (some batch)) := rfl
  Step.matcher h hexch

end Matcher

/-! ## What the matcher's exchanges leave alone -/

section Frame
variable {p p' : Pipeline Note} {e : MatcherEvent}

/-- A step of the matcher appends the batch it emits to the executor's channel and takes
what it receives from the head of its own. -/
theorem Exchanged.frame (h : p.Exchanged p' e) :
    p'.db = p.db ∧ p'.ingest = p.ingest ∧ p'.executor = p.executor ∧
    (∃ sent, p'.execCh = p.execCh ++ sent ∧ sent.flatMap ExecutionBatch.ids = e.executes) ∧
    p.orderCh = e.received ++ p'.orderCh := by
  have hquiet : p' = p → e.executes = [] → e.received = [] → p'.db = p.db ∧ p'.ingest = p.ingest ∧
      p'.executor = p.executor ∧
      (∃ sent, p'.execCh = p.execCh ++ sent ∧ sent.flatMap ExecutionBatch.ids = e.executes) ∧
      p.orderCh = e.received ++ p'.orderCh := by
    rintro rfl hexec hrec
    rw [hexec, hrec]
    exact ⟨rfl, rfl, rfl, ⟨[], (List.append_nil _).symm, rfl⟩, rfl⟩
  cases e with
  | hydrate loaded => exact hquiet h.2 rfl rfl
  | wake => exact hquiet h rfl rfl
  | consume id =>
    obtain ⟨rest, -, rfl⟩ := h
    exact ⟨rfl, rfl, rfl, ⟨[], (List.append_nil _).symm, rfl⟩, rfl⟩
  | consumedEmpty => exact hquiet h.2 rfl rfl
  | receive order =>
    obtain ⟨rest, hrest, rfl⟩ := h
    exact ⟨rfl, rfl, rfl, ⟨[], (List.append_nil _).symm, rfl⟩, hrest⟩
  | ordersEmpty => exact hquiet h.2 rfl rfl
  | execute batch =>
    cases batch with
    | none => exact hquiet h rfl rfl
    | some batch =>
      subst h
      exact ⟨rfl, rfl, rfl, ⟨[batch], rfl, List.append_nil _⟩, rfl⟩
  | route batch => exact hquiet h rfl rfl
  | stop => exact hquiet h rfl rfl

/-- **What a step writes to the database**: nothing, or one statement of one task. -/
theorem Step.db_cases {api : NoteApi Note} {e : PipelineEvent Note} (h : Step api p e p') :
    p'.db = p.db ∨
    (∃ result, e = .sync result ∧
      p'.db = p.db.markOrdersOnchainNullified result.consumedNotes) ∨
    (∃ result : SyncResult Note, e = .insert ∧
      p'.db = (p.db.insertNotesBatch (ingestOrders api result.newNotes) result.blockNum).2) ∨
    (∃ ids status, e = .act (.updateStatus ids status) ∧
      p'.db = p.db.updateOrdersStatus ids status) ∨
    (∃ ids, e = .act (.markNullified ids) ∧ p'.db = p.db.markOrdersOnchainNullified ids) ∨
    (e = .reboot ∧ p'.db = p.db.resetAllSettlingToActive) := by
  cases h with
  | sync result _ => exact Or.inr (Or.inl ⟨result, rfl, rfl⟩)
  | @insert result _ _ => exact Or.inr (Or.inr (Or.inl ⟨result, rfl, rfl⟩))
  | matcher _ hexch => exact Or.inl hexch.frame.1
  | @act held action rest _ =>
    cases action with
    | updateStatus ids status => exact Or.inr (Or.inr (Or.inr (Or.inl ⟨ids, status, rfl, rfl⟩)))
    | markNullified ids => exact Or.inr (Or.inr (Or.inr (Or.inr (Or.inl ⟨ids, rfl, rfl⟩))))
    | resend order => exact Or.inl rfl
  | reboot _ _ _ => exact Or.inr (Or.inr (Or.inr (Or.inr (Or.inr ⟨rfl, rfl⟩))))
  | report _ => exact Or.inl rfl
  | send _ => exact Or.inl rfl
  | finish _ => exact Or.inl rfl
  | finishEarly _ => exact Or.inl rfl
  | takeEmpty _ _ => exact Or.inl rfl
  | take _ _ _ _ => exact Or.inl rfl
  | done _ => exact Or.inl rfl

end Frame

end Pipeline

end PswapSolver
