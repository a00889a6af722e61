import PswapSolver.FiniteMap
import PswapSolver.Order

/-! # Notes and messages

What travels between the tasks of the solver (`types.rs`), and the little it uses of
the Miden libraries.  Those libraries are not part of the repository, so they are a
parameter: `NoteApi` gives the functions the solver calls on notes, and nothing is
assumed of them here.  An assumption a result needs is a hypothesis of that result.
-/
namespace PswapSolver

/-- Serialized note data. -/
abbrev Bytes := List UInt8

/-- What `PswapNote::try_from` reads from a note: the offered and the requested asset,
both amounts being `u64`. -/
structure PswapNote where
  offeredToken : TokenId
  offeredAmount : Nat
  requestedToken : TokenId
  requestedAmount : Nat
  offered_lt : offeredAmount < 2 ^ 64
  requested_lt : requestedAmount < 2 ^ 64

/-- **The note functions of the Miden libraries.**  A function that may fail returns an
option, or a flag when only its success matters. -/
structure NoteApi (Note : Type) where
  /-- `Note::read_from` -/
  readFrom : Bytes → Option Note
  /-- `PswapNote::try_from` -/
  pswap : Note → Option PswapNote
  /-- `FungibleAsset::new` succeeds. -/
  fungibleAsset : TokenId → Nat → Bool
  /-- `PswapNote::create_args(0, fill)` succeeds. -/
  createArgs : Nat → Bool
  /-- `PswapNote::execute` with a fill: the amount of the payback note, and that of the
  remainder note if there is one. -/
  execute : Note → Nat → Option (Nat × Option Nat)

/-- `Order::from_note`: the terms of a PSWAP note, unless an amount is zero. -/
def orderFromNote {Note : Type} (api : NoteApi Note) (note : Note) : Option OrderTerms :=
  match api.pswap note with
  | none => none
  | some p =>
    if h : 0 < p.offeredAmount ∧ 0 < p.requestedAmount then
      some ⟨p.offeredToken, p.requestedToken, p.offeredAmount, p.requestedAmount, h.1, h.2,
        p.offered_lt, p.requested_lt⟩
    else none

/-- An order with its raw note data, flowing from ingest to the matcher. -/
structure IngestOrder where
  noteId : OrderId
  terms : OrderTerms
  rawNoteData : Bytes
deriving DecidableEq

/-- A filled note with its fill amount, flowing from the matcher to the executor. -/
structure FilledNote where
  noteId : OrderId
  requestedFilled : Nat
  rawNoteData : Bytes
  arrivalUnix : Nat
deriving DecidableEq

/-- A batch of matched orders to be executed together. -/
structure ExecutionBatch where
  filledNotes : List FilledNote
deriving DecidableEq

namespace ExecutionBatch

/-- The ids of the notes in a batch. -/
def ids (batch : ExecutionBatch) : List OrderId := batch.filledNotes.map FilledNote.noteId

end ExecutionBatch

end PswapSolver
