import PswapSolver.Codec
import PswapSolver.Router

/-! # The RFQ wire protocol

The model of `lp-sdk/src/protocol.rs`.  A message is a tag byte and its fields; the fields
are written by codecs that are not part of the repository, so they are parameters
(`Components`), each with its round trip.

There are two encoders of a handover, one from the typed note and one from bytes the
router keeps, and one decoder for both.  `rfq_codec_round_trip` says that they agree.
-/
namespace PswapSolver.Wire
open Codecs

/-- Why a frame cannot be decoded. -/
inductive DeserializationError where
  | invalidValue (msg : String)
  | unexpectedEof
deriving DecidableEq

/-- A codec of a field. -/
abbrev FieldCodec (α : Type) := Codec DeserializationError α

/-- Reads from the front of a frame. -/
abbrev Source (α : Type) := Reader DeserializationError α

/-- **The codecs of the fields.** -/
structure Components (AccountId Asset Note : Type) where
  accountId : FieldCodec AccountId
  fungibleAsset : FieldCodec Asset
  note : FieldCodec Note
  u64 : FieldCodec UInt64
  option : {α : Type} → FieldCodec α → FieldCodec (Option α)
  vec : {α : Type} → FieldCodec α → FieldCodec (List α)
  string : FieldCodec String

/-! The components can be had, for instance from numbers in unary. -/

/-- Numbers. -/
def natCodec : FieldCodec Nat := .nat .unexpectedEof

/-- Assets, as lists of two numbers. -/
def assetCodec : FieldCodec PswapSolver.Asset :=
  (Codec.list .unexpectedEof natCodec).ofLeftInverse (fun a => [a.faucetId, a.amount])
    (fun l => ⟨l.headD 0, l.tail.headD 0⟩) fun _ => rfl

/-- Characters, by their code points. -/
def charCodec : FieldCodec Char := natCodec.ofLeftInverse Char.toNat Char.ofNat Char.ofNat_toNat

instance : Inhabited (Components Nat PswapSolver.Asset Nat) where
  default :=
    { accountId := natCodec
      fungibleAsset := assetCodec
      note := natCodec
      u64 := natCodec.ofLeftInverse UInt64.toNat UInt64.ofNat fun _ => UInt64.ofNat_toNat
      option := fun c => (Codec.list .unexpectedEof c).ofLeftInverse Option.toList List.head?
        fun _ => Option.head?_toList
      vec := Codec.list .unexpectedEof
      string := (Codec.list .unexpectedEof charCodec).ofLeftInverse String.toList String.ofList
        fun _ => String.ofList_toList }

def readU8 : Source UInt8 := Codecs.readU8 .unexpectedEof

variable {AccountId Asset Note : Type}

/-! ## Pairs -/

/-- A trading pair, from the side of the filler. -/
structure PairSpec (AccountId : Type) where
  offered : AccountId
  requested : AccountId
deriving DecidableEq

namespace PairSpec
variable (c : Components AccountId Asset Note)

def writeInto (p : PairSpec AccountId) : Bytes :=
  c.accountId.write p.offered ++ c.accountId.write p.requested

def readFrom : Source (PairSpec AccountId) := do
  let offered ← c.accountId.read
  let requested ← c.accountId.read
  return ⟨offered, requested⟩

theorem reads (p : PairSpec AccountId) : Reads (readFrom c) (p.writeInto c) p :=
  (c.accountId.reads p.offered).bind ((c.accountId.reads p.requested).map (PairSpec.mk p.offered))

def codec : FieldCodec (PairSpec AccountId) := ⟨writeInto c, readFrom c, reads c⟩

end PairSpec

/-! ## Client to server -/

/-- What a DEX sends. -/
inductive ClientMsg (Asset : Type) where
  | quote (offered requested : Asset) (validForMs : Option UInt64)
deriving DecidableEq

namespace ClientMsg
variable (c : Components AccountId Asset Note)

def QUOTE : UInt8 := 0

def writeInto : ClientMsg Asset → Bytes
  | quote offered requested validForMs =>
    [QUOTE] ++ (c.fungibleAsset.write offered ++ (c.fungibleAsset.write requested ++
      (c.option c.u64).write validForMs))

/-- The fields after the tag. -/
def readFields (tag : UInt8) : Source (ClientMsg Asset) :=
  if tag = QUOTE then do
    let offered ← c.fungibleAsset.read
    let requested ← c.fungibleAsset.read
    let validForMs ← (c.option c.u64).read
    return quote offered requested validForMs
  else throw (.invalidValue s!"unknown ClientMsg tag {tag}")

def readFrom : Source (ClientMsg Asset) := do
  let tag ← readU8
  readFields c tag

theorem reads (m : ClientMsg Asset) : Reads (readFrom c) (m.writeInto c) m := by
  cases m with
  | quote offered requested validForMs =>
    refine (reads_readU8 _ QUOTE).bind ?_
    exact (c.fungibleAsset.reads offered).bind ((c.fungibleAsset.reads requested).bind
      (((c.option c.u64).reads validForMs).map (quote offered requested)))

def codec : FieldCodec (ClientMsg Asset) := ⟨writeInto c, readFrom c, reads c⟩

theorem readFrom_unknown {tag : UInt8} (htag : tag ≠ QUOTE) (rest : Bytes) :
    (readFrom c).run (tag :: rest) =
      .error (.invalidValue s!"unknown ClientMsg tag {tag}") := by
  show (readFields c tag).run rest = _
  rw [readFields, if_neg htag]
  rfl

end ClientMsg

/-! ## Server to client -/

/-- What the router sends. -/
inductive ServerMsg (AccountId Note : Type) where
  | authOk
  | ask (pairs : List (PairSpec AccountId))
  | handover (note : Note) (fillAmount : UInt64)
  | error (code msg : String)
deriving DecidableEq

namespace ServerMsg
variable (c : Components AccountId Asset Note)

def AUTH_OK : UInt8 := 0

def ASK : UInt8 := 1

def HANDOVER : UInt8 := 2

def ERROR : UInt8 := 3

def writeInto : ServerMsg AccountId Note → Bytes
  | authOk => [AUTH_OK]
  | ask pairs => [ASK] ++ (c.vec (PairSpec.codec c)).write pairs
  | handover note fillAmount => [HANDOVER] ++ (c.note.write note ++ c.u64.write fillAmount)
  | error code msg => [ERROR] ++ (c.string.write code ++ c.string.write msg)

/-- The fields after the tag. -/
def readFields (tag : UInt8) : Source (ServerMsg AccountId Note) :=
  if tag = AUTH_OK then return authOk
  else if tag = ASK then do
    let pairs ← (c.vec (PairSpec.codec c)).read
    return ask pairs
  else if tag = HANDOVER then do
    let note ← c.note.read
    let fillAmount ← c.u64.read
    return handover note fillAmount
  else if tag = ERROR then do
    let code ← c.string.read
    let msg ← c.string.read
    return error code msg
  else throw (.invalidValue s!"unknown ServerMsg tag {tag}")

def readFrom : Source (ServerMsg AccountId Note) := do
  let tag ← readU8
  readFields c tag

theorem reads (m : ServerMsg AccountId Note) : Reads (readFrom c) (m.writeInto c) m := by
  cases m with
  | authOk => exact (reads_readU8 _ AUTH_OK).bind (.pure authOk)
  | ask pairs =>
    refine (reads_readU8 _ ASK).bind ?_
    exact ((c.vec (PairSpec.codec c)).reads pairs).map ask
  | handover note fillAmount =>
    refine (reads_readU8 _ HANDOVER).bind ?_
    exact (c.note.reads note).bind ((c.u64.reads fillAmount).map (handover note))
  | error code msg =>
    refine (reads_readU8 _ ERROR).bind ?_
    exact (c.string.reads code).bind ((c.string.reads msg).map (error code))

def codec : FieldCodec (ServerMsg AccountId Note) := ⟨writeInto c, readFrom c, reads c⟩

/-- The tags in use. -/
def tags : List UInt8 := [AUTH_OK, ASK, HANDOVER, ERROR]

theorem readFrom_unknown {tag : UInt8} (htag : tag ∉ tags) (rest : Bytes) :
    (readFrom c).run (tag :: rest) =
      .error (.invalidValue s!"unknown ServerMsg tag {tag}") := by
  simp only [tags, List.mem_cons, List.not_mem_nil, or_false, not_or] at htag
  obtain ⟨hauth, hask, hhandover, herror⟩ := htag
  show (readFields c tag).run rest = _
  rw [readFields, if_neg hauth, if_neg hask, if_neg hhandover, if_neg herror]
  rfl

end ServerMsg

/-- The wire frame of a handover, from the bytes of the note. -/
def handoverFrame (c : Components AccountId Asset Note) (noteBytes : Bytes) (fillAmount : UInt64) :
    Bytes :=
  [ServerMsg.HANDOVER] ++ noteBytes ++ c.u64.write fillAmount

/-- Decodes a frame; what comes after the message is ignored. -/
def readFromBytes {α : Type} (read : Source α) (bytes : Bytes) : Except DeserializationError α :=
  readAll read bytes

theorem handoverFrame_eq (c : Components AccountId Asset Note) (note : Note) (fillAmount : UInt64) :
    handoverFrame c (c.note.write note) fillAmount =
      (ServerMsg.handover note fillAmount : ServerMsg AccountId Note).writeInto c :=
  List.append_assoc ..

/-- **The wire codec round-trips.**  Whatever the components are, as long as each reads back
what it writes: every message of either kind is read back from its encoding and leaves what
follows; no encoding is the start of another message's; the frame of a handover made from
bytes is the encoding of the typed handover, and is decoded to it; and a frame that starts with
an unknown tag is rejected, with the tag in the error. -/
theorem rfq_codec_round_trip (c : Components AccountId Asset Note) :
    (∀ (m : ClientMsg Asset) (rest : Bytes),
      (ClientMsg.readFrom c).run (m.writeInto c ++ rest) = .ok (m, rest)) ∧
    (∀ (m : ServerMsg AccountId Note) (rest : Bytes),
      (ServerMsg.readFrom c).run (m.writeInto c ++ rest) = .ok (m, rest)) ∧
    (∀ m m' : ClientMsg Asset, m.writeInto c <+: m'.writeInto c → m = m') ∧
    (∀ m m' : ServerMsg AccountId Note, m.writeInto c <+: m'.writeInto c → m = m') ∧
    (∀ (note : Note) (fillAmount : UInt64),
      handoverFrame c (c.note.write note) fillAmount =
        (ServerMsg.handover note fillAmount : ServerMsg AccountId Note).writeInto c ∧
      readFromBytes (ServerMsg.readFrom c) (handoverFrame c (c.note.write note) fillAmount) =
        .ok (.handover note fillAmount)) ∧
    (∀ (tag : UInt8) (rest : Bytes), tag ≠ ClientMsg.QUOTE →
      (ClientMsg.readFrom c).run (tag :: rest) =
        .error (.invalidValue s!"unknown ClientMsg tag {tag}")) ∧
    (∀ (tag : UInt8) (rest : Bytes), tag ∉ ServerMsg.tags →
      (ServerMsg.readFrom c).run (tag :: rest) =
        .error (.invalidValue s!"unknown ServerMsg tag {tag}")) := by
  refine ⟨fun m rest => ClientMsg.reads c m rest, fun m rest => ServerMsg.reads c m rest,
    fun m m' h => (ClientMsg.codec c).eq_of_write_start h,
    fun m m' h => (ServerMsg.codec c).eq_of_write_start h, fun note fillAmount => ?_,
    fun tag rest h => ClientMsg.readFrom_unknown c h rest,
    fun tag rest h => ServerMsg.readFrom_unknown c h rest⟩
  have hframe := handoverFrame_eq c note fillAmount
  refine ⟨hframe, ?_⟩
  rw [hframe]
  exact (ServerMsg.reads c _).readAll

/-! ## The router behind the wire -/

section Router
variable (c : Components AccountId PswapSolver.Asset Note) (display : DeserializationError → String)

/-- The message as the router takes it. -/
def ClientMsg.received : ClientMsg PswapSolver.Asset → PswapSolver.ClientMsg
  | quote offered requested validForMs => .quote offered requested (validForMs.map UInt64.toNat)

/-- `handle_client_msg` on a frame, up to the lock. -/
def handleFrame (quoteTtlMs : Nat) (dex : DexId) (bytes : Bytes) (nowMillis serial : Nat) :
    Except PswapSolver.ServerMsg Quote :=
  handleClientMsg quoteTtlMs dex
    (((readFromBytes (ClientMsg.readFrom c) bytes).map ClientMsg.received).mapError display)
    nowMillis serial

/-- The router takes a quote as the DEX wrote it. -/
theorem handleFrame_write (quoteTtlMs : Nat) (dex : DexId) (offered requested : PswapSolver.Asset)
    (validForMs : Option UInt64) (nowMillis serial : Nat) :
    handleFrame c display quoteTtlMs dex
        ((ClientMsg.quote offered requested validForMs).writeInto c) nowMillis serial =
      makeQuote quoteTtlMs dex offered requested (validForMs.map UInt64.toNat) nowMillis
        serial := by
  unfold handleFrame
  rw [readFromBytes, (ClientMsg.reads c _).readAll]
  rfl

end Router

end PswapSolver.Wire
