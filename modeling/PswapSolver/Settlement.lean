import PswapSolver.Notes
import Mathlib.Algebra.BigOperators.Group.List.Basic

/-! # Preparing a settlement

The model of `prepare_batch_components` in `executor/executor.rs`.  Every filled note
of a batch is parsed and executed, the net flow of each token is summed, and the batch
is refused as insolvent if some token's flow is negative; what is left over becomes the
surplus assets of the transaction.

The per-token flows are kept in a hash map whose iteration order decides which of
several errors is reported, so the order of the final pass is an argument.
-/
namespace PswapSolver
variable {Note : Type}

/-- Why a batch could not be prepared. -/
inductive PrepareError where
  | deserialize
  | parsePswap
  | fillAsset
  | noteArgs
  | execute
  | insolvent (token : TokenId) (deficit : Nat)
  | surplusRange (token : TokenId) (net : Int)
  | surplusAsset (token : TokenId)
deriving DecidableEq

/-- What the loop over the notes has collected. -/
structure Prepared (Note : Type) where
  inputNotes : List (Note × Nat)
  flow : FiniteMap TokenId Int

/-- The inputs computed once per batch: the notes with their fill arguments, and the
surplus assets. -/
structure BatchComponents (Note : Type) where
  inputNotes : List (Note × Nat)
  surplusAssets : List (TokenId × Nat)

/-- `*flow.entry(token).or_default() += amount` -/
def addFlow (flow : FiniteMap TokenId Int) (token : TokenId) (amount : Int) :
    FiniteMap TokenId Int :=
  flow.insert token ((flow.lookup token).getD 0 + amount)

/-- The flows once a note is executed: its offer comes in, the payback and the remainder
go out. -/
def settleNote (flow : FiniteMap TokenId Int) (pswap : PswapNote) (payback : Nat)
    (remainder : Option Nat) : FiniteMap TokenId Int :=
  let flow := addFlow flow pswap.offeredToken pswap.offeredAmount
  let flow := addFlow flow pswap.requestedToken (-(payback : Int))
  match remainder with
  | some amount => addFlow flow pswap.offeredToken (-(amount : Int))
  | none => flow

/-- The body of the loop: parse a filled note, execute it, account for its flows. -/
def prepareNote (api : NoteApi Note) (acc : Prepared Note) (filled : FilledNote) :
    Except PrepareError (Prepared Note) :=
  match api.readFrom filled.rawNoteData with
  | none => .error .deserialize
  | some note =>
    match api.pswap note with
    | none => .error .parsePswap
    | some pswap =>
      if !api.fungibleAsset pswap.requestedToken filled.requestedFilled then .error .fillAsset
      else if !api.createArgs filled.requestedFilled then .error .noteArgs
      else
        match api.execute note filled.requestedFilled with
        | none => .error .execute
        | some (payback, remainder) =>
          .ok ⟨acc.inputNotes ++ [(note, filled.requestedFilled)],
            settleNote acc.flow pswap payback remainder⟩

/-- The final pass over the flows: a negative one makes the batch insolvent, a positive
one is a surplus asset. -/
def surplusAssets (api : NoteApi Note) (flow : FiniteMap TokenId Int) :
    List TokenId → Except PrepareError (List (TokenId × Nat))
  | [] => .ok []
  | token :: rest =>
    let net := (flow.lookup token).getD 0
    if net < 0 then .error (.insolvent token net.natAbs)
    else if 0 < net then
      if 2 ^ 64 ≤ net then .error (.surplusRange token net)
      else if !api.fungibleAsset token net.toNat then .error (.surplusAsset token)
      else
        match surplusAssets api flow rest with
        | .ok assets => .ok ((token, net.toNat) :: assets)
        | .error e => .error e
    else surplusAssets api flow rest

/-- Parses the notes of a batch, checks that it is solvent, and assembles the
components of the transaction.  `order` is the order in which the flows are visited. -/
def prepareBatchComponents (api : NoteApi Note) (batch : ExecutionBatch)
    (order : List TokenId) : Except PrepareError (BatchComponents Note) :=
  match batch.filledNotes.foldlM (prepareNote api) ⟨[], ∅⟩ with
  | .error e => .error e
  | .ok acc =>
    match surplusAssets api acc.flow order with
    | .error e => .error e
    | .ok assets => .ok ⟨acc.inputNotes, assets⟩

/-! ## The flow of a batch -/

/-- The flow recorded for a token. -/
def flowOf (flow : FiniteMap TokenId Int) (token : TokenId) : Int := (flow.lookup token).getD 0

theorem flowOf_addFlow (flow : FiniteMap TokenId Int) (token t : TokenId) (amount : Int) :
    flowOf (addFlow flow token amount) t = flowOf flow t + if t = token then amount else 0 := by
  rw [flowOf, addFlow, FiniteMap.lookup_insert_if]
  by_cases ht : t = token
  · subst ht
    simp [flowOf]
  · simp [ht, flowOf]

/-- What one note adds to the flow of a token. -/
def noteFlow (p : PswapNote) (payback : Nat) (remainder : Option Nat) (t : TokenId) : Int :=
  (if t = p.offeredToken then (p.offeredAmount : Int) - remainder.getD 0 else 0) -
  (if t = p.requestedToken then (payback : Int) else 0)

theorem flowOf_settleNote (flow : FiniteMap TokenId Int) (p : PswapNote) (payback : Nat)
    (remainder : Option Nat) (t : TokenId) :
    flowOf (settleNote flow p payback remainder) t =
      flowOf flow t + noteFlow p payback remainder t := by
  unfold settleNote noteFlow
  cases remainder with
  | none =>
    dsimp only
    rw [flowOf_addFlow, flowOf_addFlow]
    split <;> split <;> simp
    omega
  | some amount =>
    dsimp only
    rw [flowOf_addFlow, flowOf_addFlow, flowOf_addFlow]
    split <;> split <;> simp <;> omega

/-- What the Miden libraries made of a filled note. -/
structure ExecutedNote (api : NoteApi Note) (filled : FilledNote) where
  note : Note
  pswap : PswapNote
  payback : Nat
  remainder : Option Nat
  read : api.readFrom filled.rawNoteData = some note
  parsed : api.pswap note = some pswap
  executed : api.execute note filled.requestedFilled = some (payback, remainder)

theorem prepareNote_ok {api : NoteApi Note} {acc acc' : Prepared Note} {filled : FilledNote}
    (h : prepareNote api acc filled = .ok acc') :
    ∃ x : ExecutedNote api filled,
      acc'.inputNotes = acc.inputNotes ++ [(x.note, filled.requestedFilled)] ∧
      ∀ t, flowOf acc'.flow t = flowOf acc.flow t + noteFlow x.pswap x.payback x.remainder t := by
  unfold prepareNote at h
  split at h
  · cases h
  rename_i note hread
  split at h
  · cases h
  rename_i pswap hpswap
  split at h
  · cases h
  split at h
  · cases h
  split at h
  · cases h
  rename_i payback remainder hexec
  cases h
  exact ⟨⟨note, pswap, payback, remainder, hread, hpswap, hexec⟩, rfl, flowOf_settleNote _ _ _ _⟩

/-- **The flow of a prepared batch is the sum of what its notes add.** -/
theorem flowOf_foldlM {api : NoteApi Note} {w : FilledNote → TokenId → Int}
    {notes : List FilledNote} {acc acc' : Prepared Note}
    (hw : ∀ filled ∈ notes, ∀ x : ExecutedNote api filled, ∀ t,
      noteFlow x.pswap x.payback x.remainder t = w filled t)
    (h : notes.foldlM (prepareNote api) acc = .ok acc') (t : TokenId) :
    flowOf acc'.flow t = flowOf acc.flow t + (notes.map (w · t)).sum := by
  induction notes generalizing acc with
  | nil =>
    cases h
    simp
  | cons filled notes ih =>
    rw [List.foldlM_cons] at h
    cases hn : prepareNote api acc filled with
    | error e =>
      rw [hn] at h
      cases h
    | ok acc₁ =>
      rw [hn] at h
      obtain ⟨x, -, hflow⟩ := prepareNote_ok hn
      have hrest := ih (fun f hf => hw f (List.mem_cons_of_mem _ hf)) h
      rw [hrest, hflow, hw filled (List.mem_cons_self ..) x, List.map_cons, List.sum_cons]
      omega

/-- No flow negative, no token reported insolvent. -/
theorem surplusAssets_ne_insolvent (api : NoteApi Note) {flow : FiniteMap TokenId Int}
    (hflow : ∀ t, 0 ≤ flowOf flow t) (order : List TokenId) (token : TokenId) (deficit : Nat) :
    surplusAssets api flow order ≠ .error (.insolvent token deficit) := by
  induction order with
  | nil => exact nofun
  | cons t rest ih =>
    have ht : ¬ (flow.lookup t).getD 0 < 0 := Int.not_lt.mpr (hflow t)
    unfold surplusAssets
    simp only [ht, if_false]
    split
    · split
      · exact nofun
      · split
        · exact nofun
        · split
          · exact nofun
          · rename_i e he
            rw [← he]
            exact ih
    · exact ih

/-- A single note is never the one that is insolvent. -/
theorem foldlM_prepareNote_ne_insolvent {api : NoteApi Note} (notes : List FilledNote)
    (acc : Prepared Note) (token : TokenId) (deficit : Nat) :
    notes.foldlM (prepareNote api) acc ≠ .error (.insolvent token deficit) := by
  induction notes generalizing acc with
  | nil => exact nofun
  | cons filled notes ih =>
    rw [List.foldlM_cons]
    cases hn : prepareNote api acc filled with
    | ok acc₁ => exact ih acc₁
    | error e =>
      intro h
      cases h
      unfold prepareNote at hn
      split at hn
      · cases hn
      split at hn
      · cases hn
      split at hn
      · cases hn
      split at hn
      · cases hn
      split at hn
      · cases hn
      · cases hn

/-- **A batch whose flows come out non-negative is not refused as insolvent.** -/
theorem prepareBatchComponents_ne_insolvent {api : NoteApi Note} {batch : ExecutionBatch}
    {w : FilledNote → TokenId → Int}
    (hw : ∀ filled ∈ batch.filledNotes, ∀ x : ExecutedNote api filled, ∀ t,
      noteFlow x.pswap x.payback x.remainder t = w filled t)
    (hflow : ∀ t, 0 ≤ (batch.filledNotes.map (w · t)).sum) (order : List TokenId)
    (token : TokenId) (deficit : Nat) :
    prepareBatchComponents api batch order ≠ .error (.insolvent token deficit) := by
  unfold prepareBatchComponents
  cases hfold : batch.filledNotes.foldlM (prepareNote api) ⟨[], ∅⟩ with
  | error e =>
    intro h
    cases h
    exact foldlM_prepareNote_ne_insolvent _ _ token deficit hfold
  | ok acc =>
    have hacc : ∀ t, 0 ≤ flowOf acc.flow t := by
      intro t
      have hempty : flowOf (∅ : FiniteMap TokenId Int) t = 0 := rfl
      rw [flowOf_foldlM hw hfold t, hempty, Int.zero_add]
      exact hflow t
    have hne := surplusAssets_ne_insolvent api hacc order token deficit
    dsimp only
    cases hs : surplusAssets api acc.flow order with
    | error e =>
      rw [hs] at hne
      intro h
      exact hne (congrArg Except.error (Except.error.inj h))
    | ok assets => exact nofun

/-! ## What is assumed of the libraries -/

/-- The bytes parse to a note with these terms. -/
def ParsesTo (api : NoteApi Note) (bytes : Bytes) (terms : OrderTerms) : Prop :=
  ∃ note, api.readFrom bytes = some note ∧ orderFromNote api note = some terms

/-- **Executing a note pays back exactly the fill**, and what the fill does not release is
the remainder. -/
def PaysExactly (api : NoteApi Note) : Prop :=
  ∀ {note terms fill payback remainder}, orderFromNote api note = some terms →
    api.execute note fill = some (payback, remainder) →
    payback = fill ∧ remainder.getD 0 = terms.offered - terms.offered * fill / terms.requested

theorem orderFromNote_some {api : NoteApi Note} {note : Note} {terms : OrderTerms}
    (h : orderFromNote api note = some terms) :
    ∃ p, api.pswap note = some p ∧ terms.offeredToken = p.offeredToken ∧
      terms.requestedToken = p.requestedToken ∧ terms.offered = p.offeredAmount ∧
      terms.requested = p.requestedAmount := by
  unfold orderFromNote at h
  split at h
  · cases h
  · rename_i p hp
    split at h
    · cases h
      exact ⟨p, hp, rfl, rfl, rfl, rfl⟩
    · cases h

/-! ### A library that behaves so -/

/-- A library for notes whose bytes are the id of their order. -/
def exactApi : NoteApi OrderTerms where
  readFrom bytes := bytes.head?.map fun byte => crossingTerms byte.toNat
  pswap terms :=
    some ⟨terms.offeredToken, terms.offered, terms.requestedToken, terms.requested,
      terms.offered_lt, terms.requested_lt⟩
  fungibleAsset _ _ := true
  createArgs _ := true
  -- a full fill leaves no remainder note
  execute terms fill := some (fill,
    if fill = terms.requested then none
    else some (terms.offered - terms.offered * fill / terms.requested))

theorem exactApi_orderFromNote (terms : OrderTerms) :
    orderFromNote exactApi terms = some terms := by
  simp [orderFromNote, exactApi, terms.offered_pos, terms.requested_pos]

theorem exactApi_paysExactly : PaysExactly exactApi := by
  intro note terms fill payback remainder hterms hexec
  rw [exactApi_orderFromNote] at hterms
  cases hterms
  cases hexec
  refine ⟨rfl, ?_⟩
  by_cases hfull : fill = note.requested
  · rw [if_pos hfull, hfull, Nat.mul_div_cancel _ note.requested_pos, Nat.sub_self]
    rfl
  · rw [if_neg hfull]
    rfl

end PswapSolver
