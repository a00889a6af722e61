import PswapSolver.FiniteMap
import PswapSolver.Order
import Mathlib.Algebra.BigOperators.Group.List.Basic

/-! # Selecting notes for external DEXes

The model of `router/select.rs`.  The notes of a pair come best rate first, the quotes
most generous first; each note goes, whole, to the tightest crossing quote that still
has room for it.

A quote carries a `serial` that the source does not have: the number of the
`register_quote` call that posted it.  A pick records the serial of the quote it was
selected against, so that what a posted quote was used for can be said.
-/
namespace PswapSolver

/-- A price as a base-unit ratio. -/
structure Rate where
  requested : Nat
  offered : Nat
deriving DecidableEq

/-- A DEX's standing quote for one pair, oriented as the note is: it supplies up to
`supply` to receive `demand`. -/
structure Quote where
  dex : DexId
  pair : Pair
  supply : Nat
  demand : Nat
  expiresAt : Nat
  serial : Nat
deriving DecidableEq

/-- Quotes by pair, each list sorted by descending rate. -/
abbrev QuotesSnapshot := FiniteMap Pair (List Quote)

/-- One unmatched note selected to hand to a DEX. -/
structure Pick where
  dex : DexId
  noteId : OrderId
  fill : Nat
  pair : Pair
  price : Rate
  serial : Nat
deriving DecidableEq

/-- The result of matching one pair. -/
structure PairMatch where
  picks : List Pick
  clearing : Option Rate

/-- The willingness cross: note rate at most quote rate. -/
def crosses (note : Order) (quote : Quote) : Bool :=
  decide (note.requested * quote.demand ≤ quote.supply * note.offered)

/-- Is the quote stale or degenerate? -/
def skipped (time : Nat) (q : Quote) : Bool :=
  decide (q.expiresAt ≤ time) || decide (q.supply = 0) || decide (q.demand = 0)

/-- The last index, before the first live quote that does not cross, of a live quote with
room for the note. -/
def chooseQuote (note : Order) (time : Nat) : List (Quote × Nat) → Option Nat
  | [] => none
  | (q, remaining) :: rest =>
    if skipped time q then (chooseQuote note time rest).map (· + 1)
    else if !crosses note q then none
    else
      match chooseQuote note time rest with
      | some i => some (i + 1)
      | none => if note.requested ≤ remaining then some 0 else none

/-- The greedy assignment; `ledger` pairs each quote with what it can still supply. -/
def matchNotes (pair : Pair) (time : Nat) : List Order → List (Quote × Nat) → List Pick
  | [], _ => []
  | note :: notes, ledger =>
    match (chooseQuote note time ledger).bind fun i => (ledger[i]?).map fun e => (i, e) with
    | none => matchNotes pair time notes ledger
    | some (i, q, remaining) =>
      { dex := q.dex
        noteId := note.id
        fill := note.requested
        pair := pair
        price := ⟨note.requested, note.offered⟩
        serial := q.serial } ::
        matchNotes pair time notes (ledger.set i (q, remaining - note.requested))

/-- Matches one pair's notes against its quotes. -/
def matchPair (pair : Pair) (notes : List Order) (quotes : List Quote) (time : Nat) :
    PairMatch where
  picks := matchNotes pair time notes (quotes.map fun q => (q, q.supply))
  clearing := none

/-- Selects which notes to hand to which DEX; `order` is the order in which the quoted
pairs are visited. -/
def selectNotes (order : List Pair) (notesByPair : Pair → List Order) (quotes : QuotesSnapshot)
    (time : Nat) : List Pick :=
  order.flatMap fun p => (matchPair p (notesByPair p) ((quotes.lookup p).getD []) time).picks

/-- The picks of one pair. -/
def picksOf (notesByPair : Pair → List Order) (quotes : QuotesSnapshot) (time : Nat) (p : Pair) :
    List Pick :=
  (matchPair p (notesByPair p) ((quotes.lookup p).getD []) time).picks

theorem selectNotes_eq (order : List Pair) (notesByPair : Pair → List Order)
    (quotes : QuotesSnapshot) (time : Nat) : selectNotes order notesByPair quotes time =
      order.flatMap (picksOf notesByPair quotes time) := rfl

/-! ## What is picked -/

theorem chooseQuote_some {note : Order} {time i : Nat} {ledger : List (Quote × Nat)}
    (h : chooseQuote note time ledger = some i) :
    ∃ q remaining, ledger[i]? = some (q, remaining) ∧ skipped time q = false ∧
      crosses note q = true ∧ note.requested ≤ remaining := by
  induction ledger generalizing i with
  | nil => cases h
  | cons e rest ih =>
    obtain ⟨q, remaining⟩ := e
    rw [chooseQuote] at h
    split at h
    · obtain ⟨j, hj, rfl⟩ := Option.map_eq_some_iff.mp h
      exact ih hj
    rename_i hlive
    split at h
    · cases h
    rename_i hcross
    split at h
    · rename_i j hj
      cases h
      exact ih hj
    · split at h
      · rename_i hroom
        cases h
        exact ⟨q, remaining, rfl, by simpa using hlive, by simpa using hcross, hroom⟩
      · cases h

/-- **One note of the greedy pass**: nothing is chosen and it is left, or it is given to the chosen
quote, which is live, crosses, and has room. -/
theorem matchNotes_turn (pair : Pair) (time : Nat) (note : Order) (notes : List Order)
    (ledger : List (Quote × Nat)) :
    chooseQuote note time ledger = none ∧
      matchNotes pair time (note :: notes) ledger = matchNotes pair time notes ledger ∨
    ∃ i q remaining, ledger[i]? = some (q, remaining) ∧ skipped time q = false ∧
      crosses note q = true ∧ note.requested ≤ remaining ∧
      matchNotes pair time (note :: notes) ledger =
        ⟨q.dex, note.id, note.requested, pair, ⟨note.requested, note.offered⟩, q.serial⟩ ::
          matchNotes pair time notes (ledger.set i (q, remaining - note.requested)) := by
  rw [matchNotes]
  cases hc : chooseQuote note time ledger with
  | none => exact Or.inl ⟨rfl, rfl⟩
  | some i =>
    obtain ⟨q, remaining, hi, hlive, hcross, hroom⟩ := chooseQuote_some hc
    refine Or.inr ⟨i, q, remaining, hi, hlive, hcross, hroom, ?_⟩
    simp [hi]

theorem matchNotes_cons (pair : Pair) (time : Nat) (note : Order) (notes : List Order)
    (ledger : List (Quote × Nat)) :
    matchNotes pair time (note :: notes) ledger = matchNotes pair time notes ledger ∨
    ∃ i q remaining, ledger[i]? = some (q, remaining) ∧ note.requested ≤ remaining ∧
      matchNotes pair time (note :: notes) ledger =
        ⟨q.dex, note.id, note.requested, pair, ⟨note.requested, note.offered⟩, q.serial⟩ ::
          matchNotes pair time notes (ledger.set i (q, remaining - note.requested)) := by
  obtain ⟨-, hskip⟩ | ⟨i, q, remaining, hi, -, -, hroom, hpick⟩ :=
    matchNotes_turn pair time note notes ledger
  · exact Or.inl hskip
  · exact Or.inr ⟨i, q, remaining, hi, hroom, hpick⟩

/-- Notes are picked in the order they come, each at most once. -/
theorem matchNotes_sublist (pair : Pair) (time : Nat) (notes : List Order)
    (ledger : List (Quote × Nat)) :
    ((matchNotes pair time notes ledger).map Pick.noteId).Sublist (notes.map Order.id) := by
  induction notes generalizing ledger with
  | nil => exact List.Sublist.slnil
  | cons note notes ih =>
    obtain hskip | ⟨i, q, remaining, -, -, hpick⟩ := matchNotes_cons pair time note notes ledger
    · rw [hskip]
      exact (ih ledger).cons _
    · rw [hpick]
      exact (ih _).cons_cons _

/-- A pick is of one of the notes, for the whole of it, and under the pair. -/
theorem matchNotes_mem {pair : Pair} {time : Nat} {notes : List Order}
    {ledger : List (Quote × Nat)} {p : Pick} (h : p ∈ matchNotes pair time notes ledger) :
    ∃ note ∈ notes, p.noteId = note.id ∧ p.fill = note.requested ∧ p.pair = pair := by
  induction notes generalizing ledger with
  | nil => cases h
  | cons note notes ih =>
    obtain hskip | ⟨i, q, remaining, -, -, hpick⟩ := matchNotes_cons pair time note notes ledger
    · rw [hskip] at h
      obtain ⟨n, hn, hp⟩ := ih h
      exact ⟨n, List.mem_cons_of_mem _ hn, hp⟩
    · rw [hpick] at h
      rcases List.mem_cons.mp h with rfl | h
      · exact ⟨note, List.mem_cons_self .., rfl, rfl, rfl⟩
      · obtain ⟨n, hn, hp⟩ := ih h
        exact ⟨n, List.mem_cons_of_mem _ hn, hp⟩

/-- A pick is selected against a quote of the ledger. -/
theorem matchNotes_quote {pair : Pair} {time : Nat} {notes : List Order}
    {ledger : List (Quote × Nat)} {k : Pick} (h : k ∈ matchNotes pair time notes ledger) :
    ∃ e ∈ ledger, k.dex = e.1.dex ∧ k.serial = e.1.serial := by
  induction notes generalizing ledger with
  | nil => cases h
  | cons note notes ih =>
    obtain hskip | ⟨i, q, remaining, hi, -, hpick⟩ := matchNotes_cons pair time note notes ledger
    · exact ih (hskip ▸ h)
    · have hq : (q, remaining) ∈ ledger := List.mem_of_getElem? hi
      rw [hpick] at h
      rcases List.mem_cons.mp h with rfl | h
      · exact ⟨_, hq, rfl, rfl⟩
      · obtain ⟨e, he, hquote⟩ := ih h
        rcases List.mem_or_eq_of_mem_set he with he | rfl
        · exact ⟨e, he, hquote⟩
        · exact ⟨_, hq, hquote⟩

/-! ## What is drawn from a quote -/

/-- What a pick draws from the quote with the given serial. -/
def Pick.drawn (serial : Nat) (k : Pick) : Nat := if k.serial = serial then k.fill else 0

/-- What the quotes of a ledger with the given serial can still supply. -/
def room (serial : Nat) (ledger : List (Quote × Nat)) : Nat :=
  (ledger.map fun e => if e.1.serial = serial then e.2 else 0).sum

theorem sum_set {l : List Nat} {i a : Nat} (h : l[i]? = some a) (b : Nat) :
    (l.set i b).sum + a = l.sum + b := by
  induction l generalizing i with
  | nil => cases h
  | cons x l ih =>
    cases i with
    | zero =>
      cases h
      simp only [List.set_cons_zero, List.sum_cons]
      omega
    | succ i =>
      have := ih h
      simp only [List.set_cons_succ, List.sum_cons]
      omega

/-- Giving a note to a quote with room takes the note's amount out of it. -/
theorem room_set {serial i amount : Nat} {q : Quote} {remaining : Nat}
    {ledger : List (Quote × Nat)} (h : ledger[i]? = some (q, remaining))
    (hroom : amount ≤ remaining) :
    (if q.serial = serial then amount else 0) + room serial (ledger.set i (q, remaining - amount)) =
      room serial ledger := by
  have hsum := @sum_set (ledger.map fun e => if e.1.serial = serial then e.2 else 0) i
    (if q.serial = serial then remaining else 0) (by rw [List.getElem?_map, h]; rfl)
    (if q.serial = serial then remaining - amount else 0)
  rw [room, room, List.map_set]
  split at hsum
  · rename_i hs
    simp only [hs, if_true] at hsum ⊢
    omega
  · rename_i hs
    simp only [hs, if_false] at hsum ⊢
    omega

/-- **A quote is not overdrawn**: the greedy pass draws from the quotes with a serial at most
what they can supply. -/
theorem drawn_matchNotes_le (pair : Pair) (time serial : Nat) (notes : List Order)
    (ledger : List (Quote × Nat)) :
    ((matchNotes pair time notes ledger).map (Pick.drawn serial)).sum ≤ room serial ledger := by
  induction notes generalizing ledger with
  | nil => exact Nat.zero_le _
  | cons note notes ih =>
    obtain hskip | ⟨i, q, remaining, hi, hroom, hpick⟩ :=
      matchNotes_cons pair time note notes ledger
    · rw [hskip]
      exact ih ledger
    · rw [hpick, List.map_cons, List.sum_cons, ← room_set hi hroom]
      exact Nat.add_le_add_left (ih _) _

end PswapSolver
