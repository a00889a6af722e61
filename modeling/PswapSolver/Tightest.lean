import PswapSolver.QuoteUpdates

/-! # The tightest quote

The selector scans the quotes of a pair until the first live one that does not cross, and
takes the last it has seen with room for the note.  This finds the tightest quote only
because the router has sorted the list, by a comparison of cross products, and because no
quote has a zero amount.

`Tightest` says which quote an exhaustive scan takes, `GreedyTightest` what it makes of a list
of notes, with the capacities used up so far.  On every snapshot of a router the pruned
scan makes the same picks (`router_selector_agree`).
-/
namespace PswapSolver
open Publication Runs

/-! ## The exhaustive choice -/

/-- **A quote that could serve the note**: it is live, it crosses, and it has room. -/
structure Candidate (note : Order) (time : Nat) (e : Quote × Nat) : Prop where
  live : skipped time e.1 = false
  crosses : crosses note e.1 = true
  room : note.requested ≤ e.2

/-- **The tightest candidate** is at index `i`: no candidate has a lower rate, and those of the
same rate come before it. -/
structure Tightest (note : Order) (time : Nat) (ledger : List (Quote × Nat)) (i : Nat)
    (e : Quote × Nat) : Prop where
  entry : ledger[i]? = some e
  candidate : Candidate note time e
  least : ∀ {j e'}, ledger[j]? = some e' → Candidate note time e' →
    moreGenerous e'.1 e.1 ∧ (moreGenerous e.1 e'.1 → j ≤ i)

/-- **The greedy assignment by exhaustive scans**: each note goes to the tightest candidate, if
there is one, and takes its amount out of it. -/
inductive GreedyTightest (pair : Pair) (time : Nat) :
    List Order → List (Quote × Nat) → List Pick → Prop
  | nil {ledger : List (Quote × Nat)} : GreedyTightest pair time [] ledger []
  | left {note : Order} {notes : List Order} {ledger : List (Quote × Nat)} {picks : List Pick}
      (none : ∀ e ∈ ledger, ¬ Candidate note time e)
      (rest : GreedyTightest pair time notes ledger picks) :
      GreedyTightest pair time (note :: notes) ledger picks
  | given {note : Order} {notes : List Order} {ledger : List (Quote × Nat)} {picks : List Pick}
      {i : Nat} {q : Quote} {remaining : Nat}
      (tightest : Tightest note time ledger i (q, remaining))
      (rest : GreedyTightest pair time notes (ledger.set i (q, remaining - note.requested)) picks) :
      GreedyTightest pair time (note :: notes) ledger
        (⟨q.dex, note.id, note.requested, pair, ⟨note.requested, note.offered⟩, q.serial⟩ :: picks)

section Choice
variable {note : Order} {time i j : Nat} {ledger : List (Quote × Nat)} {e e' : Quote × Nat}

/-- There is at most one tightest candidate. -/
theorem Tightest.unique (h : Tightest note time ledger i e) (h' : Tightest note time ledger j e') :
    i = j ∧ e = e' := by
  obtain ⟨hle, hlast⟩ := h.least h'.entry h'.candidate
  obtain ⟨hle', hlast'⟩ := h'.least h.entry h.candidate
  have hij : i = j := Nat.le_antisymm (hlast' hle) (hlast hle')
  subst hij
  exact ⟨rfl, Option.some.inj (h.entry.symm.trans h'.entry)⟩

/-- The exhaustive assignment is a function of the notes and the quotes. -/
theorem GreedyTightest.unique {pair : Pair} {notes : List Order} {picks picks' : List Pick}
    (h : GreedyTightest pair time notes ledger picks)
    (h' : GreedyTightest pair time notes ledger picks') : picks = picks' := by
  induction h generalizing picks' with
  | nil =>
    cases h'
    rfl
  | left hnone _ ih =>
    cases h' with
    | left _ hrest => exact ih hrest
    | given ht _ => exact absurd ht.candidate (hnone _ (List.mem_of_getElem? ht.entry))
  | given ht _ ih =>
    cases h' with
    | left hnone _ => exact absurd ht.candidate (hnone _ (List.mem_of_getElem? ht.entry))
    | given ht' hrest =>
      obtain ⟨rfl, heq⟩ := ht.unique ht'
      cases heq
      rw [ih hrest]

end Choice

/-! ## The pruned choice on a sorted list -/

/-- The quotes come most generous first, and none has a zero demand. -/
structure RateSorted (quotes : List Quote) : Prop where
  sorted : quotes.Pairwise moreGenerous
  demand : ∀ q ∈ quotes, 0 < q.demand

/-- The comparison is transitive where no demand is zero. -/
theorem moreGenerous_trans {a b c : Quote} (hb : 0 < b.demand) (hab : moreGenerous a b)
    (hbc : moreGenerous b c) : moreGenerous a c := by
  unfold moreGenerous at *
  refine Nat.le_of_mul_le_mul_right ?_ hb
  calc c.supply * a.demand * b.demand = c.supply * b.demand * a.demand := Nat.mul_right_comm ..
    _ ≤ b.supply * c.demand * a.demand := Nat.mul_le_mul_right _ hbc
    _ = b.supply * a.demand * c.demand := Nat.mul_right_comm ..
    _ ≤ a.supply * b.demand * c.demand := Nat.mul_le_mul_right _ hab
    _ = a.supply * c.demand * b.demand := Nat.mul_right_comm ..

/-- **A quote that crosses is followed, backwards, by quotes that cross**: where a quote does
not cross, no tighter one does. -/
theorem crosses_of_moreGenerous {note : Order} {q q' : Quote} (hq' : 0 < q'.demand)
    (hle : moreGenerous q q') (hcross : crosses note q' = true) : crosses note q = true := by
  unfold crosses at *
  rw [decide_eq_true_eq] at *
  refine Nat.le_of_mul_le_mul_right ?_ hq'
  calc note.requested * q.demand * q'.demand = note.requested * q'.demand * q.demand :=
        Nat.mul_right_comm ..
    _ ≤ q'.supply * note.offered * q.demand := Nat.mul_le_mul_right _ hcross
    _ = q'.supply * q.demand * note.offered := Nat.mul_right_comm ..
    _ ≤ q.supply * q'.demand * note.offered := Nat.mul_le_mul_right _ hle
    _ = q.supply * note.offered * q'.demand := Nat.mul_right_comm ..

section Pruned
variable {note : Order} {time i : Nat} {q : Quote} {remaining : Nat} {ledger : List (Quote × Nat)}

/-- A quote that is not skipped is live and has both amounts. -/
theorem skipped_eq_false_iff : skipped time q = false ↔
    time < q.expiresAt ∧ 0 < q.supply ∧ 0 < q.demand := by
  unfold skipped
  rw [Bool.or_eq_false_iff, Bool.or_eq_false_iff, decide_eq_false_iff_not, decide_eq_false_iff_not,
    decide_eq_false_iff_not, Nat.not_le, Nat.pos_iff_ne_zero, Nat.pos_iff_ne_zero, and_assoc]

/-- A head that is no candidate can be left out. -/
theorem Tightest.cons_of_not {e e' : Quote × Nat} (h : Tightest note time ledger i e)
    (hhead : ¬ Candidate note time e') : Tightest note time (e' :: ledger) (i + 1) e where
  entry := h.entry
  candidate := h.candidate
  least := by
    intro j e₁ hj hcand
    cases j with
    | zero =>
      cases hj
      exact absurd hcand hhead
    | succ j =>
      obtain ⟨hle, hlast⟩ := h.least hj hcand
      exact ⟨hle, fun hge => Nat.succ_le_succ (hlast hge)⟩

/-- A more generous head is not preferred. -/
theorem Tightest.cons_of_le {e e' : Quote × Nat} (h : Tightest note time ledger i e)
    (hhead : moreGenerous e'.1 e.1) : Tightest note time (e' :: ledger) (i + 1) e where
  entry := h.entry
  candidate := h.candidate
  least := by
    intro j e₁ hj hcand
    cases j with
    | zero =>
      cases hj
      exact ⟨hhead, fun _ => Nat.zero_le _⟩
    | succ j =>
      obtain ⟨hle, hlast⟩ := h.least hj hcand
      exact ⟨hle, fun hge => Nat.succ_le_succ (hlast hge)⟩

/-- A candidate is the tightest if nothing after it is one. -/
theorem Tightest.head {e : Quote × Nat} (hcand : Candidate note time e)
    (hrest : ∀ e' ∈ ledger, ¬ Candidate note time e') : Tightest note time (e :: ledger) 0 e where
  entry := rfl
  candidate := hcand
  least := by
    intro j e₁ hj hcand₁
    cases j with
    | zero =>
      cases hj
      exact ⟨Nat.le_refl _, fun _ => Nat.le_refl _⟩
    | succ j => exact absurd hcand₁ (hrest e₁ (List.mem_of_getElem? hj))

/-! ### One turn of the scan -/

theorem chooseQuote_skipped (hskip : skipped time q = true) :
    chooseQuote note time ((q, remaining) :: ledger) =
      (chooseQuote note time ledger).map (· + 1) := by
  rw [chooseQuote, if_pos hskip]

theorem chooseQuote_stops (hlive : ¬ skipped time q = true)
    (hcross : ¬ crosses note q = true) :
    chooseQuote note time ((q, remaining) :: ledger) = none := by
  rw [chooseQuote, if_neg hlive, if_pos (by simpa using hcross)]

theorem chooseQuote_later {j : Nat} (hlive : ¬ skipped time q = true)
    (hcross : crosses note q = true) (hlater : chooseQuote note time ledger = some j) :
    chooseQuote note time ((q, remaining) :: ledger) = some (j + 1) := by
  rw [chooseQuote, if_neg hlive, hcross, hlater]
  rfl

theorem chooseQuote_here (hlive : ¬ skipped time q = true)
    (hcross : crosses note q = true) (hlater : chooseQuote note time ledger = none) :
    chooseQuote note time ((q, remaining) :: ledger) =
      if note.requested ≤ remaining then some 0 else none := by
  rw [chooseQuote, if_neg hlive, hcross, hlater]
  rfl

/-- **The pruned scan is exhaustive**: on a sorted list it finds the tightest candidate, and
nothing only if there is none. -/
theorem chooseQuote_spec (note : Order) (time : Nat)
    (h : (ledger.map Prod.fst).Pairwise moreGenerous) :
    (∀ i, chooseQuote note time ledger = some i → ∃ e, Tightest note time ledger i e) ∧
      (chooseQuote note time ledger = none → ∀ e ∈ ledger, ¬ Candidate note time e) := by
  induction ledger with
  | nil => exact ⟨fun _ h => (by cases h), fun _ e he => absurd he List.not_mem_nil⟩
  | cons e rest ih =>
    obtain ⟨q, remaining⟩ := e
    obtain ⟨hhead, htail⟩ := List.pairwise_cons.mp h
    obtain ⟨hsome, hnone⟩ := ih htail
    by_cases hskip : skipped time q = true
    · -- a stale quote is passed over
      have hhead : ¬ Candidate note time (q, remaining) := fun hc => by
        have := hc.live
        rw [hskip] at this
        cases this
      rw [chooseQuote_skipped hskip]
      constructor
      · intro i hi
        obtain ⟨j, hj, rfl⟩ := Option.map_eq_some_iff.mp hi
        obtain ⟨e, he⟩ := hsome j hj
        exact ⟨e, he.cons_of_not hhead⟩
      · intro hi e he
        rcases List.mem_cons.mp he with rfl | he
        · exact hhead
        · exact hnone (Option.map_eq_none_iff.mp hi) e he
    by_cases hcross : crosses note q = true
    · cases hc : chooseQuote note time rest with
      | some j =>
        rw [chooseQuote_later hskip hcross hc]
        refine ⟨fun i hi => ?_, fun hi => absurd hi (Option.some_ne_none _)⟩
        cases hi
        obtain ⟨e, he⟩ := hsome j hc
        exact ⟨e, he.cons_of_le
          (hhead e.1 (List.mem_map_of_mem (List.mem_of_getElem? he.entry)))⟩
      | none =>
        rw [chooseQuote_here hskip hcross hc]
        by_cases hroom : note.requested ≤ remaining
        · have hcand : Candidate note time (q, remaining) :=
            ⟨by simpa using hskip, hcross, hroom⟩
          rw [if_pos hroom]
          refine ⟨fun i hi => ?_, fun hi => absurd hi (Option.some_ne_none _)⟩
          cases hi
          exact ⟨_, .head hcand (hnone hc)⟩
        · rw [if_neg hroom]
          refine ⟨fun i hi => absurd hi.symm (Option.some_ne_none i), fun _ e he => ?_⟩
          rcases List.mem_cons.mp he with rfl | he
          · exact fun hcand => hroom hcand.room
          · exact hnone hc e he
    · -- the scan stops here: what comes later is tighter and does not cross
      rw [chooseQuote_stops hskip hcross]
      refine ⟨fun i hi => absurd hi.symm (Option.some_ne_none i), fun _ e he hcand => hcross ?_⟩
      rcases List.mem_cons.mp he with rfl | he
      · exact hcand.crosses
      · obtain ⟨-, -, hpos⟩ := skipped_eq_false_iff.mp hcand.live
        exact crosses_of_moreGenerous hpos (hhead e.1 (List.mem_map_of_mem he)) hcand.crosses

/-- Taking an amount out of a quote leaves the quotes as they are. -/
theorem map_fst_set (h : ledger[i]? = some (q, remaining)) (amount : Nat) :
    (ledger.set i (q, amount)).map Prod.fst = ledger.map Prod.fst := by
  induction ledger generalizing i with
  | nil => rfl
  | cons e ledger ih =>
    cases i with
    | zero =>
      cases h
      rfl
    | succ i => exact congrArg (e.1 :: ·) (ih h)

/-- **The greedy pass, note by note.** -/
theorem greedyTightest_matchNotes (pair : Pair) (time : Nat) (notes : List Order)
    (h : (ledger.map Prod.fst).Pairwise moreGenerous) :
    GreedyTightest pair time notes ledger (matchNotes pair time notes ledger) := by
  induction notes generalizing ledger with
  | nil => exact .nil
  | cons note notes ih =>
    obtain ⟨hsome, hnone⟩ := chooseQuote_spec note time h
    rw [matchNotes]
    cases hc : chooseQuote note time ledger with
    | none => exact .left (hnone hc) (ih h)
    | some i =>
      obtain ⟨⟨q, remaining⟩, ht⟩ := hsome i hc
      rw [Option.bind_some, ht.entry]
      refine .given ht (ih ?_)
      rw [map_fst_set ht.entry]
      exact h

end Pruned

/-! ## The snapshots of a router -/

/-- Among quotes with a demand, the sort yields a sorted list. -/
theorem rateSorted_insertionSort {quotes : List Quote} (h : ∀ q ∈ quotes, 0 < q.demand) :
    RateSorted (quotes.insertionSort moreGenerous) := by
  refine ⟨?_, fun q hq => h q ((List.mem_insertionSort _).mp hq)⟩
  -- the comparison is a total preorder on the quotes with a demand only
  let r : {q : Quote // 0 < q.demand} → {q : Quote // 0 < q.demand} → Prop :=
    fun a b => moreGenerous a.1 b.1
  have : DecidableRel r := fun a b => inferInstanceAs (Decidable (moreGenerous a.1 b.1))
  have : Std.Total r := ⟨fun a b => Nat.le_total ..⟩
  have : IsTrans _ r := ⟨fun _ b _ hab hbc => moreGenerous_trans b.2 hab hbc⟩
  have hmap := List.map_insertionSort r moreGenerous Subtype.val
    (quotes.attachWith _ h) fun _ _ _ _ => Iff.rfl
  rw [List.attachWith_map_subtype_val] at hmap
  rw [← hmap, List.pairwise_map]
  exact List.pairwise_insertionSort r _

/-- The lists of a snapshot are sorted. -/
def SortedSnapshot (snap : QuotesSnapshot) : Prop :=
  ∀ pair, RateSorted ((snap.lookup pair).getD [])

theorem sortedSnapshot_empty : SortedSnapshot ∅ := fun _ =>
  ⟨List.Pairwise.nil, fun _ hq => absurd hq List.not_mem_nil⟩

/-- A snapshot of quotes that all have a demand is sorted. -/
theorem SnapshotOf.sorted {quotes : Quotes} {snap : QuotesSnapshot} (h : SnapshotOf quotes snap)
    (hdemand : ∀ {dex pair q}, quoteAt quotes dex pair = some q → 0 < q.demand) :
    SortedSnapshot snap := by
  intro pair
  have hmem : ∀ q ∈ (snap.lookup pair).getD [], 0 < q.demand := fun q hq => by
    obtain ⟨dex, hq⟩ := h.mem.mp hq
    exact hdemand hq
  obtain ⟨entries, -, rfl⟩ := h
  rw [lookup_snapshot] at hmem ⊢
  exact rateSorted_insertionSort fun q hq => hmem q ((List.mem_insertionSort _).mpr hq)

namespace RouterState

/-- Every stored quote has a demand, and every snapshot on its way is sorted. -/
structure Selectable (s : RouterState) : Prop where
  demand : ∀ {dex pair q}, quoteAt s.quotes dex pair = some q → 0 < q.demand
  snapshots : s.board.All SortedSnapshot

theorem selectable_new : Selectable new where
  demand := nofun
  snapshots := ⟨sortedSnapshot_empty, fun _ h => absurd h List.not_mem_nil⟩

variable {quoteTtlMs : Nat} {s s' : RouterState} {e : RouterEvent}

/-- What is registered has a demand. -/
theorem Step.register_demand {q : Quote} (hstep : Step quoteTtlMs s (.register q) s') :
    0 < q.demand := by
  cases hstep with
  | register _ _ valid => exact (handleClientMsg_ok valid).2.2.2

theorem Selectable.step (h : Selectable s) (hstep : Step quoteTtlMs s e s') : Selectable s' where
  demand := fun hq => by
    rcases hstep.quoteAt_origin hq with hold | ⟨rfl, -⟩
    · exact h.demand hold
    · exact hstep.register_demand
  snapshots := hstep.all h.snapshots fun hsnap => hsnap.sorted h.demand

end RouterState

/-- **Router and selector agree.**  Take any state the router can reach, by registrations,
deliveries and deregistrations in any interleaving, and a snapshot of its quotes or the one
it has published.  For every pair, every list of notes (the pair's notes of any book among
them) and every time, the picks of the pruned scan are exactly those of the exhaustive
assignment: each note to the live crossing quote with room that has the least rate, the last
in the list among equals, and to none if and only if there is no such quote. -/
theorem router_selector_agree (quoteTtlMs : Nat) {history : List (RouterState × RouterEvent)}
    {s : RouterState}
    (hrun : Run (RouterState.Step quoteTtlMs) unguarded RouterState.new history s)
    {snap : QuotesSnapshot} (hsnap : SnapshotOf s.quotes snap ∨ snap = s.published)
    (pair : Pair) (notes : List Order) (time : Nat) (picks : List Pick) :
    GreedyTightest pair time notes (((snap.lookup pair).getD []).map fun q => (q, q.supply)) picks ↔
      picks = (matchPair pair notes ((snap.lookup pair).getD []) time).picks := by
  have hsel : s.Selectable := hrun.invariant (P := fun _ s => s.Selectable)
    RouterState.selectable_new fun h _ hstep => h.step hstep
  have hsorted : SortedSnapshot snap := by
    rcases hsnap with hsnap | rfl
    · exact hsnap.sorted hsel.demand
    · exact hsel.snapshots.1
  have hledger : ((((snap.lookup pair).getD []).map fun q => (q, q.supply)).map
      Prod.fst).Pairwise moreGenerous := by
    rw [List.map_map]
    exact (List.map_id _).symm ▸ (hsorted pair).sorted
  have hgreedy := greedyTightest_matchNotes pair time notes hledger
  constructor
  · intro h
    exact h.unique hgreedy
  · rintro rfl
    exact hgreedy

/-- A note that asks for 10 of token 2 and offers 10 of token 1. -/
def parNote (id : OrderId) : Order := .fresh id (parTerms 10)

/-- Two quotes at the same rate and two notes: the first note goes to the last quote, the
second to the other one, which is the only one with room left. -/
theorem router_selector_agree_par :
    ∃ history, Run (RouterState.Step 1000) unguarded RouterState.new history bothComputed ∧
      (matchPair (1, 2) [parNote 1, parNote 2] [postedQuote 1 0, postedQuote 2 1] 0).picks.map
        Pick.dex = [2, 1] ∧
      GreedyTightest (1, 2) 0 [parNote 1, parNote 2]
        [(postedQuote 1 0, 10), (postedQuote 2 1, 10)]
        (matchPair (1, 2) [parNote 1, parNote 2] [postedQuote 1 0, postedQuote 2 1] 0).picks := by
  obtain ⟨history, hrun⟩ := @bothComputed_reached unguarded fun _ => trivial
  have hsnap : SnapshotOf bothComputed.quotes (snapshot bothEntries) := ⟨_, visits_both, rfl⟩
  have hlist : ((snapshot bothEntries).lookup (1, 2)).getD [] =
      [postedQuote 1 0, postedQuote 2 1] := by decide
  have hagree := (router_selector_agree 1000 hrun (Or.inl hsnap) (1, 2) [parNote 1, parNote 2] 0
    _).mpr rfl
  rw [hlist] at hagree
  exact ⟨history, hrun, by decide, hagree⟩

end PswapSolver
