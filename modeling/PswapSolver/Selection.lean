import PswapSolver.Tightest

/-! # Selection is safe and leaves nothing behind

What `select_notes` does over all pairs.  A pick is of a note of its pair, whole, for a live
quote that crosses it, and the picks for a quote stay within its supply.  A note that is not
picked found no quote with room at its turn; what a quote can supply only shrinks later, so it
finds none at the end either (`matchNotes_leaves`).

A quote with a zero demand gives its supply away for nothing: it crosses every note.  The
selector treats it as degenerate and skips it, so a note may be left beside such a quote.
-/
namespace PswapSolver

/-- What the picks take from the quote of a DEX for a pair. -/
def allotted (picks : List Pick) (dex : DexId) (pair : Pair) : Nat :=
  ((picks.filter fun k => decide (k.dex = dex ∧ k.pair = pair)).map Pick.fill).sum

theorem allotted_cons (k : Pick) (picks : List Pick) (dex : DexId) (pair : Pair) :
    allotted (k :: picks) dex pair =
      (if k.dex = dex ∧ k.pair = pair then k.fill else 0) + allotted picks dex pair := by
  unfold allotted
  by_cases h : k.dex = dex ∧ k.pair = pair
  · rw [List.filter_cons_of_pos (by simpa using h), if_pos h, List.map_cons, List.sum_cons]
  · rw [List.filter_cons_of_neg (by simpa using h), if_neg h, Nat.zero_add]

theorem allotted_append (picks picks' : List Pick) (dex : DexId) (pair : Pair) :
    allotted (picks ++ picks') dex pair = allotted picks dex pair + allotted picks' dex pair := by
  unfold allotted
  rw [List.filter_append, List.map_append, List.sum_append]

/-- Picks of other pairs take nothing. -/
theorem allotted_of_other {picks : List Pick} {pair : Pair} (h : ∀ k ∈ picks, k.pair ≠ pair)
    (dex : DexId) : allotted picks dex pair = 0 := by
  unfold allotted
  rw [List.filter_eq_nil_iff.mpr]
  · rfl
  · intro k hk
    rw [decide_eq_true_eq]
    exact fun hboth => h k hk hboth.2

/-! ## One pair -/

section OnePair
variable {pair : Pair} {time : Nat} {ledger : List (Quote × Nat)} {i : Nat} {q : Quote}
  {remaining : Nat}

/-- No DEX has two quotes in the ledger. -/
def OneQuoteEach (ledger : List (Quote × Nat)) : Prop := (ledger.map fun e => e.1.dex).Nodup

theorem OneQuoteEach.set (h : OneQuoteEach ledger) (hi : ledger[i]? = some (q, remaining))
    (amount : Nat) : OneQuoteEach (ledger.set i (q, amount)) := by
  have hquotes := map_fst_set hi amount
  unfold OneQuoteEach at h ⊢
  rw [show (fun e : Quote × Nat => e.1.dex) = Quote.dex ∘ Prod.fst from rfl, ← List.map_map] at h ⊢
  rwa [hquotes]

/-- **A note is given to a quote**: every quote keeps its place, and the one given the note has
that much less. -/
theorem OneQuoteEach.given {j : Nat} {q' : Quote} {remaining' amount : Nat}
    (h : OneQuoteEach ledger) (hi : ledger[i]? = some (q, remaining))
    (hj : ledger[j]? = some (q', remaining')) (hroom : amount ≤ remaining') :
    ∃ left, (ledger.set j (q', remaining' - amount))[i]? = some (q, left) ∧
      (if q'.dex = q.dex then amount else 0) + left = remaining := by
  by_cases hij : j = i
  · subst hij
    obtain ⟨rfl, rfl⟩ := Prod.mk.inj (Option.some.inj (hi.symm.trans hj))
    obtain ⟨hlt, -⟩ := List.getElem?_eq_some_iff.mp hi
    refine ⟨remaining - amount, ?_, ?_⟩
    · rw [List.getElem?_set_self hlt]
    · rw [if_pos rfl]
      omega
  · -- different places hold quotes of different DEXes
    have hdex : q'.dex ≠ q.dex := by
      intro heq
      have hlt : j < (ledger.map fun e => e.1.dex).length := by
        rw [List.length_map]
        exact (List.getElem?_eq_some_iff.mp hj).1
      apply hij
      apply (List.getElem?_inj hlt h).mp
      rw [List.getElem?_map, List.getElem?_map, hi, hj]
      exact congrArg some heq
    refine ⟨remaining, ?_, ?_⟩
    · rw [List.getElem?_set_ne hij]
      exact hi
    · rw [if_neg hdex]
      omega

/-- **A quote is not overdrawn**: what is picked for it fits into what it can supply. -/
theorem OneQuoteEach.allotted_le (h : OneQuoteEach ledger) (hi : ledger[i]? = some (q, remaining))
    (notes : List Order) :
    allotted (matchNotes pair time notes ledger) q.dex pair ≤ remaining := by
  induction notes generalizing ledger remaining with
  | nil => exact Nat.zero_le _
  | cons note notes ih =>
    obtain ⟨-, hleft⟩ | ⟨j, q', remaining', hj, -, -, hroom, hpick⟩ :=
      matchNotes_turn pair time note notes ledger
    · rw [hleft]
      exact ih h hi
    · obtain ⟨left, hi', hsum⟩ := h.given hi hj hroom
      have hrest := ih (h.set hj _) hi'
      rw [hpick, allotted_cons]
      simp only [and_true]
      omega

/-- **A note that is left found no quote with room**, and finds none at the end: what is picked
for a live quote that crosses it leaves less than the note requests. -/
theorem matchNotes_leaves {notes : List Order} (h : OneQuoteEach ledger)
    (hsorted : (ledger.map Prod.fst).Pairwise moreGenerous)
    (hi : ledger[i]? = some (q, remaining)) (hlive : skipped time q = false) {note : Order}
    (hmem : note ∈ notes) (hcross : crosses note q = true)
    (hleft : note.id ∉ (matchNotes pair time notes ledger).map Pick.noteId) :
    remaining < note.requested + allotted (matchNotes pair time notes ledger) q.dex pair := by
  induction notes generalizing ledger remaining with
  | nil => cases hmem
  | cons first notes ih =>
    obtain ⟨hnone, heq⟩ | ⟨j, q', remaining', hj, -, -, hroom, hpick⟩ :=
      matchNotes_turn pair time first notes ledger
    · rw [heq] at hleft ⊢
      rcases List.mem_cons.mp hmem with rfl | hmem
      · -- its own turn: no quote was a candidate
        have hno := (chooseQuote_spec note time hsorted).2 hnone (q, remaining)
          (List.mem_of_getElem? hi)
        have hfull : remaining < note.requested := by
          by_contra hroom
          exact hno ⟨hlive, hcross, Nat.le_of_not_lt hroom⟩
        omega
      · exact ih h hsorted hi hmem hleft
    · rw [hpick, List.map_cons, List.mem_cons, not_or] at hleft
      rcases List.mem_cons.mp hmem with rfl | hmem
      · exact absurd rfl hleft.1
      · obtain ⟨left, hi', hsum⟩ := h.given hi hj hroom
        have hsorted' : ((ledger.set j (q', remaining' - first.requested)).map
            Prod.fst).Pairwise moreGenerous := by
          rw [map_fst_set hj]
          exact hsorted
        have hrest := ih (h.set hj _) hsorted' hi' hmem hleft.2
        rw [hpick, allotted_cons]
        simp only [and_true]
        omega

/-- A pick is of a note, whole, for a live quote of the ledger that crosses it. -/
theorem matchNotes_sound {notes : List Order} {k : Pick}
    (hk : k ∈ matchNotes pair time notes ledger) :
    k.pair = pair ∧ ∃ note ∈ notes, ∃ e ∈ ledger, note.id = k.noteId ∧ k.fill = note.requested ∧
      e.1.dex = k.dex ∧ skipped time e.1 = false ∧ crosses note e.1 = true := by
  induction notes generalizing ledger with
  | nil => cases hk
  | cons first notes ih =>
    obtain ⟨-, heq⟩ | ⟨j, q', remaining', hj, hlive, hcross, -, hpick⟩ :=
      matchNotes_turn pair time first notes ledger
    · rw [heq] at hk
      obtain ⟨hpair, note, hmem, hnote⟩ := ih hk
      exact ⟨hpair, note, List.mem_cons_of_mem _ hmem, hnote⟩
    · rw [hpick] at hk
      have hq' : (q', remaining') ∈ ledger := List.mem_of_getElem? hj
      rcases List.mem_cons.mp hk with rfl | hk
      · exact ⟨rfl, first, List.mem_cons_self, _, hq', rfl, rfl, rfl, hlive, hcross⟩
      · obtain ⟨hpair, note, hmem, e, he, hnote⟩ := ih hk
        refine ⟨hpair, note, List.mem_cons_of_mem _ hmem, ?_⟩
        rcases List.mem_or_eq_of_mem_set he with he | rfl
        · exact ⟨e, he, hnote⟩
        · exact ⟨_, hq', hnote⟩

end OnePair

/-! ## All pairs -/

/-- **What `select_notes` is given**: the notes of a pair are orders of that pair, no two notes
share an id, and a DEX has at most one quote for a pair. -/
structure SelectionInput (notesByPair : Pair → List Order) (quotes : QuotesSnapshot) : Prop where
  own : ∀ {p note}, note ∈ notesByPair p → note.pair = p
  nodup : ∀ p, ((notesByPair p).map Order.id).Nodup
  distinct : ∀ {p p' note note'}, note ∈ notesByPair p → note' ∈ notesByPair p' →
    note.id = note'.id → p = p'
  oneQuote : ∀ p, (((quotes.lookup p).getD []).map Quote.dex).Nodup

/-- The ledger a pair starts with. -/
def startLedger (quotes : List Quote) : List (Quote × Nat) := quotes.map fun q => (q, q.supply)

theorem startLedger_fst (quotes : List Quote) : (startLedger quotes).map Prod.fst = quotes := by
  unfold startLedger
  rw [List.map_map]
  exact List.map_id _

section Selection
variable {notesByPair : Pair → List Order} {quotes : QuotesSnapshot} {order : List Pair}
  {time : Nat}

theorem SelectionInput.oneQuoteEach (h : SelectionInput notesByPair quotes) (p : Pair) :
    OneQuoteEach (startLedger ((quotes.lookup p).getD [])) := by
  unfold OneQuoteEach startLedger
  rw [List.map_map]
  exact h.oneQuote p

/-- A quote is found in the ledger of its pair with all its supply. -/
theorem getElem?_startLedger {quotes : List Quote} {q : Quote} (h : q ∈ quotes) :
    ∃ i : Nat, (startLedger quotes)[i]? = some (q, q.supply) := by
  obtain ⟨i, hi⟩ := List.mem_iff_getElem?.mp h
  refine ⟨i, ?_⟩
  unfold startLedger
  rw [List.getElem?_map, hi]
  rfl

theorem pair_of_mem_picksOf {p : Pair} {k : Pick} (h : k ∈ picksOf notesByPair quotes time p) :
    k.pair = p := (matchNotes_sound h).1

/-- The quote of a DEX for a pair is used by the picks of that pair only. -/
theorem allotted_flatMap {p : Pair} (hp : p ∈ order) (hnodup : order.Nodup) (dex : DexId) :
    allotted (order.flatMap (picksOf notesByPair quotes time)) dex p =
      allotted (picksOf notesByPair quotes time p) dex p := by
  induction order with
  | nil => cases hp
  | cons first order ih =>
    obtain ⟨hfirst, hnodup⟩ := List.nodup_cons.mp hnodup
    rw [List.flatMap_cons, allotted_append]
    rcases List.mem_cons.mp hp with rfl | hp
    · have hothers : ∀ k ∈ order.flatMap (picksOf notesByPair quotes time), k.pair ≠ p := by
        intro k hk hpair
        obtain ⟨p', hp', hk⟩ := List.mem_flatMap.mp hk
        rw [pair_of_mem_picksOf hk] at hpair
        exact hfirst (hpair ▸ hp')
      rw [allotted_of_other hothers, Nat.add_zero]
    · rw [ih hp hnodup, allotted_of_other, Nat.zero_add]
      intro k hk hpair
      rw [pair_of_mem_picksOf hk] at hpair
      exact hfirst (hpair ▸ hp)

/-- No note is picked twice. -/
theorem SelectionInput.nodup_picked (h : SelectionInput notesByPair quotes) (hnodup : order.Nodup) :
    ((order.flatMap (picksOf notesByPair quotes time)).map Pick.noteId).Nodup := by
  rw [List.map_flatMap, List.nodup_flatMap]
  constructor
  · intro p _
    exact (h.nodup p).sublist (matchNotes_sublist ..)
  · refine List.Pairwise.imp ?_ hnodup
    intro p p' hne
    rw [Function.onFun, List.disjoint_left]
    intro id hid hid'
    obtain ⟨note, hnote, rfl⟩ := List.mem_map.mp ((matchNotes_sublist ..).subset hid)
    obtain ⟨note', hnote', heq⟩ := List.mem_map.mp ((matchNotes_sublist ..).subset hid')
    exact hne (h.distinct hnote hnote' heq.symm)

/-- A pair with a quote is visited. -/
theorem VisitsPairs.mem_of_quote (h : VisitsPairs order quotes) {p : Pair} {q : Quote}
    (hq : q ∈ (quotes.lookup p).getD []) : p ∈ order := by
  rw [← List.mem_toFinset, h.2, Finmap.mem_keys, Finmap.mem_iff]
  cases hp : quotes.lookup p with
  | none =>
    rw [hp] at hq
    cases hq
  | some list => exact ⟨list, rfl⟩

/-- **A note of the pair that is left** requests more than any live quote with a demand that it
crosses has at the end. -/
theorem SelectionInput.leaves (h : SelectionInput notesByPair quotes) {p : Pair}
    (hsorted : ((quotes.lookup p).getD []).Pairwise moreGenerous) {note : Order}
    (hnote : note ∈ notesByPair p)
    (hleft : note.id ∉ (picksOf notesByPair quotes time p).map Pick.noteId) {q : Quote}
    (hq : q ∈ (quotes.lookup p).getD []) (htime : time < q.expiresAt) (hdemand : 0 < q.demand)
    (hcross : crosses note q = true) :
    q.supply - allotted (picksOf notesByPair quotes time p) q.dex p < note.requested := by
  have hrequested := note.requested_pos
  by_cases hsupply : q.supply = 0
  · omega
  have hlive : skipped time q = false :=
    skipped_eq_false_iff.mpr ⟨htime, Nat.pos_of_ne_zero hsupply, hdemand⟩
  obtain ⟨i, hi⟩ := getElem?_startLedger hq
  rw [← startLedger_fst ((quotes.lookup p).getD [])] at hsorted
  have hlast : q.supply < note.requested +
      allotted (picksOf notesByPair quotes time p) q.dex p :=
    matchNotes_leaves (h.oneQuoteEach p) hsorted hi hlive hnote hcross hleft
  omega

end Selection

/-- **Selection is safe and leaves nothing routable behind.**  Each note is picked at most once,
whole, for a live quote of its pair that has both amounts and crosses it; what is picked for a
quote stays within its supply.  If the quotes of a pair come most generous first, then for every
note of the pair that is left, every live quote with a demand that crosses it has at the end less
than the note requests. -/
theorem select_notes_safe_and_maximal {notesByPair : Pair → List Order} {quotes : QuotesSnapshot}
    (h : SelectionInput notesByPair quotes) {order : List Pair} (horder : VisitsPairs order quotes)
    (time : Nat) :
    ((selectNotes order notesByPair quotes time).map Pick.noteId).Nodup ∧
    (∀ k ∈ selectNotes order notesByPair quotes time,
      ∃ note ∈ notesByPair k.pair, ∃ q ∈ (quotes.lookup k.pair).getD [],
        note.id = k.noteId ∧ note.pair = k.pair ∧ k.fill = note.requested ∧ q.dex = k.dex ∧
        time < q.expiresAt ∧ 0 < q.supply ∧ 0 < q.demand ∧
        note.requested * q.demand ≤ q.supply * note.offered) ∧
    (∀ p, ∀ q ∈ (quotes.lookup p).getD [],
      allotted (selectNotes order notesByPair quotes time) q.dex p ≤ q.supply) ∧
    ∀ p, ((quotes.lookup p).getD []).Pairwise moreGenerous → ∀ note ∈ notesByPair p,
      note.id ∉ (selectNotes order notesByPair quotes time).map Pick.noteId →
      ∀ q ∈ (quotes.lookup p).getD [], time < q.expiresAt → 0 < q.demand →
        note.requested * q.demand ≤ q.supply * note.offered →
        q.supply - allotted (selectNotes order notesByPair quotes time) q.dex p <
          note.requested := by
  rw [selectNotes_eq]
  refine ⟨h.nodup_picked horder.1, ?_, ?_, ?_⟩
  · intro k hk
    obtain ⟨p, -, hk⟩ := List.mem_flatMap.mp hk
    obtain ⟨rfl, note, hnote, e, he, hid, hfill, hdex, hlive, hcross⟩ := matchNotes_sound hk
    obtain ⟨q, hq, rfl⟩ := List.mem_map.mp he
    obtain ⟨htime, hsupply, hdemand⟩ := skipped_eq_false_iff.mp hlive
    exact ⟨note, hnote, q, hq, hid, h.own hnote, hfill, hdex, htime, hsupply, hdemand,
      of_decide_eq_true hcross⟩
  · intro p q hq
    obtain ⟨i, hi⟩ := getElem?_startLedger hq
    rw [allotted_flatMap (horder.mem_of_quote hq) horder.1]
    exact (h.oneQuoteEach p).allotted_le hi _
  · intro p hsorted note hnote hleft q hq htime hdemand hcross
    have hvisited := horder.mem_of_quote hq
    rw [allotted_flatMap hvisited horder.1]
    refine h.leaves hsorted hnote ?_ hq htime hdemand (decide_eq_true hcross)
    intro hpicked
    apply hleft
    obtain ⟨k, hk, hid⟩ := List.mem_map.mp hpicked
    exact List.mem_map.mpr ⟨k, List.mem_flatMap.mpr ⟨p, hvisited, hk⟩, hid⟩

/-! ### One note and one quote -/

/-- The note `parNote 1`, under its pair. -/
def soleNote (p : Pair) : List Order := if p = (1, 2) then [parNote 1] else []

/-- A quote of DEX 1 that supplies 20 for `demand`, good until time 10. -/
def quoteFor (demand : Nat) : Quote := ⟨1, (1, 2), 20, demand, 10, 0⟩

def oneQuote (demand : Nat) : QuotesSnapshot := (∅ : QuotesSnapshot).insert (1, 2) [quoteFor demand]

theorem lookup_oneQuote (demand : Nat) (p : Pair) :
    ((oneQuote demand).lookup p).getD [] = if p = (1, 2) then [quoteFor demand] else [] := by
  unfold oneQuote
  rw [FiniteMap.lookup_insert_if]
  by_cases hp : p = (1, 2)
  · rw [if_pos hp, if_pos hp]
    rfl
  · rw [if_neg hp, if_neg hp]
    rfl

theorem soleNote_selectionInput (demand : Nat) : SelectionInput soleNote (oneQuote demand) := by
  have hpair : ∀ {p note}, note ∈ soleNote p → p = (1, 2) ∧ note = parNote 1 := by
    intro p note hnote
    unfold soleNote at hnote
    by_cases hp : p = (1, 2)
    · rw [if_pos hp] at hnote
      exact ⟨hp, List.mem_singleton.mp hnote⟩
    · rw [if_neg hp] at hnote
      cases hnote
  refine ⟨?_, ?_, ?_, ?_⟩
  · intro p note hnote
    obtain ⟨rfl, rfl⟩ := hpair hnote
    rfl
  · intro p
    unfold soleNote
    split <;> simp
  · intro p p' note note' hnote hnote' _
    rw [(hpair hnote).1, (hpair hnote').1]
  · intro p
    rw [lookup_oneQuote]
    split <;> simp

theorem visits_oneQuote (demand : Nat) : VisitsPairs [(1, 2)] (oneQuote demand) := by
  refine ⟨by simp, ?_⟩
  unfold oneQuote
  rw [FiniteMap.keys_insert]
  rfl

/-- A quote of 20 for 10 takes the note that asks for 10, and 10 are left of it. -/
theorem select_notes_picks_soleNote :
    (selectNotes [(1, 2)] soleNote (oneQuote 10) 0).map Pick.noteId = [1] ∧
    ((selectNotes [(1, 2)] soleNote (oneQuote 10) 0).map Pick.noteId).Nodup ∧
    allotted (selectNotes [(1, 2)] soleNote (oneQuote 10) 0) 1 (1, 2) ≤ 20 := by
  obtain ⟨hnodup, -, hsupply, -⟩ := select_notes_safe_and_maximal (soleNote_selectionInput 10)
    (visits_oneQuote 10) 0
  exact ⟨by decide, hnodup, hsupply (1, 2) (quoteFor 10) (by decide)⟩

/-- **A quote that asks for nothing is skipped.**  It is live and the note crosses it, the list is
sorted, and all its supply is left at the end; still the note is not picked. -/
theorem zero_demand_quote_unused :
    SelectionInput soleNote (oneQuote 0) ∧ VisitsPairs [(1, 2)] (oneQuote 0) ∧
    (((oneQuote 0).lookup (1, 2)).getD []).Pairwise moreGenerous ∧
    selectNotes [(1, 2)] soleNote (oneQuote 0) 0 = [] ∧ parNote 1 ∈ soleNote (1, 2) ∧
    quoteFor 0 ∈ ((oneQuote 0).lookup (1, 2)).getD [] ∧ 0 < (quoteFor 0).expiresAt ∧
    crosses (parNote 1) (quoteFor 0) = true ∧
    (parNote 1).requested ≤ (quoteFor 0).supply -
      allotted (selectNotes [(1, 2)] soleNote (oneQuote 0) 0) 1 (1, 2) := by
  refine ⟨soleNote_selectionInput 0, visits_oneQuote 0, ?_, ?_, ?_, ?_, ?_, ?_, ?_⟩
  · rw [lookup_oneQuote, if_pos rfl]
    exact List.pairwise_singleton ..
  all_goals decide

end PswapSolver
