import Mathlib.Data.List.DropRight
import Mathlib.Data.List.Sort

/-! # Order statistics and suffixes of sorted lists

Two things about lists over a linear order.  The element at place `k` of a list in ascending
order can be said without sorting the list: fewer than `k + 1` elements are below it, and more
than `k` are not above it (`IsRank`).  The median is then one or two such elements
(`IsMedian`).

A predicate that stays true along a list selects a suffix of it.  Dropping the elements before
the first that satisfies it is then the same as filtering, and filtering commutes with taking
the last elements. -/
namespace OrderStatistics

section Rank
variable {α : Type} [LinearOrder α] {l : List α} {k : Nat} {x y : α}

/-- `x` is at place `k` of the list in ascending order. -/
def IsRank (l : List α) (k : Nat) (x : α) : Prop :=
  l.countP (· < x) ≤ k ∧ k < l.countP (· ≤ x)

theorem IsRank.le (hx : IsRank l k x) (hy : IsRank l k y) : y ≤ x := by
  by_contra hlt
  have hmono : l.countP (· ≤ x) ≤ l.countP (· < y) := by
    apply List.countP_mono_left
    intro z _ hz
    rw [decide_eq_true_eq] at hz ⊢
    exact lt_of_le_of_lt hz (lt_of_not_ge hlt)
  have hx := hx.2
  have hy := hy.1
  omega

/-- There is one element at each place. -/
theorem IsRank.unique (hx : IsRank l k x) (hy : IsRank l k y) : x = y :=
  le_antisymm (hy.le hx) (hx.le hy)

theorem IsRank.perm {l' : List α} (h : IsRank l k x) (hp : l.Perm l') : IsRank l' k x := by
  unfold IsRank at h ⊢
  rwa [← hp.countP_eq, ← hp.countP_eq]

/-- In a sorted list the places are the indices. -/
theorem isRank_of_sorted (hs : l.Pairwise (· ≤ ·)) (hk : l[k]? = some x) : IsRank l k x := by
  induction l generalizing k with
  | nil => cases hk
  | cons a l ih =>
    obtain ⟨hhead, htail⟩ := List.pairwise_cons.mp hs
    cases k with
    | zero =>
      obtain rfl : a = x := Option.some.inj hk
      constructor
      · apply Nat.le_of_eq
        rw [List.countP_eq_zero]
        intro z hz
        rw [decide_eq_true_eq, not_lt]
        rcases List.mem_cons.mp hz with rfl | hz
        · exact le_refl _
        · exact hhead z hz
      · rw [List.countP_cons_of_pos (by simp)]
        omega
    | succ k =>
      have hk : l[k]? = some x := hk
      obtain ⟨hbelow, habove⟩ := ih htail hk
      have hle : a ≤ x := hhead x (List.mem_of_getElem? hk)
      constructor
      · rw [List.countP_cons]
        split <;> omega
      · rw [List.countP_cons_of_pos (by simpa using hle)]
        omega

/-- The element at index `k` of the sorted list is at place `k`. -/
theorem isRank_insertionSort (hk : (l.insertionSort (· ≤ ·))[k]? = some x) : IsRank l k x :=
  (isRank_of_sorted (List.pairwise_insertionSort _ l) hk).perm (List.perm_insertionSort _ l)

end Rank

/-! ## The median -/

/-- **The median of a list of numbers**: the middle element, or the mean of the two middle
elements, rounded down; none for the empty list. -/
def IsMedian (l : List Nat) : Option Nat → Prop
  | none => l = []
  | some m =>
    l.length % 2 = 1 ∧ IsRank l (l.length / 2) m ∨
    0 < l.length ∧ l.length % 2 = 0 ∧ ∃ lower upper,
      IsRank l (l.length / 2 - 1) lower ∧ IsRank l (l.length / 2) upper ∧ m = (lower + upper) / 2

/-- There is only one median. -/
theorem IsMedian.unique {l : List Nat} {m m' : Option Nat} (h : IsMedian l m)
    (h' : IsMedian l m') : m = m' := by
  cases m with
  | none =>
    cases h
    cases m' with
    | none => rfl
    | some m' =>
      rcases h' with ⟨hodd, -⟩ | ⟨hpos, -⟩
      · cases hodd
      · cases hpos
  | some m =>
    cases m' with
    | none =>
      cases h'
      rcases h with ⟨hodd, -⟩ | ⟨hpos, -⟩
      · cases hodd
      · cases hpos
    | some m' =>
      rcases h with ⟨hodd, h⟩ | ⟨-, heven, lower, upper, hlower, hupper, rfl⟩ <;>
        rcases h' with ⟨hodd', h'⟩ | ⟨-, heven', lower', upper', hlower', hupper', rfl⟩
      · rw [h.unique h']
      · omega
      · omega
      · rw [hlower.unique hlower', hupper.unique hupper']

/-! ## Suffixes -/

section Suffix
variable {α : Type} {p : α → Bool}

/-- Dropping what comes before the first element that satisfies a lasting predicate leaves the
elements that satisfy it. -/
theorem dropWhile_eq_filter {l : List α} (h : l.Pairwise fun a b => p a = true → p b = true) :
    l.dropWhile (fun a => !p a) = l.filter p := by
  induction l with
  | nil => rfl
  | cons a l ih =>
    obtain ⟨hhead, htail⟩ := List.pairwise_cons.mp h
    by_cases ha : p a = true
    · have hall : ∀ b ∈ a :: l, p b = true := by
        intro b hb
        rcases List.mem_cons.mp hb with rfl | hb
        · exact ha
        · exact hhead b hb ha
      rw [List.dropWhile_cons_of_neg (by simp [ha]), List.filter_eq_self.mpr hall]
    · rw [List.dropWhile_cons_of_pos (by simp [ha]), List.filter_cons_of_neg ha, ih htail]

/-- On a list along which a predicate never becomes true again, filtering commutes with taking
the first elements. -/
theorem filter_take {l : List α} (h : l.Pairwise fun a b => p b = true → p a = true) (n : Nat) :
    (l.take n).filter p = (l.filter p).take n := by
  induction l generalizing n with
  | nil => simp
  | cons a l ih =>
    obtain ⟨hhead, htail⟩ := List.pairwise_cons.mp h
    cases n with
    | zero => simp
    | succ n =>
      by_cases ha : p a = true
      · rw [List.take_succ_cons, List.filter_cons_of_pos ha, List.filter_cons_of_pos ha,
          List.take_succ_cons, ih htail]
      · -- nothing later satisfies the predicate either
        have hnone : ∀ b ∈ a :: l, ¬ p b = true := by
          intro b hb hpb
          rcases List.mem_cons.mp hb with rfl | hb
          · exact ha hpb
          · exact ha (hhead b hb hpb)
        rw [List.filter_eq_nil_iff.mpr hnone, List.take_nil, List.filter_eq_nil_iff]
        intro b hb
        exact hnone b (List.mem_of_mem_take hb)

/-- Filtering by a lasting predicate commutes with taking the last elements. -/
theorem filter_rtake {l : List α} (h : l.Pairwise fun a b => p a = true → p b = true) (n : Nat) :
    (l.rtake n).filter p = (l.filter p).rtake n := by
  rw [List.rtake_eq_reverse_take_reverse, List.rtake_eq_reverse_take_reverse, List.filter_reverse,
    filter_take (List.pairwise_reverse.mpr h), List.filter_reverse]

end Suffix

end OrderStatistics
