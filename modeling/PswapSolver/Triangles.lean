import PswapSolver.Greedy
import PswapSolver.Termination

/-! # The triangles of a book

The enumeration of triangular matching goes over the paths of two pairs with orders and
closes each with a third pair.  A cycle of three tokens is met once from each of its tokens;
it is written with its smallest token first (`Triangle.canonical`) and looked at only the
first time.  So every directed cycle is considered exactly once, and the two directions of
the same three tokens, which no rotation turns into each other, separately
(`considered_once`).

The third token is compared with the other two, but these are not compared with each
other.  An order that offers and requests the same token gives rise to a "triangle" of two
tokens, which the phase executes like any other.
-/
namespace PswapSolver
open Relation

/-! ## Rotations -/

namespace Triangle
variable {t : Triangle} {x y z : TokenId}

/-- The triangle is one of the three ways to write the cycle `x → y → z → x`. -/
def Around (t : Triangle) (x y z : TokenId) : Prop :=
  t = ⟨x, y, z⟩ ∨ t = ⟨y, z, x⟩ ∨ t = ⟨z, x, y⟩

instance (t : Triangle) (x y z : TokenId) : Decidable (t.Around x y z) :=
  inferInstanceAs (Decidable (_ ∨ _ ∨ _))

theorem canonical_around (x y z : TokenId) : (canonical x y z).Around x y z := by
  unfold canonical
  split
  · exact Or.inl rfl
  split
  · exact Or.inr (Or.inl rfl)
  · exact Or.inr (Or.inr rfl)

/-- What neither of two is, the third one is. -/
theorem least_of_three {x y z : Nat} (hx : ¬ (x ≤ y ∧ x ≤ z)) (hy : ¬ (y ≤ x ∧ y ≤ z)) :
    z ≤ x ∧ z ≤ y := by
  omega

/-- The first token is the smallest. -/
theorem canonical_le (x y z : TokenId) :
    (canonical x y z).a ≤ (canonical x y z).b ∧ (canonical x y z).a ≤ (canonical x y z).c := by
  unfold canonical
  split
  · assumption
  rename_i hx
  split
  · rename_i hy
    exact ⟨hy.2, hy.1⟩
  · rename_i hy
    exact least_of_three hx hy

/-- With the smallest token first there is one way to write a cycle of three tokens. -/
theorem Around.eq_canonical (h : t.Around x y z) (hle : t.a ≤ t.b ∧ t.a ≤ t.c) (hxy : x ≠ y)
    (hyz : y ≠ z) (hzx : z ≠ x) : t = canonical x y z := by
  unfold canonical
  rcases h with rfl | rfl | rfl
  · rw [if_pos hle]
  · have hx : ¬ (x ≤ y ∧ x ≤ z) := fun h => hxy (Nat.le_antisymm h.1 hle.2)
    rw [if_neg hx, if_pos ⟨hle.2, hle.1⟩]
  · have hx : ¬ (x ≤ y ∧ x ≤ z) := fun h => hzx (Nat.le_antisymm hle.1 h.2)
    have hy : ¬ (y ≤ x ∧ y ≤ z) := fun h => hyz (Nat.le_antisymm h.2 hle.2)
    rw [if_neg hx, if_neg hy]

/-- No triangle runs in both directions. -/
theorem Around.not_reversed (h : t.Around x y z) (hxy : x ≠ y) (hyz : y ≠ z) (hzx : z ≠ x) :
    ¬ t.Around x z y := by
  intro h'
  rcases h with rfl | rfl | rfl
  all_goals
    simp only [Around, Triangle.mk.injEq] at h'
    grind

end Triangle

/-! ## What is considered -/

/-- The triangle on which the body of the triple loop calls `try_build_entry`, if it does. -/
def considers (tokenA tokenB tokenC : TokenId) (st : Enumerated) : Option Triangle :=
  if tokenC = tokenA ∨ tokenC = tokenB ∨ st.book.hasOrders tokenC tokenA = false ∨
      Triangle.canonical tokenA tokenB tokenC ∈ st.seen then none
  else some (Triangle.canonical tokenA tokenB tokenC)

/-- The triangles on which `try_build_entry` is called, in this order. -/
def consideredFrom : List (TokenId × TokenId × TokenId) → Enumerated → List Triangle
  | [], _ => []
  | p :: ps, st =>
    (considers p.1 p.2.1 p.2.2 st).toList ++ consideredFrom ps (visitTriangle p.1 p.2.1 p.2.2 st)

/-- The triangles `enumerate_triangles` considers. -/
def considered (order : Enumeration) (b : OrderBook) : List Triangle :=
  consideredFrom order.triples ⟨b, ∅, [], ∅⟩

section Considered
variable {b : OrderBook} {st : Enumerated} {t : Triangle} {x y z : TokenId}

theorem considers_fresh (h : considers x y z st = some t) : t ∉ st.seen := by
  unfold considers at h
  split at h
  · cases h
  · rename_i hno
    cases h
    exact fun hseen => hno (Or.inr (Or.inr (Or.inr hseen)))

/-- The body of the loop builds the entry of what it considers, and does nothing otherwise. -/
theorem visitTriangle_considers (hb : b.InStep ∅) (hbook : st.book = b) (x y z : TokenId) :
    visitTriangle x y z st =
      (considers x y z st).elim st fun t => st.record t (tryBuildEntry b t).1 := by
  rw [visitTriangle_eq hb hbook, considers, hbook]
  split <;> rfl

/-- **A pass over triples** considers no triangle twice and none that was seen before, and has
then seen what it considered. -/
theorem consideredFrom_spec (hb : b.InStep ∅) (ps : List (TokenId × TokenId × TokenId))
    (hbook : st.book = b) :
    (consideredFrom ps st).Nodup ∧ (∀ t ∈ consideredFrom ps st, t ∉ st.seen) ∧
      ∀ t, t ∈ (ps.foldl (fun st p => visitTriangle p.1 p.2.1 p.2.2 st) st).seen ↔
        t ∈ st.seen ∨ t ∈ consideredFrom ps st := by
  induction ps generalizing st with
  | nil => exact ⟨List.nodup_nil, by simp [consideredFrom], by simp [consideredFrom]⟩
  | cons p ps ih =>
    rw [consideredFrom, List.foldl_cons, visitTriangle_considers hb hbook]
    cases hc : considers p.1 p.2.1 p.2.2 st with
    | none => exact ih hbook
    | some t₀ =>
      have hfresh : t₀ ∉ st.seen := considers_fresh hc
      have hbook' : (st.record t₀ (tryBuildEntry b t₀).1).book = b := by
        rw [Enumerated.record_book, hbook]
      obtain ⟨hnodup, hnew, hseen⟩ := ih hbook'
      simp only [Enumerated.record_seen, Finset.mem_insert, not_or] at hnew hseen
      refine ⟨?_, ?_, ?_⟩
      · exact List.nodup_cons.mpr ⟨fun hmem => (hnew t₀ hmem).1 rfl, hnodup⟩
      · intro t ht
        rcases List.mem_cons.mp ht with rfl | ht
        · exact hfresh
        · exact (hnew t ht).2
      · intro t
        refine (hseen t).trans ?_
        simp only [Option.toList_some, List.singleton_append, List.mem_cons]
        tauto

theorem considered_nodup (hb : b.InStep ∅) (order : Enumeration) :
    (considered order b).Nodup := (consideredFrom_spec hb order.triples rfl).1

theorem mem_considered (hb : b.InStep ∅) (order : Enumeration) :
    t ∈ considered order b ↔ t ∈ (enumerateTriangles order b).seen := by
  rw [enumerateTriangles_eq_foldl, (consideredFrom_spec hb order.triples rfl).2.2 t]
  simp [considered]

end Considered

/-! ## Every cycle once -/

/-- A directed cycle of three tokens whose three pairs have visible orders. -/
structure OrderBook.DirectedCycle (b : OrderBook) (x y z : TokenId) : Prop where
  distinct : x ≠ y ∧ y ≠ z ∧ z ≠ x
  xy : ∃ id o, b.Sees (x, y) id o
  yz : ∃ id o, b.Sees (y, z) id o
  zx : ∃ id o, b.Sees (z, x) id o

section Once
variable {s₀ : Progress} {x y z : TokenId}

/-- A pair with a visible order has orders, and its tokens are known. -/
theorem OrderBook.InStep.known_of_sees (hb : s₀.book.InStep ∅)
    (h : ∃ id o, s₀.book.Sees (x, y) id o) :
    s₀.book.hasOrders x y = true ∧ x ∈ s₀.book.tokens ∧ y ∈ s₀.book.tokens := by
  obtain ⟨id, o, hsees⟩ := h
  obtain ⟨hmem, hlookup⟩ := hb.sees_iff.mp hsees
  obtain ⟨rfl, rfl⟩ := Prod.mk.inj hsees.2.1
  exact ⟨hb.indexed.hasOrders_iff.mpr (List.ne_nil_of_mem hmem), hb.tokens hlookup⟩

/-- **Every directed cycle is considered exactly once.** -/
theorem considered_once (hb : s₀.book.InStep ∅) {order : Enumeration} (hof : order.Of s₀.book)
    (h : s₀.book.DirectedCycle x y z) :
    (considered order s₀.book).countP (fun t => t.Around x y z) = 1 := by
  obtain ⟨hxy, -, hy⟩ := hb.known_of_sees h.xy
  obtain ⟨hyz, -⟩ := hb.known_of_sees h.yz
  obtain ⟨hzx, -⟩ := hb.known_of_sees h.zx
  obtain ⟨nexy, neyz, nezx⟩ := h.distinct
  have hmem : Triangle.canonical x y z ∈ considered order s₀.book := by
    rw [mem_considered hb]
    exact enumerateTriangles_visits hb (hof.mem_triples hb hy hxy hyz) nezx neyz.symm hzx
  rw [← List.count_eq_one_of_mem (considered_nodup hb order) hmem]
  -- of the triangles considered, only this one goes round the three tokens
  refine List.countP_congr fun t ht => ?_
  rw [decide_eq_true_iff, beq_iff_eq]
  constructor
  · intro hround
    obtain ⟨x', y', z', -, -, rfl⟩ :=
      (enumerateTriangles_collected hb order).seen t ((mem_considered hb order).mp ht)
    exact hround.eq_canonical (Triangle.canonical_le x' y' z') nexy neyz nezx
  · rintro rfl
    exact Triangle.canonical_around x y z

end Once

/-! ## When a cycle is executed -/

section Executed
variable {s₀ : Progress} {s : CycleState}

/-- A greedy process that executed nothing is where it was. -/
theorem cycles_of_greedy {R : Triangle → Prop} {L L' : Ledger}
    (h : ReflTransGen (Greedy R) L L') : L' = L ∨ L.cycles < L'.cycles := by
  induction h with
  | refl => exact Or.inl rfl
  | tail _ hstep ih =>
    right
    obtain ⟨-, -⟩ := hstep
    rcases ih with rfl | hlt
    · exact Nat.lt_succ_self _
    · exact Nat.lt_succ_of_lt hlt

/-- **Triangular matching executes a cycle iff some triangle is worth something when it
begins.** -/
theorem CycleReaches.executes_iff (hb : s₀.book.InStep ∅) (h : CycleReaches s₀ s)
    (hdone : s.heap = []) : s₀.cycles < s.cycles ↔ ∃ t, Registered s₀.ledger t := by
  have hgreedy := (h.greedy hb).1
  constructor
  · intro hlt
    rcases hgreedy.cases_head with heq | ⟨L, hstep, -⟩
    · have hcycles : s₀.cycles = s.cycles := congrArg Ledger.cycles heq
      omega
    · obtain ⟨hbest, -⟩ := hstep
      exact ⟨_, hbest.registered⟩
  · rintro ⟨t, ht⟩
    rcases cycles_of_greedy hgreedy with heq | hlt
    · -- nothing executed: the triangle would still be worth something at the end
      have hworth := ht.2
      rw [← heq, h.exhausted hb hdone ht] at hworth
      cases hworth
    · exact hlt

/-- `try_build_entry` succeeds on the cycle. -/
def OrderBook.Builds (b : OrderBook) (x y z : TokenId) : Prop :=
  (tryBuildEntry b (Triangle.canonical x y z)).1.isSome = true

instance (b : OrderBook) (x y z : TokenId) : Decidable (b.Builds x y z) :=
  inferInstanceAs (Decidable (_ = _))

theorem OrderBook.InStep.builds_iff (hb : s₀.book.InStep ∅) {x y z : TokenId} :
    s₀.book.Builds x y z ↔ (s₀.ledger.entryOf (Triangle.canonical x y z)).isSome = true := by
  rw [OrderBook.Builds, tryBuildEntry_eq hb]

/-- Three tokens on which an entry is built have visible orders all round. -/
theorem OrderBook.Builds.sees {x y z : TokenId} (h : s₀.book.Builds x y z)
    (hb : s₀.book.InStep ∅) : (∃ id o, s₀.book.Sees (x, y) id o) ∧
      (∃ id o, s₀.book.Sees (y, z) id o) ∧ ∃ id o, s₀.book.Sees (z, x) id o := by
  obtain ⟨⟨o₁, h₁⟩, ⟨o₂, h₂⟩, o₃, h₃⟩ := Ledger.firsts_of_canonical (hb.builds_iff.mp h)
  exact ⟨⟨_, _, hb.sees_first h₁⟩, ⟨_, _, hb.sees_first h₂⟩, _, _, hb.sees_first h₃⟩

/-- What is worth something is a cycle of three tokens, or of two. -/
theorem registered_iff (hb : s₀.book.InStep ∅) : (∃ t, Registered s₀.ledger t) ↔
    (∃ x y z, s₀.book.DirectedCycle x y z ∧ s₀.book.Builds x y z) ∨
      ∃ x z, x ≠ z ∧ s₀.book.Builds x x z := by
  constructor
  · rintro ⟨t, ⟨x, y, z, hzx, hzy, rfl⟩, hworth⟩
    have hbuilds : s₀.book.Builds x y z := hb.builds_iff.mpr hworth
    by_cases hxy : x = y
    · subst hxy
      exact Or.inr ⟨x, z, hzx.symm, hbuilds⟩
    · obtain ⟨h₁, h₂, h₃⟩ := hbuilds.sees hb
      exact Or.inl ⟨x, y, z, ⟨⟨hxy, hzy.symm, hzx⟩, h₁, h₂, h₃⟩, hbuilds⟩
  · rintro (⟨x, y, z, hcycle, hbuilds⟩ | ⟨x, z, hne, hbuilds⟩)
    · obtain ⟨-, hyz, hzx⟩ := hcycle.distinct
      exact ⟨_, ⟨x, y, z, hzx, hyz.symm, rfl⟩, hb.builds_iff.mp hbuilds⟩
    · exact ⟨_, ⟨x, x, z, hne.symm, hne.symm, rfl⟩, hb.builds_iff.mp hbuilds⟩

end Executed

/-- **The enumeration is complete and free of duplicates.**  No triangle is considered twice, and
every directed cycle of three tokens with visible orders exactly once, in either direction.  The
phase executes a cycle iff an entry is built for such a cycle, provided that no entry is built
for a "triangle" with the same token twice, or else also one for a proper cycle; without orders
that offer and request the same token this is always so. -/
theorem triangle_enumeration_complete {s₀ : Progress} (hb : s₀.book.Reachable)
    {order : Enumeration} (hof : order.Of s₀.book) :
    (considered order s₀.book).Nodup ∧
    (∀ x y z, s₀.book.DirectedCycle x y z →
      (considered order s₀.book).countP (fun t => t.Around x y z) = 1 ∧
        ∀ t : Triangle, t.Around x y z → ¬ t.Around x z y) ∧
    (∀ s, ReflTransGen (CycleStep (enumerateTriangles order s₀.book).trianglesByPair)
        (cycleStart order s₀) s → s.heap = [] →
      ((s₀.cycles < s.cycles ↔
          ∃ x y z, s₀.book.DirectedCycle x y z ∧ s₀.book.Builds x y z) ↔
        ((∃ x z, x ≠ z ∧ s₀.book.Builds x x z) →
          ∃ x y z, s₀.book.DirectedCycle x y z ∧ s₀.book.Builds x y z))) ∧
    ((∀ id o, s₀.book.orders.lookup id = some o → o.offeredToken ≠ o.requestedToken) →
      ¬ ∃ x z, x ≠ z ∧ s₀.book.Builds x x z) := by
  have hstep := hb.inv.inStep
  refine ⟨considered_nodup hstep order, ?_, ?_, ?_⟩
  · intro x y z hcycle
    obtain ⟨hxy, hyz, hzx⟩ := hcycle.distinct
    exact ⟨considered_once hstep hof hcycle, fun t h => h.not_reversed hxy hyz hzx⟩
  · intro s hrun hdone
    rw [CycleReaches.executes_iff hstep ⟨order, hof, hrun⟩ hdone, registered_iff hstep]
    exact or_iff_left_iff_imp
  · rintro hdistinct ⟨x, z, -, hbuilds⟩
    obtain ⟨⟨id, o, hsees⟩, -⟩ := hbuilds.sees hstep
    obtain ⟨hoffered, hrequested⟩ := Prod.mk.inj hsees.2.1
    exact hdistinct id o hsees.1 (hoffered.trans hrequested.symm)

/-- The two cycles of the fork are considered once each. -/
theorem fork_considered :
    (considered (forkEnumeration [3, 4]) forkBook).countP (fun t => t.Around 1 2 3) = 1 ∧
    (considered (forkEnumeration [3, 4]) forkBook).countP (fun t => t.Around 1 2 4) = 1 := by
  have hb : (runStart forkBook).book.Reachable := forkBook_reachable
  have hof : (forkEnumeration [3, 4]).Of forkBook := ⟨by decide, by decide, by decide⟩
  obtain ⟨-, honce, -, -⟩ := triangle_enumeration_complete hb hof
  have hbuilds : (runStart forkBook).book.Builds 1 2 3 := by decide +kernel
  have hbuilds' : (runStart forkBook).book.Builds 1 2 4 := by decide +kernel
  obtain ⟨h₁, h₂, h₃⟩ := hbuilds.sees hb.inv.inStep
  obtain ⟨-, h₄, h₅⟩ := hbuilds'.sees hb.inv.inStep
  exact ⟨(honce 1 2 3 ⟨by decide, h₁, h₂, h₃⟩).1, (honce 1 2 4 ⟨by decide, h₁, h₄, h₅⟩).1⟩

/-! ### A triangle of two tokens

Order 1 offers 1000 of token 1 for 100 of the same token; orders 2 and 3 exchange tokens 1 and 2
and do not cross. -/

def sameTokenBook : OrderBook :=
  triangleBook (swapTerms 1 1 1000 100) (swapTerms 1 2 100 100) (swapTerms 2 1 100 110)

def sameTokenEnumeration : Enumeration where
  tokens := [1, 2]
  incoming := fun t => if t = 1 then [1, 2] else [1]
  outgoing := fun t => if t = 1 then [1, 2] else [1]

/-- There are two tokens in the book, so no cycle of three, and yet a cycle is executed. -/
theorem two_tokens_execute_cycle : sameTokenBook.Reachable ∧
    sameTokenEnumeration.Of sameTokenBook ∧
    (∃ s, ReflTransGen
        (CycleStep (enumerateTriangles sameTokenEnumeration sameTokenBook).trianglesByPair)
        (cycleStart sameTokenEnumeration (runStart sameTokenBook)) s ∧ s.heap = [] ∧
        0 < s.cycles) ∧
    ¬ ∃ x y z, sameTokenBook.DirectedCycle x y z ∧ sameTokenBook.Builds x y z := by
  have hb : sameTokenBook.Reachable := triangleBook_reachable _ _ _
  have hstep : (runStart sameTokenBook).book.InStep ∅ := hb.inv.inStep
  have hof : sameTokenEnumeration.Of sameTokenBook := ⟨by decide, by decide, by decide⟩
  refine ⟨hb, hof, ?_, ?_⟩
  · obtain ⟨s, hrun, hdone⟩ := exists_cycle_end hstep hof .refl
    refine ⟨s, hrun, hdone, ?_⟩
    rw [show (0 : Nat) = (runStart sameTokenBook).cycles from rfl,
      CycleReaches.executes_iff hstep ⟨sameTokenEnumeration, hof, hrun⟩ hdone]
    have hbuilds : sameTokenBook.Builds 1 1 2 := by decide +kernel
    exact ⟨_, ⟨1, 1, 2, by decide, by decide, rfl⟩, OrderBook.InStep.builds_iff hstep |>.mp hbuilds⟩
  · rintro ⟨x, y, z, hcycle, -⟩
    have htokens : sameTokenBook.tokens = {1, 2} := by decide
    obtain ⟨-, hx, hy⟩ := hstep.known_of_sees hcycle.xy
    obtain ⟨-, -, hz⟩ := hstep.known_of_sees hcycle.yz
    obtain ⟨hxy, hyz, hzx⟩ := hcycle.distinct
    simp only [runStart, htokens, Finset.mem_insert, Finset.mem_singleton] at hx hy hz
    grind

end PswapSolver
