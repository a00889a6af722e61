import PswapSolver.DirectMatching

/-! # The accounting of direct matching

Matching credits the protocol after every match, and floors each release
separately.  Settlement fills an order once, with everything it received, and
floors once.  This module relates the two over a whole run of direct matching.

For a token `t` the *flow* is what the settlement leaves with the solver: the sum
of the single-floor releases of the orders offering `t`, minus what the orders
requesting `t` are paid.  An order touched by `k` matches was floored `k` times, and
by the rounding law each of these after the first loses at most one unit against
the single floor.  Hence the flow is at least the balance and exceeds it by at most
the extra matches of the orders offering `t` (`Accounted`).
-/
namespace PswapSolver

namespace OrderBook

/-- What an order's settlement adds to the solver's flow of `token`. -/
def settled (token : TokenId) (o : Order) : Int :=
  (if o.offeredToken = token then ((o.offered * o.requestedFilled / o.requested : Nat) : Int)
    else 0) -
  (if o.requestedToken = token then (o.requestedFilled : Int) else 0)

/-- The solver's net flow of a token once every order is settled in one piece. -/
def flow (b : OrderBook) (token : TokenId) : Int := b.orders.total fun _ o => settled token o

end OrderBook

namespace Progress

/-- How many matches touched the order. -/
def touches (s : Progress) (id : OrderId) : Nat :=
  s.matched.countP fun m => m.1 = id ∨ m.2 = id

/-- The extra matches of the touched orders that offer `token`. -/
def extraMatches (s : Progress) (token : TokenId) : Nat :=
  s.book.orders.total fun id o =>
    if o.offeredToken = token ∧ s.touches id ≠ 0 then s.touches id - 1 else 0

/-- **The accounting invariant of the matching loop.** -/
structure Accounted (s : Progress) : Prop where
  untouched : ∀ {id o}, s.book.orders.lookup id = some o → s.touches id = 0 →
    o.requestedFilled = 0
  balance_le : ∀ t, (s.book.balance t : Int) ≤ s.book.flow t
  flow_le : ∀ t, s.book.flow t ≤ s.book.balance t + s.extraMatches t

/-- A book of unfilled orders and no balances starts out accounted for. -/
theorem accounted_start {b : OrderBook}
    (hfresh : ∀ {id o}, b.orders.lookup id = some o → o.requestedFilled = 0)
    (hbal : ∀ t, b.balance t = 0) (filled : Finset OrderId) :
    Accounted ⟨b, filled, 0, []⟩ := by
  have hflow : ∀ t, b.flow t = 0 := by
    intro t
    refine Finset.sum_eq_zero fun id _ => ?_
    cases ho : b.orders.lookup id with
    | none => rfl
    | some o => simp [OrderBook.settled, hfresh ho]
  refine ⟨fun ho _ => hfresh ho, fun t => ?_, fun t => ?_⟩
  · simp only [hflow, hbal]
    rfl
  · simp only [hflow, hbal]
    omega

/-! ## One match -/

/-- What a fill of `n` on top of an order's earlier fills does to its settlement:
the single floor gains the separate floor of the piece, plus a unit that the
earlier pieces may have lost. -/
theorem settled_deduct (o : Order) {n : Nat} (hn : n ≤ o.requestedRemaining) :
    ∃ carry : Nat, (o.requestedFilled = 0 → carry = 0) ∧ carry ≤ 1 ∧ ∀ t,
      OrderBook.settled t (o.deduct n) = OrderBook.settled t o
        + (if o.offeredToken = t then ((o.offeredFor n + carry : Nat) : Int) else 0)
        - (if o.requestedToken = t then (n : Int) else 0) := by
  have hle : o.requestedFilled + n ≤ o.requested := by
    have := o.remaining_le
    simp only [Order.requestedFilled]
    omega
  have hlow := o.offeredFor_add_le hle
  have hup := o.offeredFor_le_add hle
  refine ⟨o.offeredFor (o.requestedFilled + n) - o.offeredFor o.requestedFilled - o.offeredFor n,
    ?_, ?_, ?_⟩
  · intro h0
    simp [h0]
  · omega
  · intro t
    unfold OrderBook.settled
    rw [o.deduct_requestedFilled hn, Order.deduct_offeredToken, Order.deduct_requestedToken,
      Order.deduct_offered, Order.deduct_requested, ← o.offeredFor_eq hle,
      ← o.offeredFor_eq o.requestedFilled_le]
    split <;> split <;> push_cast <;> omega

/-- A match touches its two orders once more and no other. -/
theorem touches_append {s : Progress} {x y : OrderId} {s' : Progress}
    (hm : s'.matched = s.matched ++ [(x, y)]) (id : OrderId) :
    s'.touches id = s.touches id + if id = x ∨ id = y then 1 else 0 := by
  rw [touches, hm, List.countP_append, touches, List.countP_singleton]
  simp only [decide_eq_true_eq, eq_comm (a := id)]

section Step
variable {s s' : Progress} {x y : OrderId} (m : Matches s.book x y s'.book)

/-- The change of the flow: what the match credits, and the units `carryX` and
`carryY` the single floors regain. -/
theorem flow_step (hxy : m.orderX.offeredToken = m.orderY.requestedToken)
    (hyx : m.orderY.offeredToken = m.orderX.requestedToken) :
    ∃ carryX carryY : Nat, (m.orderX.requestedFilled = 0 → carryX = 0) ∧ carryX ≤ 1 ∧
      (m.orderY.requestedFilled = 0 → carryY = 0) ∧ carryY ≤ 1 ∧
      ∀ t, s'.book.flow t = s.book.flow t
        + (if m.orderX.offeredToken = t then ((m.surplusX + carryX : Nat) : Int) else 0)
        + (if m.orderY.offeredToken = t then ((m.surplusY + carryY : Nat) : Int) else 0) := by
  obtain ⟨carryX, hcX0, hcX1, hsX⟩ := settled_deduct m.orderX m.receives_le
  obtain ⟨carryY, hcY0, hcY1, hsY⟩ := settled_deduct m.orderY m.sends_le
  refine ⟨carryX, carryY, hcX0, hcX1, hcY0, hcY1, fun t => ?_⟩
  have htotal := FiniteMap.total_insert_insert m.ne m.lookup_x m.lookup_y
    (m.orderX.deduct m.receives) (m.orderY.deduct m.sends)
    (fun _ o => OrderBook.settled t o) (fun _ o => OrderBook.settled t o) fun _ _ _ => rfl
  rw [← m.orders, hsX t, hsY t, ← m.release_x, ← m.release_y, ← hxy, ← hyx] at htotal
  change s'.book.flow t + _ + _ = s.book.flow t + _ + _ at htotal
  by_cases hX : m.orderX.offeredToken = t <;> by_cases hY : m.orderY.offeredToken = t <;>
    simp only [hX, hY, if_true, if_false] at htotal ⊢ <;> omega

/-- The change of the extra matches: a match is extra for an order touched before. -/
theorem extraMatches_step (hm : s'.matched = s.matched ++ [(x, y)]) (t : TokenId) :
    s'.extraMatches t = s.extraMatches t
      + (if m.orderX.offeredToken = t ∧ s.touches x ≠ 0 then 1 else 0)
      + (if m.orderY.offeredToken = t ∧ s.touches y ≠ 0 then 1 else 0) := by
  have htx : s'.touches x = s.touches x + 1 := by simp [touches_append hm]
  have hty : s'.touches y = s.touches y + 1 := by simp [touches_append hm]
  have hother : ∀ k, k ≠ x → k ≠ y → s'.touches k = s.touches k := fun k hx hy => by
    simp [touches_append hm, hx, hy]
  have htotal := FiniteMap.total_insert_insert m.ne m.lookup_x m.lookup_y
    (m.orderX.deduct m.receives) (m.orderY.deduct m.sends)
    (fun id o => if o.offeredToken = t ∧ s.touches id ≠ 0 then s.touches id - 1 else 0)
    (fun id o => if o.offeredToken = t ∧ s'.touches id ≠ 0 then s'.touches id - 1 else 0)
    fun k hkx hky => by rw [hother k hkx hky]
  rw [← m.orders] at htotal
  change s'.extraMatches t + _ + _ = s.extraMatches t + _ + _ at htotal
  simp only [Order.deduct_offeredToken, htx, hty] at htotal
  grind

/-- **A match keeps the books.**  The unit a single floor may regain is paid for by
the match being extra. -/
theorem Accounted.step (h : s.Accounted) (hm : s'.matched = s.matched ++ [(x, y)])
    (hxy : m.orderX.offeredToken = m.orderY.requestedToken)
    (hyx : m.orderY.offeredToken = m.orderX.requestedToken) : s'.Accounted := by
  obtain ⟨carryX, carryY, hcX0, hcX1, hcY0, hcY1, hflow⟩ := flow_step m hxy hyx
  have hx0 := h.untouched m.lookup_x
  have hy0 := h.untouched m.lookup_y
  refine ⟨?_, ?_, ?_⟩
  · intro id o ho h0
    rw [touches_append hm] at h0
    have hne : id ≠ x ∧ id ≠ y := by
      constructor <;> rintro rfl <;> simp at h0
    rw [m.orders, Finmap.lookup_insert_of_ne _ hne.2, Finmap.lookup_insert_of_ne _ hne.1] at ho
    exact h.untouched ho (by omega)
  · intro t
    have := h.balance_le t
    rw [hflow, m.balance]
    grind
  · intro t
    have := h.flow_le t
    rw [hflow, m.balance, extraMatches_step m hm]
    grind

end Step

/-- **Direct matching keeps the books**: over a whole run, whatever the order of the
pairs, the balance of every token is at most its flow, and the flow exceeds it by at
most the extra matches. -/
theorem accounted_runDirectMatching {b : OrderBook} (hb : b.InStep ∅)
    (hfresh : ∀ {id o}, b.orders.lookup id = some o → o.requestedFilled = 0)
    (hbal : ∀ t, b.balance t = 0) (pairs : List Pair) :
    (runDirectMatching pairs ⟨b, ∅, 0, []⟩).Accounted := by
  refine (runDirectMatching_induct (P := Accounted) ?_ hb (accounted_start hfresh hbal ∅)).2
  intro p _ s s' hs m h
  obtain ⟨hA, -, hA₁, hA₂⟩ := hs.bestOrder_some m.bestA
  obtain ⟨hB, -, hB₁, hB₂⟩ := hs.bestOrder_some m.bestB
  obtain ⟨mm⟩ := OrderBook.applyMatch_matches m.applied
  have hX : mm.orderX = m.orderA := Option.some.inj (mm.lookup_x.symm.trans hA)
  have hY : mm.orderY = m.orderB := Option.some.inj (mm.lookup_y.symm.trans hB)
  refine h.step mm m.matched ?_ ?_
  · rw [hX, hY, hA₁, hB₂]
  · rw [hX, hY, hA₂, hB₁]

end Progress

end PswapSolver
