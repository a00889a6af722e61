import PswapSolver.Priority

/-! # Direct matching finds every crossing pair

The loop of direct matching looks at the two best orders of a pair of tokens and stops at
the first attempt that fails, be it because the orders do not cross or because a release is
rounded to nothing.  For a book of unfilled orders neither loses a match: if any two visible
orders cross then the two best ones do (`crosses_of_better`), and unfilled orders that cross
always trade (`Order.trades_of_unfilled`).

The pairs visited before share no queue with the pair in question, so its queues are still
those of the start when its turn comes (`Unserved`).
-/
namespace PswapSolver
open StableQueue

/-! ## Unfilled orders -/

namespace Order
variable {x y : Order}

/-- The two orders cross: each is content with less than the other offers. -/
def Crosses (x y : Order) : Prop := x.requested * y.requested < x.offered * y.offered

theorem isProfitableWith_iff : x.isProfitableWith y = true ↔ x.Crosses y := by
  simp [isProfitableWith, Crosses]

theorem Crosses.symm (h : x.Crosses y) : y.Crosses x := by
  unfold Crosses at h ⊢
  rwa [Nat.mul_comm y.requested, Nat.mul_comm y.offered]

/-- Nothing of the order is filled. -/
def Unfilled (o : Order) : Prop := o.requestedRemaining = o.requested

theorem Unfilled.isActive (h : x.Unfilled) : x.isActive = true := by
  rw [isActive_iff, h]
  exact x.requested_pos

theorem Unfilled.offeredRemaining (h : x.Unfilled) : x.offeredRemaining = x.offered := by
  rw [Order.offeredRemaining, h, offeredFor_requested]

/-- A crossing order releases at least `x.requested` for all that `x` offers. -/
theorem Crosses.le_offeredFor (h : x.Crosses y) (hle : x.offered ≤ y.requested) :
    x.requested ≤ y.offeredFor x.offered := by
  rw [y.offeredFor_eq hle, Nat.le_div_iff_mul_le y.requested_pos, Nat.mul_comm y.offered]
  exact Nat.le_of_lt h

/-- **Rounding does not block unfilled orders**: if they cross, they trade. -/
theorem trades_of_unfilled (hx : x.Unfilled) (hy : y.Unfilled) (h : x.Crosses y) :
    x.Trades y := by
  refine ⟨⟨hx.isActive, hy.isActive, isProfitableWith_iff.mpr h⟩, ?_⟩
  unfold receives
  rcases Nat.le_total y.requested x.offered with hle | hle
  · -- `y` is filled completely
    have hsends : x.sends y = y.requested := by
      rw [sends, hx.offeredRemaining, hy, Nat.min_eq_right hle]
    rw [hsends, offeredFor_requested]
    refine ⟨y.requested_pos, y.offered_pos, ?_⟩
    rw [hx]
    rcases Nat.le_total x.requested y.offered with hxy | hxy
    · rw [Nat.min_eq_right hxy, offeredFor_requested]
      exact hle
    · rw [Nat.min_eq_left hxy]
      exact h.symm.le_offeredFor hxy
  · -- `x` is filled completely
    have hsends : x.sends y = x.offered := by
      rw [sends, hx.offeredRemaining, hy, Nat.min_eq_left hle]
    have hreleases := h.le_offeredFor hle
    rw [hsends, hx, Nat.min_eq_right hreleases, offeredFor_requested]
    exact ⟨x.offered_pos, Nat.lt_of_lt_of_le x.requested_pos hreleases, Nat.le_refl _⟩

/-- **Better orders cross as well**: the rates of `x'` and `y'` are at most those of `x`
and `y`. -/
theorem crosses_of_better {x' y' : Order} (h : x.Crosses y)
    (hx : x'.requested * x.offered ≤ x.requested * x'.offered)
    (hy : y'.requested * y.offered ≤ y.requested * y'.offered) : x'.Crosses y' := by
  have hpos : 0 < x'.offered * y'.offered := Nat.mul_pos x'.offered_pos y'.offered_pos
  refine Nat.lt_of_mul_lt_mul_left (a := x.offered * y.offered) ?_
  calc x.offered * y.offered * (x'.requested * y'.requested)
      = (x'.requested * x.offered) * (y'.requested * y.offered) := by ring
    _ ≤ (x.requested * x'.offered) * (y.requested * y'.offered) := Nat.mul_le_mul hx hy
    _ = (x.requested * y.requested) * (x'.offered * y'.offered) := by ring
    _ < (x.offered * y.offered) * (x'.offered * y'.offered) := Nat.mul_lt_mul_of_pos_right h hpos

/-- Between unfilled orders that cross, the bottleneck is filled completely: `other` if it asks
for no more than `self` offers, `self` otherwise. -/
theorem Crosses.fills_one (h : x.Crosses y) (hx : x.Unfilled) (hy : y.Unfilled) :
    x.sends y = y.requested ∨ x.receives y = x.requested := by
  by_cases hle : y.requested ≤ x.offered
  · left
    rw [sends, hx.offeredRemaining, hy, Nat.min_eq_right hle]
  · right
    have hlt : x.offered ≤ y.requested := by omega
    have hsends : x.sends y = x.offered := by
      rw [sends, hx.offeredRemaining, hy, Nat.min_eq_left hlt]
    rw [receives, hsends, hx, Nat.min_eq_right (h.le_offeredFor hlt)]

theorem Unfilled.requestedFilled_deduct (hx : x.Unfilled) {n : Nat}
    (hn : n ≤ x.requestedRemaining) :
    (x.deduct n).requestedFilled = n := by
  rw [x.deduct_requestedFilled hn, requestedFilled, hx, Nat.sub_self, Nat.zero_add]

/-- **Rounding never blocks two unfilled orders.**  `match_with` finds a trade iff the two
orders cross.  Then both receive something, one of them all it asked for, and the two
surpluses are exactly what each order released beyond the other's fill. -/
theorem matchWith_unfilled_iff (hx : x.Unfilled) (hy : y.Unfilled) :
    ((∃ r, (x.matchWith y).1 = some r) ↔ x.requested * y.requested < x.offered * y.offered) ∧
    ∀ r x' y', x.matchWith y = (some r, x', y') →
      x'.toOrderTerms = x.toOrderTerms ∧ y'.toOrderTerms = y.toOrderTerms ∧
      0 < x'.requestedFilled ∧ 0 < y'.requestedFilled ∧
      (x'.isCompletelyFilled = true ∨ y'.isCompletelyFilled = true) ∧
      r.surplusOffered + y'.requestedFilled = x.offeredFor x'.requestedFilled ∧
      r.surplusRequested + x'.requestedFilled = y.offeredFor y'.requestedFilled := by
  refine ⟨⟨?_, ?_⟩, ?_⟩
  · rintro ⟨r, hr⟩
    by_contra hcross
    have hrefused : ¬ x.Trades y := fun ht => hcross (isProfitableWith_iff.mp ht.1.2.2)
    rw [matchWith_of_not_trades hrefused] at hr
    cases hr
  · intro hcross
    rw [matchWith_of_trades (trades_of_unfilled hx hy hcross)]
    exact ⟨_, rfl⟩
  · intro r x' y' h
    have ht := trades_of_matchWith h
    rw [matchWith_of_trades ht] at h
    obtain ⟨hr, hx', hy'⟩ : _ = some r ∧ _ = x' ∧ _ = y' := by simpa only [Prod.mk.injEq] using h
    cases hr
    subst hx' hy'
    have hcross : x.Crosses y := isProfitableWith_iff.mp ht.1.2.2
    have hfillx := hx.requestedFilled_deduct (receives_le x y)
    have hfilly := hy.requestedFilled_deduct (sends_le x y)
    rw [hfillx, hfilly]
    refine ⟨rfl, rfl, ht.receives_pos, ht.2.1, ?_, ?_, ?_⟩
    · rcases hcross.fills_one hx hy with hall | hall
      · right
        rw [isCompletelyFilled_iff, deduct_requestedRemaining, hall, hy, Nat.sub_self]
      · left
        rw [isCompletelyFilled_iff, deduct_requestedRemaining, hall, hx, Nat.sub_self]
    · exact Nat.sub_add_cancel ht.2.2.2
    · exact Nat.sub_add_cancel (Nat.min_le_left _ _)

theorem unfilled_fresh (id : OrderId) (terms : OrderTerms) : (fresh id terms).Unfilled := rfl

/-- Ten units for five against six for seven: the orders cross, and match. -/
theorem matchWith_unfilled_crossing :
    (fresh 1 (crossingTerms 1)).Unfilled ∧ (fresh 2 (crossingTerms 2)).Unfilled ∧
    ∃ r, ((fresh 1 (crossingTerms 1)).matchWith (fresh 2 (crossingTerms 2))).1 = some r :=
  ⟨unfilled_fresh .., unfilled_fresh ..,
    (matchWith_unfilled_iff (unfilled_fresh 1 _) (unfilled_fresh 2 _)).1.mpr (by decide)⟩

end Order

/-! ## What is visible, and what was matched -/

namespace OrderBook

/-- The engine sees the order `o` under `id`, in the queue of the pair. -/
def Sees (b : OrderBook) (p : Pair) (id : OrderId) (o : Order) : Prop :=
  b.orders.lookup id = some o ∧ o.pair = p ∧ o.isActive = true ∧ id ∉ b.parked

/-- Some visible order of the pair crosses some visible order of the opposite pair. -/
def HasCrossing (b : OrderBook) (p : Pair) : Prop :=
  ∃ x y oX oY, b.Sees p x oX ∧ b.Sees p.swap y oY ∧ oX.Crosses oY

/-- Some match of the list is between an order of the pair and one of the opposite pair. -/
def MatchedAcross (b : OrderBook) (matched : List (OrderId × OrderId)) (p : Pair) : Prop :=
  ∃ x y oX oY, ((x, y) ∈ matched ∨ (y, x) ∈ matched) ∧
    b.orders.lookup x = some oX ∧ oX.pair = p ∧ b.orders.lookup y = some oY ∧ oY.pair = p.swap

variable {b : OrderBook} {p : Pair}

theorem Sees.of_pair {id : OrderId} {o : Order} (h : b.Sees p id o) {q : Pair} (hq : o.pair = q) :
    b.Sees q id o := ⟨h.1, hq, h.2.2⟩

theorem InStep.sees_iff (h : b.InStep ∅) {id : OrderId} {o : Order} :
    b.Sees p id o ↔ id ∈ b.queue p ∧ b.orders.lookup id = some o := by
  rw [h.mem_queue]
  constructor
  · rintro ⟨ho, hp, hact, hnp⟩
    exact ⟨⟨o, ho, hp, hnp, Or.inl hact⟩, ho⟩
  · rintro ⟨⟨o', ho', hp, hnp, hact⟩, ho⟩
    cases ho.symm.trans ho'
    exact ⟨ho, hp, hact.resolve_right (Finset.notMem_empty _), hnp⟩

/-- The head of a queue has the best rate. -/
theorem InStep.head_best (h : b.InStep ∅) {head id : OrderId} {oHead o : Order}
    (hhead : (b.queue p).head? = some head) (hid : id ∈ b.queue p)
    (hoHead : b.orders.lookup head = some oHead) (ho : b.orders.lookup id = some o) :
    oHead.requested * o.offered ≤ o.requested * oHead.offered := by
  have hsorted := h.indexed.sorted p
  cases hq : b.queue p with
  | nil => rw [hq] at hid; cases hid
  | cons i rest =>
    rw [hq] at hhead hid hsorted
    obtain rfl : i = head := Option.some.inj hhead
    rcases List.mem_cons.mp hid with rfl | hid
    · cases ho.symm.trans hoHead
      exact Nat.le_refl _
    · have hle := (List.pairwise_cons.mp hsorted).1 id hid
      rw [keyOf_of_lookup hoHead, keyOf_of_lookup ho] at hle
      exact (RateKey.isLE_iff _ _).mp hle

/-- A new order is placed, and nothing else changes. -/
theorem InStep.placed (h : b.InStep ∅) {id : OrderId} (hid : id ∉ b.orders) (terms : OrderTerms) :
    (b.addUserOrder id terms).InStep ∅ ∧ (b.addUserOrder id terms).feed = b.feed ∧
    (b.addUserOrder id terms).orders.lookup id = some (Order.fresh id terms) ∧
    (∀ i, i ≠ id → (b.addUserOrder id terms).orders.lookup i = b.orders.lookup i) ∧
    ∀ p, (b.addUserOrder id terms).queue p = if p = (Order.fresh id terms).pair then
      StableQueue.enqueue (b.addUserOrder id terms).keyOf id (b.queue p) else b.queue p := by
  have hnew : ¬ (id ∈ b.orders ∧ id ∉ b.parked) := fun hold => hid hold.1
  obtain ⟨hstep, hqueue⟩ := @InStep.addUserOrder b id h terms hnew
  refine ⟨hstep, ?_, ?_, fun i hi => ?_, hqueue⟩
  · rw [OrderBook.addUserOrder, if_neg hnew]
  · rw [OrderBook.addUserOrder, if_neg hnew]
    exact Finmap.lookup_insert _
  · rw [OrderBook.addUserOrder, if_neg hnew]
    exact Finmap.lookup_insert_of_ne _ hi

end OrderBook

/-! ## Only crossing orders are matched -/

/-- Every match made so far is of two orders that were visible at the start and cross. -/
def MatchesCross (b : OrderBook) (s : Progress) : Prop :=
  ∀ x y, (x, y) ∈ s.matched → ∃ p oX oY, b.Sees p x oX ∧ b.Sees p.swap y oY ∧ oX.Crosses oY

/-- What is visible in a run was visible when it started, under the same terms. -/
theorem Trades.sees_start {b : OrderBook} {s : Progress} (htrades : Trades (runStart b) s)
    (hb : b.InStep ∅) {p : Pair} {id : OrderId} {o : Order} (h : s.book.Sees p id o) :
    ∃ o₀, b.Sees p id o₀ ∧ o₀.toOrderTerms = o.toOrderTerms := by
  obtain ⟨hs, htouched⟩ := htrades.invariant ⟨hb, touched_start b⟩ fun _ h ht => h.trade ht
  obtain ⟨hid, ho⟩ := hs.sees_iff.mp h
  obtain ⟨o₀, ho₀, hterms, -⟩ := htouched.shrinks ho
  exact ⟨o₀, hb.sees_iff.mpr ⟨(htrades.queue_sublist p).subset hid, ho₀⟩, hterms.symm⟩

theorem Trades.feed_start {b : OrderBook} {s : Progress} (htrades : Trades (runStart b) s)
    (hb : b.InStep ∅) : s.book.feed = b.feed :=
  (htrades.invariant (P := fun s => s.book.feed = b.feed) ⟨hb, rfl⟩
    fun _ h ht => ht.feed.trans h).2

/-- The two orders of a match were visible at the start, and cross. -/
theorem MatchStep.crosses_start {b : OrderBook} (hb : b.InStep ∅) {tokenA tokenB : TokenId}
    {s s' : Progress} (m : MatchStep tokenA tokenB s s') (hs : s.book.InStep ∅)
    (htrades : Trades (runStart b) s) : ∃ oX oY, b.Sees (tokenA, tokenB) m.orderA.id oX ∧
      b.Sees (tokenB, tokenA) m.orderB.id oY ∧ oX.Crosses oY := by
  have hm := m.heads hs
  obtain ⟨oX, hX, htermsX⟩ := htrades.sees_start hb
    (hs.sees_iff.mpr ⟨List.mem_of_head? hm.headA, hm.lookupA⟩)
  obtain ⟨oY, hY, htermsY⟩ := htrades.sees_start hb
    (hs.sees_iff.mpr ⟨List.mem_of_head? hm.headB, hm.lookupB⟩)
  refine ⟨oX, oY, hX, hY, ?_⟩
  have hcross := Order.isProfitableWith_iff.mp hm.trades.1.2.2
  unfold Order.Crosses at hcross ⊢
  rwa [htermsX, htermsY]

theorem MatchStep.matchesCross {b : OrderBook} (hb : b.InStep ∅) {tokenA tokenB : TokenId}
    {s s' : Progress} (m : MatchStep tokenA tokenB s s') (hs : s.book.InStep ∅)
    (htrades : Trades (runStart b) s) (h : MatchesCross b s) : MatchesCross b s' := by
  intro x y hxy
  rw [m.matched, List.mem_append, List.mem_singleton] at hxy
  rcases hxy with hold | hnew
  · exact h x y hold
  · obtain ⟨rfl, rfl⟩ := Prod.mk.inj hnew
    obtain ⟨oX, oY, hX, hY, hcross⟩ := m.crosses_start hb hs htrades
    exact ⟨(tokenA, tokenB), oX, oY, hX, hY, hcross⟩

theorem runDirectMatching_matchesCross {b : OrderBook} (hb : b.InStep ∅) (pairs : List Pair) :
    MatchesCross b (runDirectMatching pairs (runStart b)) :=
  (runDirectMatching_induct (P := fun s => Trades (runStart b) s ∧ MatchesCross b s)
    (fun _ _ _ _ hs m h => ⟨h.1.tail ⟨_, m.trade hs⟩, m.matchesCross hb hs h.1 h.2⟩) hb
    ⟨.refl, fun _ _ hxy => by cases hxy⟩).2.2

/-! ## The turn of a pair -/

/-- **The pair has not been served**: both its queues and the orders in them are as in `b`. -/
structure Unserved (b : OrderBook) (p : Pair) (s : Progress) : Prop where
  feed : s.book.feed = b.feed
  queue : s.book.queue p = b.queue p
  swapped : s.book.queue p.swap = b.queue p.swap
  lookup : ∀ id, id ∈ b.queue p ∨ id ∈ b.queue p.swap →
    s.book.orders.lookup id = b.orders.lookup id

/-- A queue none of whose orders trades stays as it is. -/
theorem Trade.queue_of_no_fill {s s' : Progress} {fills : OrderId → Nat} {p : Pair}
    (ht : Trade fills s s') (hb : s.book.InStep ∅) (hno : ∀ id ∈ s.book.queue p, fills id = 0) :
    s'.book.queue p = s.book.queue p := by
  rw [← sublist_eq_filter (ht.queue p) (hb.indexed.nodup p)]
  refine List.filter_eq_self.mpr fun id hid => decide_eq_true ?_
  by_contra hleft
  have := (ht.left_queue hb hid hleft).1
  rw [hno id hid] at this
  exact Nat.lt_irrefl 0 this

theorem Trade.lookup_of_no_fill {s s' : Progress} {fills : OrderId → Nat} {id : OrderId}
    (ht : Trade fills s s') (hno : fills id = 0) :
    s'.book.orders.lookup id = s.book.orders.lookup id := by
  rw [ht.orders, hno]
  simp only [deduct_zero, Option.map_id']

/-- A match of one pair of tokens does not touch the queues of another. -/
theorem MatchStep.no_fill {tokenA tokenB : TokenId} {s s' : Progress}
    (m : MatchStep tokenA tokenB s s') (hb : s.book.InStep ∅) {q : Pair}
    (hq : q ≠ (tokenA, tokenB)) (hq' : q ≠ (tokenB, tokenA)) {id : OrderId}
    (hid : id ∈ s.book.queue q) : matchFills m.orderA.id m.orderB.id m.orderA m.orderB id = 0 := by
  have hm := m.heads hb
  unfold matchFills
  rw [if_neg, if_neg]
  · rintro rfl
    exact hq' ((hb.pair_eq hid hm.lookupB).symm.trans hm.pairB)
  · rintro rfl
    exact hq ((hb.pair_eq hid hm.lookupA).symm.trans hm.pairA)

theorem Unserved.step {b : OrderBook} {p : Pair} {tokenA tokenB : TokenId} {s s' : Progress}
    (h : Unserved b p s) (hb : s.book.InStep ∅) (m : MatchStep tokenA tokenB s s')
    (hp : p ≠ (tokenA, tokenB)) (hp' : p ≠ (tokenB, tokenA)) : Unserved b p s' := by
  have hswap : p.swap ≠ (tokenA, tokenB) := fun e => hp' (Prod.swap_injective e)
  have hswap' : p.swap ≠ (tokenB, tokenA) := fun e => hp (Prod.swap_injective e)
  have ht := m.trade hb
  refine ⟨ht.feed.trans h.feed, ?_, ?_, fun id hid => ?_⟩
  · rw [ht.queue_of_no_fill hb fun id hid => m.no_fill hb hp hp' hid, h.queue]
  · rw [ht.queue_of_no_fill hb fun id hid => m.no_fill hb hswap hswap' hid, h.swapped]
  · rw [ht.lookup_of_no_fill, h.lookup id hid]
    rcases hid with hid | hid
    · exact m.no_fill hb hp hp' (h.queue ▸ hid)
    · exact m.no_fill hb hswap hswap' (h.swapped ▸ hid)

/-- The pairs of smaller and larger token that are visited before do not serve the pair. -/
theorem runDirectMatching_unserved {b : OrderBook} (hb : b.InStep ∅) {p : Pair} (hlt : p.1 < p.2)
    {pairs : List Pair} (hpairs : ∀ q ∈ pairs, q.1 < q.2 ∧ q ≠ p) :
    (runDirectMatching pairs (runStart b)).book.InStep ∅ ∧
      Unserved b p (runDirectMatching pairs (runStart b)) := by
  refine runDirectMatching_induct (fun q hq s s' hs m h => h.step hs m ?_ ?_) hb
    ⟨rfl, rfl, rfl, fun _ _ => rfl⟩
  · exact fun e => (hpairs q hq).2 e.symm
  · rintro rfl
    exact Nat.lt_asymm hlt (hpairs q hq).1

/-- Two heads that trade are matched. -/
theorem matchRound_of_trades {tokenA tokenB : TokenId} {s : Progress} (hb : s.book.InStep ∅)
    {x y : OrderId} {oX oY : Order} (hx : (s.book.queue (tokenA, tokenB)).head? = some x)
    (hy : (s.book.queue (tokenB, tokenA)).head? = some y)
    (hlx : s.book.orders.lookup x = some oX) (hly : s.book.orders.lookup y = some oY)
    (hne : x ≠ y) (hpriced : s.book.bothPriced tokenA tokenB = true) (ht : oX.Trades oY) :
    (matchRound tokenA tokenB s).1 = true ∧ (x, y) ∈ (matchRound tokenA tokenB s).2.matched := by
  obtain rfl := hb.ids hlx
  obtain rfl := hb.ids hly
  unfold matchRound
  rw [hb.bestOrder tokenA tokenB, hx]
  dsimp only [Option.bind_some]
  rw [hlx]
  dsimp only
  rw [hb.bestOrder tokenB tokenA, hy]
  dsimp only [Option.bind_some]
  rw [hly]
  dsimp only
  rw [hpriced, OrderBook.applyMatch_of_lookup hne hlx hly, if_pos ht]
  exact ⟨rfl, List.mem_append_right _ (List.mem_singleton.mpr rfl)⟩

theorem runDirectMatching_matched_mono {pairs : List Pair} {s : Progress} (hb : s.book.InStep ∅)
    {xy : OrderId × OrderId} (hxy : xy ∈ s.matched) :
    xy ∈ (runDirectMatching pairs s).matched :=
  (runDirectMatching_induct (P := fun s => xy ∈ s.matched)
    (fun _ _ _ _ _ m h => by rw [m.matched]; exact List.mem_append_left _ h) hb hxy).2

/-- When it is the turn of the pair, its first two orders are matched. -/
theorem matchUserOrders_matched {tokenA tokenB : TokenId} {s : Progress} (hb : s.book.InStep ∅)
    {x y : OrderId} (h : (matchRound tokenA tokenB s).1 = true)
    (hxy : (x, y) ∈ (matchRound tokenA tokenB s).2.matched) :
    (matchUserOrders tokenA tokenB s).book.InStep ∅ ∧
      (x, y) ∈ (matchUserOrders tokenA tokenB s).matched := by
  rw [matchUserOrders_of_true h]
  obtain hstop | ⟨s', hgo, ⟨m⟩⟩ := matchRound_cases tokenA tokenB hb
  · rw [hstop] at h
    cases h
  · rw [hgo] at hxy ⊢
    exact matchUserOrders_induct (P := fun s => (x, y) ∈ s.matched)
      (fun _ _ _ m h => by rw [m.matched]; exact List.mem_append_left _ h) (m.inStep hb) hxy

/-- A pair with a crossing has orders in both directions. -/
theorem OrderBook.HasCrossing.matchable {b : OrderBook} (hb : b.InStep ∅) {p : Pair}
    (hlt : p.1 < p.2) (h : b.HasCrossing p) : p ∈ collectMatchablePairs b := by
  obtain ⟨x, y, oX, oY, hx, hy, -⟩ := h
  obtain ⟨hqx, -⟩ := hb.sees_iff.mp hx
  obtain ⟨hqy, -⟩ := hb.sees_iff.mp hy
  exact hb.mem_collectMatchablePairs.mpr
    ⟨hlt, List.ne_nil_of_mem hqx, List.ne_nil_of_mem hqy⟩

/-- **If any two orders cross, the two heads do.** -/
theorem OrderBook.HasCrossing.heads {b : OrderBook} (hb : b.InStep ∅) {p : Pair}
    (h : b.HasCrossing p) : ∃ x y oX oY, (b.queue p).head? = some x ∧
      (b.queue p.swap).head? = some y ∧ b.Sees p x oX ∧ b.Sees p.swap y oY ∧ oX.Crosses oY := by
  obtain ⟨x, y, oX, oY, hx, hy, hxy⟩ := h
  obtain ⟨hqx, hlx⟩ := hb.sees_iff.mp hx
  obtain ⟨hqy, hly⟩ := hb.sees_iff.mp hy
  obtain ⟨x', hx'⟩ := Option.isSome_iff_exists.mp
    (List.isSome_head?.mpr (List.ne_nil_of_mem hqx))
  obtain ⟨y', hy'⟩ := Option.isSome_iff_exists.mp
    (List.isSome_head?.mpr (List.ne_nil_of_mem hqy))
  obtain ⟨oX', hoX', -⟩ := hb.mem_queue.mp (List.mem_of_head? hx')
  obtain ⟨oY', hoY', -⟩ := hb.mem_queue.mp (List.mem_of_head? hy')
  exact ⟨x', y', oX', oY', hx', hy', hb.sees_iff.mpr ⟨List.mem_of_head? hx', hoX'⟩,
    hb.sees_iff.mpr ⟨List.mem_of_head? hy', hoY'⟩, Order.crosses_of_better hxy
      (hb.head_best hx' hqx hoX' hlx) (hb.head_best hy' hqy hoY' hly)⟩

/-- Every pair has its turn once, and before and after it other pairs have theirs. -/
theorem MatchablePairs.split {b : OrderBook} {pairs : List Pair} (h : MatchablePairs b pairs)
    {p : Pair} (hp : p ∈ pairs) : ∃ before after, pairs = before ++ p :: after ∧
      (∀ q ∈ before, q.1 < q.2 ∧ q ≠ p) ∧ ∀ q ∈ after, q.1 < q.2 ∧ q ≠ p := by
  obtain ⟨before, after, rfl⟩ := List.append_of_mem hp
  have hlt : ∀ q ∈ before ++ p :: after, q.1 < q.2 :=
    fun q hq => lt_of_mem_collectMatchablePairs (h.mem_iff.mp hq)
  obtain ⟨-, hafter, hbefore⟩ := List.nodup_append.mp h.1
  refine ⟨before, after, rfl, fun q hq => ⟨hlt q (List.mem_append_left _ hq), ?_⟩,
    fun q hq => ⟨hlt q (List.mem_append_right _ (List.mem_cons_of_mem _ hq)), ?_⟩⟩
  · exact hbefore q hq p (List.mem_cons_self ..)
  · rintro rfl
    exact (List.nodup_cons.mp hafter).1 hq

/-- **A crossing is found**, for a pair of tokens given smaller first. -/
theorem matched_of_crossing {b : OrderBook} (hb : b.InStep ∅)
    (hfresh : ∀ id o, b.orders.lookup id = some o → o.Unfilled) {pairs : List Pair}
    (hpairs : MatchablePairs b pairs) {p : Pair} (hlt : p.1 < p.2)
    (hpriced : b.bothPriced p.1 p.2 = true) (hcross : b.HasCrossing p) :
    b.MatchedAcross (runDirectMatching pairs (runStart b)).matched p := by
  have hmem : p ∈ pairs := hpairs.mem_iff.mpr (hcross.matchable hb hlt)
  obtain ⟨before, after, rfl, hbefore, -⟩ := hpairs.split hmem
  obtain ⟨hstep, hunserved⟩ := runDirectMatching_unserved hb hlt hbefore
  obtain ⟨x, y, oX, oY, hx, hy, hsx, hsy, hxy⟩ := hcross.heads hb
  have hne : x ≠ y := by
    rintro rfl
    cases hsx.1.symm.trans hsy.1
    exact Nat.ne_of_lt hlt (congrArg Prod.fst (hsx.2.1.symm.trans hsy.2.1))
  -- its turn comes with its queues as they were, and the two heads trade
  have hheadA : ((runDirectMatching before (runStart b)).book.queue (p.1, p.2)).head? = some x :=
    hunserved.queue ▸ hx
  have hheadB : ((runDirectMatching before (runStart b)).book.queue (p.2, p.1)).head? = some y :=
    hunserved.swapped ▸ hy
  obtain ⟨hgo, hmatched⟩ := matchRound_of_trades hstep hheadA hheadB
    ((hunserved.lookup x (Or.inl (List.mem_of_head? hx))).trans hsx.1)
    ((hunserved.lookup y (Or.inr (List.mem_of_head? hy))).trans hsy.1) hne
    (by rw [OrderBook.bothPriced, hunserved.feed]; exact hpriced)
    (Order.trades_of_unfilled (hfresh _ _ hsx.1) (hfresh _ _ hsy.1) hxy)
  obtain ⟨hstep', hmatched⟩ := matchUserOrders_matched hstep hgo hmatched
  refine ⟨x, y, oX, oY, Or.inl ?_, hsx.1, hsx.2.1, hsy.1, hsy.2.1⟩
  rw [runDirectMatching, List.foldl_append, List.foldl_cons]
  exact runDirectMatching_matched_mono hstep' hmatched

theorem OrderBook.HasCrossing.swap {b : OrderBook} {p : Pair} (h : b.HasCrossing p) :
    b.HasCrossing p.swap := by
  obtain ⟨x, y, oX, oY, hx, hy, hxy⟩ := h
  exact ⟨y, x, oY, oX, hy, by rwa [Prod.swap_swap], hxy.symm⟩

theorem OrderBook.MatchedAcross.swap {b : OrderBook} {matched : List (OrderId × OrderId)}
    {p : Pair} (h : b.MatchedAcross matched p) : b.MatchedAcross matched p.swap := by
  obtain ⟨x, y, oX, oY, hxy, hx, hpx, hy, hpy⟩ := h
  exact ⟨y, x, oY, oX, hxy.symm, hy, hpy, hx, by rwa [Prod.swap_swap]⟩

/-- **Direct matching misses no crossing pair**: on a book of unfilled orders it matches
orders of two priced tokens iff some visible orders of the two directions cross. -/
theorem direct_matching_iff_crossing {b : OrderBook} (hb : b.Reachable)
    (hfresh : ∀ id o, b.orders.lookup id = some o → o.requestedRemaining = o.requested)
    {pairs : List Pair} (hpairs : MatchablePairs b pairs) {tokenA tokenB : TokenId}
    (hne : tokenA ≠ tokenB) (hA : (b.feed tokenA).isSome) (hB : (b.feed tokenB).isSome) :
    b.MatchedAcross (runDirectMatching pairs (runStart b)).matched (tokenA, tokenB) ↔
      ∃ x y oX oY, b.Sees (tokenA, tokenB) x oX ∧ b.Sees (tokenB, tokenA) y oY ∧
        oX.requested * oY.requested < oX.offered * oY.offered := by
  have hstep := hb.inv.inStep
  constructor
  · rintro ⟨x, y, oX, oY, hxy, hx, hpx, hy, hpy⟩
    have hrecorded := runDirectMatching_matchesCross hstep pairs
    rcases hxy with hxy | hxy
    · obtain ⟨p, oX', oY', hsx, hsy, hcross⟩ := hrecorded x y hxy
      cases hx.symm.trans hsx.1
      cases hy.symm.trans hsy.1
      exact ⟨x, y, oX, oY, hsx.of_pair hpx, hsy.of_pair hpy, hcross⟩
    · obtain ⟨p, oY', oX', hsy, hsx, hcross⟩ := hrecorded y x hxy
      cases hx.symm.trans hsx.1
      cases hy.symm.trans hsy.1
      exact ⟨x, y, oX, oY, hsx.of_pair hpx, hsy.of_pair hpy, hcross.symm⟩
  · intro hcross
    have hcross : b.HasCrossing (tokenA, tokenB) := hcross
    rcases Nat.lt_or_gt_of_ne hne with hlt | hlt
    · refine matched_of_crossing hstep hfresh hpairs hlt ?_ hcross
      rw [OrderBook.bothPriced, hA, hB]
      rfl
    · refine (matched_of_crossing hstep hfresh hpairs (p := (tokenB, tokenA)) hlt ?_
        hcross.swap).swap
      rw [OrderBook.bothPriced, hA, hB]
      rfl

/-- The two crossing orders are matched. -/
theorem crossingBook_matched : crossingBook.Reachable ∧ MatchablePairs crossingBook [(1, 2)] ∧
    crossingBook.MatchedAcross
      (runDirectMatching [(1, 2)] (runStart crossingBook)).matched (1, 2) := by
  have hpairs : MatchablePairs crossingBook [(1, 2)] := ⟨by decide, by decide⟩
  refine ⟨crossingBook_reachable, hpairs, (direct_matching_iff_crossing crossingBook_reachable
    (fun id o ho => (crossingBook_lookup ho).2 ▸ rfl) hpairs (by decide) rfl rfl).mpr ?_⟩
  exact ⟨1, 2, Order.fresh 1 (crossingTerms 1), Order.fresh 2 (crossingTerms 2),
    ⟨by decide, rfl, by decide, by decide⟩, ⟨by decide, rfl, by decide, by decide⟩, by decide⟩

end PswapSolver
