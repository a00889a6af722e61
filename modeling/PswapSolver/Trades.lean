import PswapSolver.CycleSolvency

/-! # A run of the engine is a sequence of trades

Direct matching trades two orders, triangular matching three.  In both phases each of
them stands first in the queue of its pair, both its tokens are priced, and it is
filled with a positive amount of what it has left; the queues lose the orders that are
completely filled and are otherwise as before.  `Trade` says this once for both phases,
and `EngineRun.trades` that a run is a sequence of trades: what a trade preserves, a
run preserves.

Direct matching looks at the heads of the queues in every round.  Triangular matching
works on heap entries, which name the orders that stood first when the entry was built.
No order is queued during a run and none overtakes another, so an order that stood first
and is still queued stands first still (`AtFront.of_sublist`).
-/
namespace PswapSolver
open StableQueue

/-! ## One trade -/

theorem deduct_zero (o : Order) : o.deduct 0 = o := rfl

/-- **One trade**: `fills id` is what the order `id` receives, zero for an order that is
not part of it. -/
structure Trade (fills : OrderId → Nat) (s s' : Progress) : Prop where
  orders : ∀ id, s'.book.orders.lookup id =
    (s.book.orders.lookup id).map fun o => o.deduct (fills id)
  filled : ∀ id, id ∈ s'.filledOrders ↔ id ∈ s.filledOrders ∨ 0 < fills id
  within : ∀ {id}, 0 < fills id → ∃ o, s.book.orders.lookup id = some o ∧
    fills id ≤ o.requestedRemaining ∧ (s.book.queue o.pair).head? = some id ∧
    (s.book.feed o.offeredToken).isSome ∧ (s.book.feed o.requestedToken).isSome
  /-- Some order that could still release something can release nothing any more. -/
  exhausts : ∃ id o, s.book.orders.lookup id = some o ∧ 0 < o.offeredRemaining ∧
    (o.deduct (fills id)).offeredRemaining = 0
  queue : ∀ p, (s'.book.queue p).Sublist (s.book.queue p)
  inStep : s'.book.InStep ∅
  parked : s'.book.parked = s.book.parked
  parkQueue : s'.book.parkQueue = s.book.parkQueue
  feed : s'.book.feed = s.book.feed
  cycles : s'.cycles = s.cycles + 1

/-- A sequence of trades. -/
def Trades : Progress → Progress → Prop :=
  Relation.ReflTransGen fun s s' => ∃ fills, Trade fills s s'

/-- **What every trade preserves, a sequence of trades preserves.** -/
theorem Trades.invariant {P : Progress → Prop} {s s' : Progress} (h : Trades s s')
    (start : s.book.InStep ∅ ∧ P s)
    (step : ∀ {s s' fills}, s.book.InStep ∅ → P s → Trade fills s s' → P s') :
    s'.book.InStep ∅ ∧ P s' := by
  induction h with
  | refl => exact start
  | tail _ htrade ih =>
    obtain ⟨fills, htrade⟩ := htrade
    exact ⟨htrade.inStep, step ih.1 ih.2 htrade⟩

/-- A trade fills something. -/
theorem Trade.filled_ne_empty {s s' : Progress} {fills : OrderId → Nat} (ht : Trade fills s s') :
    s'.filledOrders ≠ ∅ := by
  obtain ⟨id, o, -, hpos, hzero⟩ := ht.exhausts
  have hfills : 0 < fills id := by
    by_contra hnot
    rw [Nat.eq_zero_of_not_pos hnot, deduct_zero] at hzero
    omega
  exact Finset.ne_empty_of_mem ((ht.filled id).mpr (Or.inr hfills))

/-- **A run that fills nothing changes nothing.** -/
theorem Trades.eq_of_unfilled {s s' : Progress} (h : Trades s s') (hnone : s'.filledOrders = ∅) :
    s' = s := by
  rcases h.cases_tail with heq | ⟨s₁, -, fills, ht⟩
  · exact heq
  · exact absurd hnone ht.filled_ne_empty

/-! ## The queues -/

/-- If the order is queued under the pair, it stands first there. -/
def AtFront (b : OrderBook) (id : OrderId) (p : Pair) : Prop :=
  id ∈ b.queue p → (b.queue p).head? = some id

/-- **Who stood first stands first**, as long as the queue only loses orders. -/
theorem AtFront.of_sublist {b b' : OrderBook} {id : OrderId} {p : Pair} (h : AtFront b id p)
    (hnd : (b.queue p).Nodup) (hsub : (b'.queue p).Sublist (b.queue p)) : AtFront b' id p :=
  fun hid => head?_of_sublist hsub hnd (h (hsub.subset hid)) hid

/-! ## Direct matching -/

namespace OrderBook
variable {b : OrderBook} {x y : OrderId} {oX oY : Order}

theorem afterMatch_orders (b : OrderBook) (x y : OrderId) (oX oY : Order) :
    (b.afterMatch x y oX oY).orders =
      (b.orders.insert x (oX.deduct (oX.receives oY))).insert y (oY.deduct (oX.sends oY)) := by
  simp [afterMatch, tradedBook]

theorem afterMatch_queue_sublist (b : OrderBook) (x y : OrderId) (oX oY : Order) (p : Pair) :
    ((b.afterMatch x y oX oY).queue p).Sublist (b.queue p) := by
  refine (cleanupIfFilled_queue_sublist _ y p).trans
    ((cleanupIfFilled_queue_sublist _ x p).trans ?_)
  simp [tradedBook]

end OrderBook

/-- What the two orders of a match receive. -/
def matchFills (x y : OrderId) (oX oY : Order) (id : OrderId) : Nat :=
  if id = x then oX.receives oY else if id = y then oX.sends oY else 0

/-- Updating two orders is deducting what each of them received. -/
theorem lookup_matchFills {orders : FiniteMap OrderId Order} {x y : OrderId} {oX oY : Order}
    (hne : x ≠ y) (hx : orders.lookup x = some oX) (hy : orders.lookup y = some oY)
    (id : OrderId) :
    ((orders.insert x (oX.deduct (oX.receives oY))).insert y (oY.deduct (oX.sends oY))).lookup id =
      (orders.lookup id).map fun o => o.deduct (matchFills x y oX oY id) := by
  rw [FiniteMap.lookup_insert_if, FiniteMap.lookup_insert_if]
  unfold matchFills
  by_cases hiy : id = y
  · rw [if_pos hiy, hiy, hy, if_neg hne.symm, if_pos rfl]
    rfl
  · rw [if_neg hiy]
    by_cases hix : id = x
    · rw [if_pos hix, hix, hx, if_pos rfl]
      rfl
    · simp only [if_neg hix, if_neg hiy, deduct_zero, Option.map_id']

/-- What a match step did, in terms of the two best orders. -/
structure MatchedHeads (tokenA tokenB : TokenId) (s s' : Progress) (orderA orderB : Order) :
    Prop where
  lookupA : s.book.orders.lookup orderA.id = some orderA
  lookupB : s.book.orders.lookup orderB.id = some orderB
  headA : (s.book.queue (tokenA, tokenB)).head? = some orderA.id
  headB : (s.book.queue (tokenB, tokenA)).head? = some orderB.id
  pairA : orderA.pair = (tokenA, tokenB)
  pairB : orderB.pair = (tokenB, tokenA)
  ne : orderA.id ≠ orderB.id
  trades : orderA.Trades orderB
  book : s'.book = s.book.afterMatch orderA.id orderB.id orderA orderB

theorem MatchStep.heads {tokenA tokenB : TokenId} {s s' : Progress}
    (m : MatchStep tokenA tokenB s s') (hb : s.book.InStep ∅) :
    MatchedHeads tokenA tokenB s s' m.orderA m.orderB := by
  obtain ⟨hA, hqA, hoA, hrA⟩ := hb.bestOrder_some m.bestA
  obtain ⟨hB, hqB, hoB, hrB⟩ := hb.bestOrder_some m.bestB
  obtain ⟨mm⟩ := OrderBook.applyMatch_matches m.applied
  have happ := m.applied
  rw [OrderBook.applyMatch_of_lookup mm.ne hA hB] at happ
  split at happ
  · rename_i ht
    refine ⟨hA, hB, hb.bestOrder_head m.bestA, hb.bestOrder_head m.bestB, ?_, ?_, mm.ne, ht, ?_⟩
    · rw [Order.pair, hoA, hrA]
    · rw [Order.pair, hoB, hrB]
    · exact (Prod.mk.inj (Option.some.inj happ)).2.symm
  · cases happ

/-- **A match is a trade.** -/
theorem MatchStep.trade {tokenA tokenB : TokenId} {s s' : Progress}
    (m : MatchStep tokenA tokenB s s') (hb : s.book.InStep ∅) :
    Trade (matchFills m.orderA.id m.orderB.id m.orderA m.orderB) s s' := by
  have h := m.heads hb
  obtain ⟨mm⟩ := OrderBook.applyMatch_matches m.applied
  have hpriced := m.priced
  rw [OrderBook.bothPriced, Bool.and_eq_true] at hpriced
  have hA : matchFills m.orderA.id m.orderB.id m.orderA m.orderB m.orderA.id =
      m.orderA.receives m.orderB := if_pos rfl
  have hB : matchFills m.orderA.id m.orderB.id m.orderA m.orderB m.orderB.id =
      m.orderA.sends m.orderB := by
    rw [matchFills, if_neg h.ne.symm, if_pos rfl]
  refine {
    orders := fun id => ?_
    filled := fun id => ?_
    within := fun {id} hid => ?_
    exhausts := ?_
    queue := fun p => ?_
    inStep := m.inStep hb
    parked := mm.parked
    parkQueue := mm.parkQueue
    feed := mm.feed
    cycles := m.cycles }
  · rw [h.book, OrderBook.afterMatch_orders, lookup_matchFills h.ne h.lookupA h.lookupB]
  · rw [m.filledOrders, Finset.mem_insert, Finset.mem_insert]
    by_cases hidA : id = m.orderA.id
    · simp [hidA, hA, h.trades.receives_pos]
    · by_cases hidB : id = m.orderB.id
      · simp [hidB, hB, h.trades.2.1]
      · simp [matchFills, hidA, hidB]
  · by_cases hidA : id = m.orderA.id
    · rw [hidA, hA]
      refine ⟨m.orderA, h.lookupA, Order.receives_le .., h.pairA ▸ h.headA, ?_, ?_⟩
      · rw [show m.orderA.offeredToken = tokenA from congrArg Prod.fst h.pairA]
        exact hpriced.1
      · rw [show m.orderA.requestedToken = tokenB from congrArg Prod.snd h.pairA]
        exact hpriced.2
    · by_cases hidB : id = m.orderB.id
      · rw [hidB, hB]
        refine ⟨m.orderB, h.lookupB, Order.sends_le .., h.pairB ▸ h.headB, ?_, ?_⟩
        · rw [show m.orderB.offeredToken = tokenB from congrArg Prod.fst h.pairB]
          exact hpriced.2
        · rw [show m.orderB.requestedToken = tokenA from congrArg Prod.snd h.pairB]
          exact hpriced.1
      · simp [matchFills, hidA, hidB] at hid
  · rcases h.trades.exhausts with ⟨hpos, hzero⟩ | ⟨hpos, hzero⟩
    · exact ⟨m.orderA.id, m.orderA, h.lookupA, hpos, hA ▸ hzero⟩
    · exact ⟨m.orderB.id, m.orderB, h.lookupB, hpos, hB ▸ hzero⟩
  · rw [h.book]
    exact OrderBook.afterMatch_queue_sublist ..

/-- Direct matching is a sequence of trades. -/
theorem runDirectMatching_trades (pairs : List Pair) {s : Progress} (hb : s.book.InStep ∅) :
    Trades s (runDirectMatching pairs s) :=
  (runDirectMatching_induct (P := fun s' => Trades s s')
    (fun _ _ _ _ hs m h => Relation.ReflTransGen.tail h ⟨_, m.trade hs⟩) hb .refl).2

/-! ## Triangular matching -/

/-- **The fills of a simulation**: each leg receives something it has left, and the
bottleneck, which can still release something, all of it. -/
structure Fillable (orderAb orderBc orderCa : Order) (f : FillResult) : Prop where
  ab : 0 < f.fillB ∧ f.fillB ≤ orderAb.requestedRemaining
  bc : 0 < f.fillC ∧ f.fillC ≤ orderBc.requestedRemaining
  ca : 0 < f.fillA ∧ f.fillA ≤ orderCa.requestedRemaining
  exhausts : (0 < orderAb.offeredRemaining ∧ f.fillB = orderAb.requestedRemaining) ∨
    (0 < orderBc.offeredRemaining ∧ f.fillC = orderBc.requestedRemaining) ∨
    (0 < orderCa.offeredRemaining ∧ f.fillA = orderCa.requestedRemaining)

theorem simulateCycleFills_within {leg0 leg1 leg2 : Order} {legs : LegFills}
    (h : simulateCycleFills leg0 leg1 leg2 = some legs) :
    (0 < leg0.offeredRemaining ∧ legs.leg0.1 = leg0.requestedRemaining) ∧
    (0 < legs.leg0.1 ∧ legs.leg0.1 ≤ leg0.requestedRemaining) ∧
    (0 < legs.leg1.1 ∧ legs.leg1.1 ≤ leg1.requestedRemaining) ∧
    (0 < legs.leg2.1 ∧ legs.leg2.1 ≤ leg2.requestedRemaining) := by
  unfold simulateCycleFills at h
  dsimp only at h
  split at h
  · cases h
  · rename_i hne
    cases h
    rw [not_or, not_or] at hne
    obtain ⟨h₀, h₁, h₂⟩ := hne
    have hpos₁ := Nat.pos_of_ne_zero h₁
    refine ⟨⟨?_, rfl⟩, ⟨Nat.pos_of_ne_zero h₀, Nat.le_refl _⟩, ⟨hpos₁, Nat.min_le_right _ _⟩,
      Nat.pos_of_ne_zero h₂, Nat.min_le_right _ _⟩
    exact Nat.lt_of_lt_of_le hpos₁ (Nat.min_le_left _ _)

theorem simulateCycle_fillable {orderAb orderBc orderCa : Order} {leg : BottleneckLeg}
    {f : FillResult} (h : simulateCycle orderAb orderBc orderCa leg = some f) :
    Fillable orderAb orderBc orderCa f := by
  cases leg with
  | ab =>
    obtain ⟨legs, hlegs, rfl⟩ := Option.map_eq_some_iff.mp h
    obtain ⟨hex, h₀, h₁, h₂⟩ := simulateCycleFills_within hlegs
    exact ⟨h₀, h₂, h₁, Or.inl hex⟩
  | bc =>
    obtain ⟨legs, hlegs, rfl⟩ := Option.map_eq_some_iff.mp h
    obtain ⟨hex, h₀, h₁, h₂⟩ := simulateCycleFills_within hlegs
    exact ⟨h₁, h₀, h₂, Or.inr (Or.inl hex)⟩
  | ca =>
    obtain ⟨legs, hlegs, rfl⟩ := Option.map_eq_some_iff.mp h
    obtain ⟨hex, h₀, h₁, h₂⟩ := simulateCycleFills_within hlegs
    exact ⟨h₂, h₁, h₀, Or.inr (Or.inr hex)⟩

theorem Simulated.fillable {b : OrderBook} {e : CycleEntry} {sim : CycleSimulation}
    (h : Simulated b e sim) : Fillable h.orderAb h.orderBc h.orderCa sim.fills :=
  simulateCycle_fillable (simulatePriced_some h.simulated)

/-- What the three orders of a cycle receive. -/
def cycleFills (e : CycleEntry) (f : FillResult) (id : OrderId) : Nat :=
  if id = e.orderAb then f.fillB
  else if id = e.orderCa then f.fillA
  else if id = e.orderBc then f.fillC
  else 0

theorem afterCycle_queue_sublist (b : OrderBook) (e : CycleEntry) (f : FillResult)
    (orderAb orderBc orderCa : Order) (p : Pair) :
    ((afterCycle b e f orderAb orderBc orderCa).queue p).Sublist (b.queue p) := by
  simp only [afterCycle, OrderBook.addProtocolBalance_toIndex]
  exact (OrderBook.cleanupIfFilled_queue_sublist _ _ p).trans
    ((OrderBook.cleanupIfFilled_queue_sublist _ _ p).trans
      (OrderBook.cleanupIfFilled_queue_sublist _ _ p))

theorem fill_snd_of_le {o : Order} {n : Nat} (h : n ≤ o.requestedRemaining) :
    (o.fill n).2 = o.deduct n := by
  rw [o.fill_of_le h]

theorem afterCycle_lookup {b : OrderBook} {e : CycleEntry} {sim : CycleSimulation} (hl : Legs b e)
    (h : Simulated b e sim) (id : OrderId) :
    (afterCycle b e sim.fills h.orderAb h.orderBc h.orderCa).orders.lookup id =
      (b.orders.lookup id).map fun o => o.deduct (cycleFills e sim.fills id) := by
  obtain ⟨hab_bc, hab_ca, hbc_ca⟩ := hl.ne
  have hf := h.fillable
  simp only [afterCycle, cycleFilled, OrderBook.addProtocolBalance_orders,
    OrderBook.cleanupIfFilled_orders, fillInPlace, fill_snd_of_le hf.ab.2,
    fill_snd_of_le hf.bc.2, fill_snd_of_le hf.ca.2,
    FiniteMap.lookup_insert_if]
  unfold cycleFills
  by_cases hbc : id = e.orderBc
  · rw [if_pos hbc, hbc, h.lookupBc, if_neg hab_bc.symm, if_neg hbc_ca, if_pos rfl]
    rfl
  · by_cases hca : id = e.orderCa
    · rw [if_neg hbc, if_pos hca, hca, h.lookupCa, if_neg hab_ca.symm, if_pos rfl]
      rfl
    · by_cases hab : id = e.orderAb
      · rw [if_neg hbc, if_neg hca, if_pos hab, hab, h.lookupAb, if_pos rfl]
        rfl
      · simp only [if_neg hbc, if_neg hca, if_neg hab, deduct_zero, Option.map_id']

/-- The orders an entry names stand first in their queues, as far as they are queued. -/
structure Fronts (b : OrderBook) (e : CycleEntry) : Prop where
  ab : AtFront b e.orderAb (e.triangle.a, e.triangle.b)
  bc : AtFront b e.orderBc (e.triangle.b, e.triangle.c)
  ca : AtFront b e.orderCa (e.triangle.c, e.triangle.a)

theorem Built.fronts {b : OrderBook} {t : Triangle} {e : CycleEntry} (h : Built b t e) :
    Fronts b e := by
  obtain ⟨rfl, hab, hbc, hca, -⟩ := h
  exact ⟨fun _ => hab, fun _ => hbc, fun _ => hca⟩

theorem Fronts.of_sublist {b b' : OrderBook} {e : CycleEntry} (h : Fronts b e) (hb : b.InStep ∅)
    (hsub : ∀ p, (b'.queue p).Sublist (b.queue p)) : Fronts b' e :=
  ⟨h.ab.of_sublist (hb.indexed.nodup _) (hsub _), h.bc.of_sublist (hb.indexed.nodup _) (hsub _),
    h.ca.of_sublist (hb.indexed.nodup _) (hsub _)⟩

section Execution
variable {s : Progress} {e : CycleEntry} {sim : CycleSimulation}

/-- What a run knows after it executed an entry. -/
def executed (s : Progress) (e : CycleEntry) (h : Simulated s.book e sim) : Progress :=
  { s with
    book := afterCycle s.book e sim.fills h.orderAb h.orderBc h.orderCa
    filledOrders := insert e.orderBc (insert e.orderCa (insert e.orderAb s.filledOrders))
    cycles := s.cycles + 1 }

/-- A visible leg that is active and stood first stands first. -/
theorem leg_head (hb : s.book.InStep ∅) {id : OrderId} {p : Pair} {o : Order}
    (hv : VisibleAs s.book id p) (hfront : AtFront s.book id p)
    (ho : s.book.orders.lookup id = some o) (hact : o.isActive = true) :
    o.pair = p ∧ (s.book.queue o.pair).head? = some id := by
  have hqueued := (hv.queued hb ho hact).1
  obtain ⟨o', ho', rfl, -⟩ := hv
  rw [ho] at ho'
  cases ho'
  exact ⟨rfl, hfront hqueued⟩

/-- What each leg receives. -/
theorem Legs.cycleFills_eq {b : OrderBook} (hl : Legs b e) (f : FillResult) :
    cycleFills e f e.orderAb = f.fillB ∧ cycleFills e f e.orderBc = f.fillC ∧
      cycleFills e f e.orderCa = f.fillA := by
  obtain ⟨hab_bc, hab_ca, hbc_ca⟩ := hl.ne
  refine ⟨if_pos rfl, ?_, ?_⟩
  · rw [cycleFills, if_neg hab_bc.symm, if_neg hbc_ca, if_pos rfl]
  · rw [cycleFills, if_neg hab_ca.symm, if_pos rfl]

/-- Only the legs receive anything. -/
theorem leg_of_cycleFills_pos {f : FillResult} {id : OrderId} (h : 0 < cycleFills e f id) :
    id = e.orderAb ∨ id = e.orderBc ∨ id = e.orderCa := by
  by_contra hne
  rw [not_or, not_or] at hne
  rw [cycleFills, if_neg hne.1, if_neg hne.2.2, if_neg hne.2.1] at h
  exact Nat.lt_irrefl 0 h

/-- Executing an entry adds its legs to the filled orders, and each leg receives something. -/
theorem mem_executed_filledOrders (hl : Legs s.book e) (h : Simulated s.book e sim)
    (id : OrderId) :
    id ∈ (executed s e h).filledOrders ↔
      id ∈ s.filledOrders ∨ 0 < cycleFills e sim.fills id := by
  obtain ⟨fab, fbc, fca⟩ := hl.cycleFills_eq sim.fills
  have hf := h.fillable
  rw [executed, Finset.mem_insert, Finset.mem_insert, Finset.mem_insert]
  constructor
  · rintro (rfl | rfl | rfl | hid)
    · exact Or.inr (fbc ▸ hf.bc.1)
    · exact Or.inr (fca ▸ hf.ca.1)
    · exact Or.inr (fab ▸ hf.ab.1)
    · exact Or.inl hid
  · rintro (hid | hid)
    · exact Or.inr (Or.inr (Or.inr hid))
    · rcases leg_of_cycleFills_pos hid with rfl | rfl | rfl
      · exact Or.inr (Or.inr (Or.inl rfl))
      · exact Or.inl rfl
      · exact Or.inr (Or.inl rfl)

/-- The legs of an executed entry stand first, have their tokens priced, and receive no more
than they have left. -/
theorem executed_within (hb : s.book.InStep ∅) (hl : Legs s.book e) (hfront : Fronts s.book e)
    (h : Simulated s.book e sim) {id : OrderId} (hid : 0 < cycleFills e sim.fills id) :
    ∃ o, s.book.orders.lookup id = some o ∧
      cycleFills e sim.fills id ≤ o.requestedRemaining ∧
      (s.book.queue o.pair).head? = some id ∧ (s.book.feed o.offeredToken).isSome ∧
      (s.book.feed o.requestedToken).isSome := by
  obtain ⟨fab, fbc, fca⟩ := hl.cycleFills_eq sim.fills
  have hf := h.fillable
  obtain ⟨hpab, hhab⟩ := leg_head hb hl.ab hfront.ab h.lookupAb h.activeAb
  obtain ⟨hpbc, hhbc⟩ := leg_head hb hl.bc hfront.bc h.lookupBc h.activeBc
  obtain ⟨hpca, hhca⟩ := leg_head hb hl.ca hfront.ca h.lookupCa h.activeCa
  obtain ⟨hab₁, hab₂⟩ := Prod.mk.inj hpab
  obtain ⟨hbc₁, hbc₂⟩ := Prod.mk.inj hpbc
  obtain ⟨hca₁, hca₂⟩ := Prod.mk.inj hpca
  have hA : (s.book.feed e.triangle.a).isSome := by rw [← hab₁, h.pricedA]; rfl
  have hB : (s.book.feed e.triangle.b).isSome := by rw [← hab₂, h.pricedB]; rfl
  have hC : (s.book.feed e.triangle.c).isSome := by rw [← hbc₂, h.pricedC]; rfl
  rcases leg_of_cycleFills_pos hid with rfl | rfl | rfl
  · exact ⟨h.orderAb, h.lookupAb, fab ▸ hf.ab.2, hhab, hab₁ ▸ hA, hab₂ ▸ hB⟩
  · exact ⟨h.orderBc, h.lookupBc, fbc ▸ hf.bc.2, hhbc, hbc₁ ▸ hB, hbc₂ ▸ hC⟩
  · exact ⟨h.orderCa, h.lookupCa, fca ▸ hf.ca.2, hhca, hca₁ ▸ hC, hca₂ ▸ hA⟩

/-- **Executing an entry is a trade.** -/
theorem executed_trade (hb : s.book.InStep ∅) (hl : Legs s.book e) (hfront : Fronts s.book e)
    (h : Simulated s.book e sim) :
    Trade (cycleFills e sim.fills) s (executed s e h) := by
  refine {
    orders := afterCycle_lookup hl h
    filled := mem_executed_filledOrders hl h
    within := executed_within hb hl hfront h
    exhausts := ?_
    queue := fun p => afterCycle_queue_sublist ..
    inStep := hl.afterCycle_inStep hb h
    parked := by simp [executed, afterCycle, cycleFilled, fillInPlace]
    parkQueue := by simp [executed, afterCycle, cycleFilled, fillInPlace]
    feed := by simp [executed, afterCycle, cycleFilled, fillInPlace]
    cycles := rfl }
  -- the leg that limits the cycle is used up
  obtain ⟨fab, fbc, fca⟩ := hl.cycleFills_eq sim.fills
  rcases h.fillable.exhausts with ⟨hpos, hfill⟩ | ⟨hpos, hfill⟩ | ⟨hpos, hfill⟩
  · refine ⟨_, _, h.lookupAb, hpos, ?_⟩
    rw [fab, hfill, Order.offeredRemaining_deduct_self]
  · refine ⟨_, _, h.lookupBc, hpos, ?_⟩
    rw [fbc, hfill, Order.offeredRemaining_deduct_self]
  · refine ⟨_, _, h.lookupCa, hpos, ?_⟩
    rw [fca, hfill, Order.offeredRemaining_deduct_self]

end Execution

/-! ## The loop -/

section Loop
variable {s₀ : Progress} {s : CycleState} {e : CycleEntry} {affected : List Triangle}

theorem refresh_eq (hb : s.book.InStep ∅) (t : Triangle) :
    refresh s t = { s with heap := (tryBuildEntry s.book t).1.toList ++ s.heap } := by
  obtain ⟨hbook, -⟩ := tryBuildEntry_built hb t
  unfold refresh
  cases hbuild : tryBuildEntry s.book t with
  | mk entry book =>
    rw [hbuild] at hbook
    obtain rfl : book = s.book := hbook
    cases entry <;> rfl

/-- Re-evaluating triangles pushes their current entries and does nothing else. -/
theorem foldl_refresh_eq (hb : s.book.InStep ∅) (ts : List Triangle) :
    ts.foldl refresh s = { s with
      heap := (ts.reverse.filterMap fun t => (tryBuildEntry s.book t).1) ++ s.heap } := by
  induction ts generalizing s with
  | nil => rfl
  | cons t ts ih =>
    have hsingle : ([t].filterMap fun t => (tryBuildEntry s.book t).1) =
        (tryBuildEntry s.book t).1.toList := by
      cases h : (tryBuildEntry s.book t).1 <;> simp [h]
    rw [List.foldl_cons, refresh_eq hb,
      ih (s := { s with heap := (tryBuildEntry s.book t).1.toList ++ s.heap }) hb,
      List.reverse_cons, List.filterMap_append, List.append_assoc, hsingle]

/-- An entry whose orders can no longer be simulated is dropped, and its triangle
re-evaluated. -/
theorem processEntry_of_none (hb : s.book.InStep ∅)
    (hsim : simulateFullCycle s.book e.orderAb e.orderBc e.orderCa = none) :
    processEntry affected s e = { s with
      heap := (tryBuildEntry s.book e.triangle).1.toList ++ s.heap.erase e } := by
  unfold processEntry
  dsimp only
  rw [hsim]
  exact refresh_eq (s := { s with heap := s.heap.erase e }) hb e.triangle

/-- An entry whose surplus changed is pushed again with the new one, unless it is zero. -/
theorem processEntry_of_changed {sim : CycleSimulation}
    (hsim : simulateFullCycle s.book e.orderAb e.orderBc e.orderCa = some sim)
    (hne : sim.surplusUsd ≠ e.surplusUsd) :
    processEntry affected s e = { s with
      heap := (if 0 < sim.surplusUsd then [{ e with surplusUsd := sim.surplusUsd }] else []) ++
        s.heap.erase e } := by
  unfold processEntry
  dsimp only
  rw [hsim]
  dsimp only
  rw [if_pos hne]
  split <;> rfl

/-- A current entry is executed, and the affected triangles re-evaluated. -/
theorem processEntry_of_current {sim : CycleSimulation} (hb : s.book.InStep ∅)
    (hl : Legs s.book e)
    (hsim : simulateFullCycle s.book e.orderAb e.orderBc e.orderCa = some sim)
    (h : Simulated s.book e sim) (heq : sim.surplusUsd = e.surplusUsd) :
    processEntry affected s e =
      { executed s.toProgress e h with
        heap := (affected.reverse.filterMap fun t =>
          (tryBuildEntry (executed s.toProgress e h).book t).1) ++ s.heap.erase e } := by
  unfold processEntry
  dsimp only
  rw [hsim]
  dsimp only
  rw [if_neg (not_not.mpr heq), executeCycle_eq hl h]
  exact foldl_refresh_eq (s := { executed s.toProgress e h with heap := s.heap.erase e })
    (hl.afterCycle_inStep hb h) affected

/-- **What a round does**: it drops the entry and re-evaluates its triangle, pushes it again
with its new surplus, or executes it. -/
theorem processEntry_cases (hb : s.book.InStep ∅) (hl : Legs s.book e)
    (affected : List Triangle) :
    (simulateFullCycle s.book e.orderAb e.orderBc e.orderCa = none ∧
      processEntry affected s e = { s with
        heap := (tryBuildEntry s.book e.triangle).1.toList ++ s.heap.erase e }) ∨
    (∃ sim, simulateFullCycle s.book e.orderAb e.orderBc e.orderCa = some sim ∧
      sim.surplusUsd ≠ e.surplusUsd ∧
      processEntry affected s e = { s with
        heap := (if 0 < sim.surplusUsd then [{ e with surplusUsd := sim.surplusUsd }] else []) ++
          s.heap.erase e }) ∨
    ∃ sim, ∃ h : Simulated s.book e sim,
      simulateFullCycle s.book e.orderAb e.orderBc e.orderCa = some sim ∧
      sim.surplusUsd = e.surplusUsd ∧
      processEntry affected s e = { executed s.toProgress e h with
        heap := (affected.reverse.filterMap fun t =>
          (tryBuildEntry (executed s.toProgress e h).book t).1) ++ s.heap.erase e } := by
  cases hsim : simulateFullCycle s.book e.orderAb e.orderBc e.orderCa with
  | none => exact Or.inl ⟨rfl, processEntry_of_none hb hsim⟩
  | some sim =>
    by_cases heq : sim.surplusUsd = e.surplusUsd
    · obtain ⟨h⟩ := simulateFullCycle_some hsim
      exact Or.inr (Or.inr ⟨sim, h, rfl, heq, processEntry_of_current hb hl hsim h heq⟩)
    · exact Or.inr (Or.inl ⟨sim, rfl, heq, processEntry_of_changed hsim heq⟩)

/-- **The loop, by induction**: what every round preserves holds in every state it
reaches. -/
theorem CycleReaches.induct {P : CycleState → Prop} (hb : s₀.book.InStep ∅)
    (h : CycleReaches s₀ s) (start : ∀ order, P (cycleStart order s₀))
    (step : ∀ {s e affected}, CycleInv s₀ s → P s → Poppable s e →
      P (processEntry affected s e)) : P s := by
  obtain ⟨order, hof, hrun⟩ := h
  induction hrun with
  | refl => exact start order
  | tail hreach hstep ih =>
    cases hstep with
    | pop hpop _ _ => exact step (cycleInv_of_reaches hb ⟨order, hof, hreach⟩) ih hpop

theorem CycleReaches.trades_fronts (hb : s₀.book.InStep ∅) (h : CycleReaches s₀ s) :
    Trades s₀ s.toProgress ∧ ∀ e ∈ s.heap, Fronts s.book e := by
  refine h.induct (P := fun s => Trades s₀ s.toProgress ∧ ∀ e ∈ s.heap, Fronts s.book e) hb
    (fun order => ?_) (fun {s e affected} hinv hs hpop => ?_)
  · have hbook := (enumerateTriangles_spec hb order).book
    refine ⟨?_, fun e he => ?_⟩
    · rw [cycleStart, hbook]
      exact .refl
    · rw [cycleStart, hbook]
      exact (enumerateTriangles_built hb order e he).fronts
  · obtain ⟨htrades, hfronts⟩ := hs
    have herase : ∀ e' ∈ s.heap.erase e, Fronts s.book e' :=
      fun e' he' => hfronts e' (List.mem_of_mem_erase he')
    have hl := hinv.legs e hpop.1
    rcases processEntry_cases hinv.inStep hl affected with
      ⟨-, hround⟩ | ⟨sim, -, -, hround⟩ | ⟨sim, hsimd, -, -, hround⟩
    all_goals rw [hround]
    · refine ⟨htrades, fun e' he' => ?_⟩
      rcases List.mem_append.mp he' with he' | he'
      · exact ((tryBuildEntry_built hinv.inStep e.triangle).2 e'
          (Option.mem_toList.mp he')).fronts
      · exact herase e' he'
    · refine ⟨htrades, fun e' he' => ?_⟩
      rcases List.mem_append.mp he' with he' | he'
      · split at he'
        · obtain rfl := List.mem_singleton.mp he'
          -- the entry pushed again names the orders it named before
          exact ⟨(hfronts e hpop.1).ab, (hfronts e hpop.1).bc, (hfronts e hpop.1).ca⟩
        · cases he'
      · exact herase e' he'
    · have htrade := executed_trade hinv.inStep hl (hfronts e hpop.1) hsimd
      refine ⟨htrades.tail ⟨_, htrade⟩, fun e' he' => ?_⟩
      rcases List.mem_append.mp he' with he' | he'
      · obtain ⟨t, -, ht⟩ := List.mem_filterMap.mp he'
        exact ((tryBuildEntry_built htrade.inStep t).2 e' ht).fronts
      · exact (herase e' he').of_sublist hinv.inStep htrade.queue

/-- The orders an entry of the heap names stand first, as far as they are queued. -/
theorem CycleReaches.fronts (hb : s₀.book.InStep ∅) (h : CycleReaches s₀ s) :
    ∀ e ∈ s.heap, Fronts s.book e := (h.trades_fronts hb).2

/-- **Triangular matching is a sequence of trades.** -/
theorem CycleReaches.trades (hb : s₀.book.InStep ∅) (h : CycleReaches s₀ s) :
    Trades s₀ s.toProgress := (h.trades_fronts hb).1

/-- **What every execution preserves, triangular matching preserves.** -/
theorem CycleReaches.executions {P : Progress → Prop} (hb : s₀.book.InStep ∅)
    (h : CycleReaches s₀ s) (start : P s₀)
    (step : ∀ {s : Progress} {e : CycleEntry} {sim : CycleSimulation}, s.book.InStep ∅ →
      Legs s.book e → Fronts s.book e → ∀ h : Simulated s.book e sim, P s → P (executed s e h)) :
    P s.toProgress := by
  obtain ⟨order, hof, hrun⟩ := h
  induction hrun with
  | refl =>
    rw [cycleStart, (enumerateTriangles_spec hb order).book]
    exact start
  | @tail s s' hreach hstep ih =>
    cases hstep with
    | @pop e affected hpop _ _ =>
      have hreach' : CycleReaches s₀ s := ⟨order, hof, hreach⟩
      have hinv := cycleInv_of_reaches hb hreach'
      have hl := hinv.legs e hpop.1
      rcases processEntry_cases hinv.inStep hl affected with
        ⟨-, hround⟩ | ⟨sim, -, -, hround⟩ | ⟨sim, hsimd, -, -, hround⟩
      all_goals rw [hround]
      · exact ih
      · exact ih
      · exact step hinv.inStep hl (hreach'.fronts hb e hpop.1) hsimd ih

end Loop

/-- **A run of the engine is a sequence of trades.** -/
theorem EngineRun.trades {b : OrderBook} {triangular : Bool} {p : Progress} (hb : b.InStep ∅)
    (h : EngineRun b triangular p) : Trades (runStart b) p := by
  cases h with
  | direct => exact runDirectMatching_trades _ hb
  | triangular _ hreach _ =>
    exact (runDirectMatching_trades _ hb).trans
      (hreach.trades (runDirectMatching_advance _ hb).1)

end PswapSolver
