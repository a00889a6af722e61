import PswapSolver.Engine

/-! # When a triangular cycle is solvent

A cycle takes token A from order AB and gives it to order CA, takes B from BC and
gives it to AB, and takes C from CA and gives it to BC.  It is *solvent* when for
each token the release covers the fill, so that the surplus credited to the protocol
is a true difference.

The simulation fills the bottleneck leg completely and caps the following legs by
what they have left, so two of the three tokens always balance.  The third is the
one the bottleneck itself requests, and there the loop need not close: the leg that
releases it may have less left, or be fed less, than the bottleneck was promised.
The subtraction saturates and hides the deficit.  `executed_cycle_solvent_iff` says
when exactly it does not happen.
-/
namespace PswapSolver

/-- Token by token the cycle releases what it pays out, and the surpluses are the
true differences. -/
structure Solvent (orderAb orderBc orderCa : Order) (f : FillResult) : Prop where
  tokenA : f.fillA ≤ orderAb.offeredFor f.fillB ∧
    (f.surplusA : Int) = orderAb.offeredFor f.fillB - f.fillA
  tokenB : f.fillB ≤ orderBc.offeredFor f.fillC ∧
    (f.surplusB : Int) = orderBc.offeredFor f.fillC - f.fillB
  tokenC : f.fillC ≤ orderCa.offeredFor f.fillA ∧
    (f.surplusC : Int) = orderCa.offeredFor f.fillA - f.fillC

/-- **The loop closes**: the last leg has enough left to pay the bottleneck `leg0` in
full, the middle leg has enough left to feed the last leg for that, and the bottleneck
has enough left to feed the middle leg. -/
def Closes (leg0 leg1 leg2 : Order) : Prop :=
  leg0.requestedRemaining ≤ leg2.offeredRemaining ∧
  leg2.minFillForRelease leg0.requestedRemaining ≤ leg1.offeredRemaining ∧
  leg1.minFillForRelease (leg2.minFillForRelease leg0.requestedRemaining) ≤ leg0.offeredRemaining

/-- The closing condition for the legs in the order the fills are propagated. -/
def ClosesFrom (orderAb orderBc orderCa : Order) : BottleneckLeg → Prop
  | .ab => Closes orderAb orderCa orderBc
  | .bc => Closes orderBc orderAb orderCa
  | .ca => Closes orderCa orderBc orderAb

/-- A leg fed with `input` releases `demand` iff it has that much left and the input
is at least the minimal fill for it. -/
theorem le_offeredFor_min_iff (o : Order) (demand input : Nat) :
    demand ≤ o.offeredFor (min input o.requestedRemaining) ↔
      demand ≤ o.offeredRemaining ∧ o.minFillForRelease demand ≤ input := by
  have hrem := o.remaining_le
  have hmin : min input o.requestedRemaining ≤ o.requested := (Nat.min_le_right _ _).trans hrem
  unfold Order.offeredRemaining
  by_cases hd : demand ≤ o.offered
  · rw [← o.minFillForRelease_le_iff hd hmin, ← o.minFillForRelease_le_iff hd hrem]
    omega
  · have h₁ := o.offeredFor_le_offered hmin
    have h₂ := o.offeredFor_le_offered hrem
    constructor
    · intro h
      omega
    · rintro ⟨h, -⟩
      omega

/-- The fills propagated from the bottleneck: each leg receives no more than the leg
before it released, and the last release covers the bottleneck iff the loop closes. -/
theorem simulateCycleFills_some {leg0 leg1 leg2 : Order} {legs : LegFills}
    (h : simulateCycleFills leg0 leg1 leg2 = some legs) :
    legs.leg0.2 = leg0.offeredFor legs.leg0.1 ∧ legs.leg1.2 = leg1.offeredFor legs.leg1.1 ∧
    legs.leg2.2 = leg2.offeredFor legs.leg2.1 ∧
    legs.leg1.1 ≤ legs.leg0.2 ∧ legs.leg2.1 ≤ legs.leg1.2 ∧
    (legs.leg0.1 ≤ legs.leg2.2 ↔ Closes leg0 leg1 leg2) := by
  unfold simulateCycleFills at h
  dsimp only at h
  split at h
  · cases h
  · cases h
    refine ⟨rfl, rfl, rfl, Nat.min_le_left _ _, Nat.min_le_left _ _, ?_⟩
    dsimp only [fillLeg]
    rw [le_offeredFor_min_iff, le_offeredFor_min_iff]
    rfl

/-- The solvency of a result whose releases are the legs' own. -/
theorem solvent_fillResult {orderAb orderBc orderCa : Order} {a b c : Nat × Nat}
    (ha : a.1 = orderAb.offeredFor b.2) (hb : b.1 = orderBc.offeredFor c.2)
    (hc : c.1 = orderCa.offeredFor a.2) :
    Solvent orderAb orderBc orderCa (fillResult a b c) ↔ a.2 ≤ a.1 ∧ b.2 ≤ b.1 ∧ c.2 ≤ c.1 := by
  rw [ha, hb, hc]
  constructor
  · intro h
    exact ⟨h.tokenA.1, h.tokenB.1, h.tokenC.1⟩
  · rintro ⟨h₁, h₂, h₃⟩
    refine ⟨⟨h₁, ?_⟩, ⟨h₂, ?_⟩, ⟨h₃, ?_⟩⟩
    · simp only [fillResult, ha]
      omega
    · simp only [fillResult, hb]
      omega
    · simp only [fillResult, hc]
      omega

/-- **A simulated cycle is solvent iff its loop closes.** -/
theorem simulateCycle_solvent_iff {orderAb orderBc orderCa : Order} {leg : BottleneckLeg}
    {f : FillResult} (h : simulateCycle orderAb orderBc orderCa leg = some f) :
    Solvent orderAb orderBc orderCa f ↔ ClosesFrom orderAb orderBc orderCa leg := by
  cases leg with
  | ab =>
    obtain ⟨legs, hlegs, rfl⟩ := Option.map_eq_some_iff.mp h
    obtain ⟨h₀, h₁, h₂, hle₁, hle₂, hclose⟩ := simulateCycleFills_some hlegs
    rw [solvent_fillResult h₀ h₂ h₁]
    exact ⟨fun h => hclose.mp h.2.1, fun h => ⟨hle₁, hclose.mpr h, hle₂⟩⟩
  | bc =>
    obtain ⟨legs, hlegs, rfl⟩ := Option.map_eq_some_iff.mp h
    obtain ⟨h₀, h₁, h₂, hle₁, hle₂, hclose⟩ := simulateCycleFills_some hlegs
    rw [solvent_fillResult h₁ h₀ h₂]
    exact ⟨fun h => hclose.mp h.2.2, fun h => ⟨hle₂, hle₁, hclose.mpr h⟩⟩
  | ca =>
    obtain ⟨legs, hlegs, rfl⟩ := Option.map_eq_some_iff.mp h
    obtain ⟨h₀, h₁, h₂, hle₁, hle₂, hclose⟩ := simulateCycleFills_some hlegs
    rw [solvent_fillResult h₂ h₁ h₀]
    exact ⟨fun h => hclose.mp h.1, fun h => ⟨hclose.mpr h, hle₂, hle₁⟩⟩

theorem simulatePriced_some {orderAb orderBc orderCa : Order} {pA pB pC : Nat}
    {sim : CycleSimulation} (h : simulatePriced orderAb orderBc orderCa pA pB pC = some sim) :
    simulateCycle orderAb orderBc orderCa (bottleneckOf orderAb orderBc orderCa pA pB pC) =
      some sim.fills := by
  unfold simulatePriced at h
  dsimp only at h
  split at h
  · cases h
  · obtain ⟨fills, hfills, rfl⟩ := Option.map_eq_some_iff.mp h
    exact hfills

/-- The state of the loop at an executed cycle: the three orders the entry names and
the prices of its three tokens. -/
structure ExecutedAt (s : CycleState) (e : CycleEntry) (orderAb orderBc orderCa : Order)
    (priceA priceB priceC : Nat) : Prop where
  orderAb : s.book.orders.lookup e.orderAb = some orderAb
  orderBc : s.book.orders.lookup e.orderBc = some orderBc
  orderCa : s.book.orders.lookup e.orderCa = some orderCa
  priceA : s.book.feed e.triangle.a = some priceA
  priceB : s.book.feed e.triangle.b = some priceB
  priceC : s.book.feed e.triangle.c = some priceC

/-- **When the engine executes a solvent cycle.**  In every run of the engine on a
reachable book, every executed cycle is solvent token by token exactly when the loop
closes at the amounts its three orders had left. -/
theorem executed_cycle_solvent_iff {b : OrderBook} (hb : b.Reachable) {pairs : List Pair}
    {s : CycleState} (hs : CycleReaches (runDirectMatching pairs (runStart b)) s)
    {e : CycleEntry} {sim : CycleSimulation} (hexec : Executes s e sim) :
    ∃ orderAb orderBc orderCa priceA priceB priceC,
      ExecutedAt s e orderAb orderBc orderCa priceA priceB priceC ∧
      (Solvent orderAb orderBc orderCa sim.fills ↔
        ClosesFrom orderAb orderBc orderCa
          (bottleneckOf orderAb orderBc orderCa priceA priceB priceC)) := by
  obtain ⟨hinv, -⟩ := cycleReaches_advance hb.inv.inStep hs
  have hl := hinv.legs e hexec.poppable.1
  obtain ⟨hsim⟩ := simulateFullCycle_some hexec.simulated
  obtain ⟨o, ho, hpab, -⟩ := hl.ab
  obtain rfl : hsim.orderAb = o := Option.some.inj (hsim.lookupAb.symm.trans ho)
  obtain ⟨o, ho, hpbc, -⟩ := hl.bc
  obtain rfl : hsim.orderBc = o := Option.some.inj (hsim.lookupBc.symm.trans ho)
  refine ⟨hsim.orderAb, hsim.orderBc, hsim.orderCa, hsim.priceA, hsim.priceB, hsim.priceC,
    ⟨hsim.lookupAb, hsim.lookupBc, hsim.lookupCa, ?_, ?_, ?_⟩,
    simulateCycle_solvent_iff (simulatePriced_some hsim.simulated)⟩
  -- the prices the simulation reads off the orders are those of the triangle's tokens
  · rw [← show hsim.orderAb.offeredToken = e.triangle.a from congrArg Prod.fst hpab]
    exact hsim.pricedA
  · rw [← show hsim.orderAb.requestedToken = e.triangle.b from congrArg Prod.snd hpab]
    exact hsim.pricedB
  · rw [← show hsim.orderBc.requestedToken = e.triangle.c from congrArg Prod.snd hpbc]
    exact hsim.pricedC

/-! ### Two triangles

In the first, order 1 offers 10000 of token 1 for 100 of token 2, order 2 offers 50 of
token 2 for 101 of token 3, and order 3 offers 101 of token 3 for 101 of token 1, at
equal prices.  Order 1 is the bottleneck and is promised 100 of token 2; order 2
releases 50.  In the second every order offers 110 for 100, and the loop closes. -/

/-- A book of three orders around a triangle, all tokens at one cent. -/
def triangleBook (ab bc ca : OrderTerms) : OrderBook :=
  (((OrderBook.new fun _ => some 1).addUserOrder 1 ab).addUserOrder 2 bc).addUserOrder 3 ca

theorem triangleBook_reachable (ab bc ca : OrderTerms) : (triangleBook ab bc ca).Reachable :=
  (((OrderBook.Reachable.new _).addUserOrder _ _).addUserOrder _ _).addUserOrder _ _

/-- Tokens 1, 2, 3 in ascending order, each with one neighbour on either side. -/
def triangleEnumeration : Enumeration where
  tokens := [1, 2, 3]
  incoming := fun t => if t = 1 then [3] else [t - 1]
  outgoing := fun t => if t = 3 then [1] else [t + 1]

def openLoopBook : OrderBook :=
  triangleBook (swapTerms 1 2 10000 100) (swapTerms 2 3 50 101) (swapTerms 3 1 101 101)

def openLoopState : CycleState := cycleStart triangleEnumeration (runStart openLoopBook)

def openLoopEntry : CycleEntry := ⟨⟨1, 2, 3⟩, 1, 2, 3, 9899⟩

def openLoopSimulation : CycleSimulation := ⟨⟨101, 100, 101, 9899, 0, 0⟩, 9899⟩

theorem openLoop_executes : Executes openLoopState openLoopEntry openLoopSimulation where
  poppable := by
    have hheap : openLoopState.heap = [openLoopEntry] := by decide +kernel
    rw [Poppable, hheap]
    simp
  simulated := by decide +kernel
  current := rfl

/-- **The engine executes an insolvent cycle**: the three orders release 50 of token 2
and pay out 100, and the surplus of token 2 is recorded as zero. -/
theorem engine_executes_insolvent_cycle :
    openLoopBook.Reachable ∧ MatchablePairs openLoopBook [] ∧
    CycleReaches (runDirectMatching [] (runStart openLoopBook)) openLoopState ∧
    Executes openLoopState openLoopEntry openLoopSimulation ∧
    ∃ orderBc, openLoopState.book.orders.lookup openLoopEntry.orderBc = some orderBc ∧
      orderBc.offeredFor openLoopSimulation.fills.fillC = 50 ∧
      openLoopSimulation.fills.fillB = 100 ∧ openLoopSimulation.fills.surplusB = 0 := by
  refine ⟨triangleBook_reachable _ _ _, ⟨by decide, by decide⟩,
    ⟨triangleEnumeration, ⟨by decide, by decide, by decide⟩, .refl⟩, openLoop_executes,
    Order.fresh 2 (swapTerms 2 3 50 101), ?_, ?_, rfl, rfl⟩
  · decide +kernel
  · decide

def closedLoopBook : OrderBook :=
  triangleBook (swapTerms 1 2 110 100) (swapTerms 2 3 110 100) (swapTerms 3 1 110 100)

def closedLoopState : CycleState := cycleStart triangleEnumeration (runStart closedLoopBook)

def closedLoopEntry : CycleEntry := ⟨⟨1, 2, 3⟩, 1, 2, 3, 30⟩

def closedLoopSimulation : CycleSimulation := ⟨⟨100, 100, 100, 10, 10, 10⟩, 30⟩

theorem closedLoop_executes : Executes closedLoopState closedLoopEntry closedLoopSimulation where
  poppable := by
    have hheap : closedLoopState.heap = [closedLoopEntry] := by decide +kernel
    rw [Poppable, hheap]
    simp
  simulated := by decide +kernel
  current := rfl

/-- On a triangle whose loop closes the executed cycle is solvent. -/
theorem closedLoop_solvent : ∃ orderAb orderBc orderCa priceA priceB priceC,
    ExecutedAt closedLoopState closedLoopEntry orderAb orderBc orderCa priceA priceB priceC ∧
    Solvent orderAb orderBc orderCa closedLoopSimulation.fills := by
  obtain ⟨orderAb, orderBc, orderCa, pA, pB, pC, hat, hiff⟩ := executed_cycle_solvent_iff
    (triangleBook_reachable _ _ _)
    (show CycleReaches (runDirectMatching [] (runStart closedLoopBook)) closedLoopState from
      ⟨triangleEnumeration, ⟨by decide, by decide, by decide⟩, .refl⟩) closedLoop_executes
  have hab : orderAb = Order.fresh 1 (swapTerms 1 2 110 100) :=
    Option.some.inj (hat.orderAb.symm.trans (by decide +kernel))
  have hbc : orderBc = Order.fresh 2 (swapTerms 2 3 110 100) :=
    Option.some.inj (hat.orderBc.symm.trans (by decide +kernel))
  have hca : orderCa = Order.fresh 3 (swapTerms 3 1 110 100) :=
    Option.some.inj (hat.orderCa.symm.trans (by decide +kernel))
  have hA : pA = 1 := Option.some.inj (hat.priceA.symm.trans (by decide +kernel))
  have hB : pB = 1 := Option.some.inj (hat.priceB.symm.trans (by decide +kernel))
  have hC : pC = 1 := Option.some.inj (hat.priceC.symm.trans (by decide +kernel))
  refine ⟨orderAb, orderBc, orderCa, pA, pB, pC, hat, hiff.mpr ?_⟩
  rw [hab, hbc, hca, hA, hB, hC]
  exact ⟨by decide, by decide, by decide⟩

end PswapSolver
