import PswapSolver.Greedy
import Mathlib.Tactic.Ring

/-! # The profitability filter and its overflow

Before a triangle is simulated, the product of what its three orders offer is compared with
the product of what they request.  A product of three amounts may exceed `u128`; the products
are therefore checked, and when one overflows the comparison is skipped and the simulation
decides alone.

The simulation decides by the sum of the surpluses of the three tokens, each clamped at zero.
If the offered product is not larger, the leg that closes the loop has no surplus
(`last_release_le`); but a leg that is capped by what the next order has left leaves one, and
then the entry is built although the cycle as a whole loses (`Spills`).  So skipping the
comparison changes the decision exactly when the requested product overflows, the offered
product is not larger, and some leg spills (`Misjudged`).
-/
namespace PswapSolver
open Relation

/-! ## The filter, checked and exact -/

def offeredProduct (orderAb orderBc orderCa : Order) : Nat :=
  orderAb.offered * orderBc.offered * orderCa.offered

def requestedProduct (orderAb orderBc orderCa : Order) : Nat :=
  orderAb.requested * orderBc.requested * orderCa.requested

/-- The filter with products of any size. -/
def exactlyUnprofitable (orderAb orderBc orderCa : Order) : Bool :=
  decide (offeredProduct orderAb orderBc orderCa ≤ requestedProduct orderAb orderBc orderCa)

/-- Two amounts can always be multiplied. -/
theorem mul_le_u128Max {m n : Nat} (hm : m < 2 ^ 64) (hn : n < 2 ^ 64) : m * n ≤ u128Max := by
  have hlt : m * n < 2 ^ 64 * 2 ^ 64 := Nat.mul_lt_mul'' hm hn
  unfold u128Max
  omega

/-- The checked product of three amounts. -/
theorem checkedProduct_eq_some {l m n p : Nat} (hl : l < 2 ^ 64) (hm : m < 2 ^ 64) :
    (checkedMul128 l m).bind (checkedMul128 · n) = some p ↔
      l * m * n ≤ u128Max ∧ p = l * m * n := by
  rw [checkedMul128, if_pos (mul_le_u128Max hl hm), Option.bind_some, checkedMul128_eq_some]

/-- **The checked filter** rejects if the offered product is not larger and the requested one
does not overflow. -/
theorem knownUnprofitable_iff {orderAb orderBc orderCa : Order} :
    knownUnprofitable orderAb orderBc orderCa = true ↔
      exactlyUnprofitable orderAb orderBc orderCa = true ∧
        requestedProduct orderAb orderBc orderCa ≤ u128Max := by
  rw [exactlyUnprofitable, decide_eq_true_iff]
  unfold knownUnprofitable
  constructor
  · intro h
    split at h
    · rename_i lhs rhs hlhs hrhs
      obtain ⟨-, rfl⟩ := (checkedProduct_eq_some orderAb.offered_lt orderBc.offered_lt).mp hlhs
      obtain ⟨hfits, rfl⟩ :=
        (checkedProduct_eq_some orderAb.requested_lt orderBc.requested_lt).mp hrhs
      exact ⟨of_decide_eq_true h, hfits⟩
    · cases h
  · rintro ⟨hle, hfits⟩
    rw [(checkedProduct_eq_some orderAb.offered_lt orderBc.offered_lt).mpr ⟨hle.trans hfits, rfl⟩,
      (checkedProduct_eq_some orderAb.requested_lt orderBc.requested_lt).mpr ⟨hfits, rfl⟩]
    exact decide_eq_true hle

/-- Building the entry of a triangle with any filter. -/
def tryBuildEntryWith (unprofitable : Order → Order → Order → Bool) (book : OrderBook)
    (t : Triangle) : Option CycleEntry × OrderBook :=
  match book.bestOrder t.a t.b with
  | (none, book) => (none, book)
  | (some orderAb, book) =>
    match book.bestOrder t.b t.c with
    | (none, book) => (none, book)
    | (some orderBc, book) =>
      match book.bestOrder t.c t.a with
      | (none, book) => (none, book)
      | (some orderCa, book) =>
        if unprofitable orderAb orderBc orderCa then (none, book)
        else
          match simulateFullCycle book orderAb.id orderBc.id orderCa.id with
          | none => (none, book)
          | some simulation =>
            if simulation.surplusUsd = 0 then (none, book)
            else (some ⟨t, orderAb.id, orderBc.id, orderCa.id, simulation.surplusUsd⟩, book)

/-- `try_build_entry` with exact, unbounded products. -/
def tryBuildEntryExact (book : OrderBook) (t : Triangle) : Option CycleEntry × OrderBook :=
  tryBuildEntryWith exactlyUnprofitable book t

theorem tryBuildEntry_eq_with (book : OrderBook) (t : Triangle) :
    tryBuildEntry book t = tryBuildEntryWith knownUnprofitable book t := rfl

/-- The decision on three orders: an entry is built iff the filter lets them pass and the
simulation yields a surplus. -/
def buildsFrom (unprofitable : Order → Order → Order → Bool) (feed : PriceFeed)
    (orderAb orderBc orderCa : Order) : Bool :=
  !unprofitable orderAb orderBc orderCa &&
    (simulateOrders feed orderAb orderBc orderCa).any fun simulation => simulation.surplusUsd ≠ 0

/-- The decision is about the best orders of the three pairs. -/
theorem tryBuildEntryWith_isSome {s : Progress} (hb : s.book.InStep ∅)
    (unprofitable : Order → Order → Order → Bool) (t : Triangle) :
    (tryBuildEntryWith unprofitable s.book t).1.isSome =
      (s.ledger.first (t.a, t.b)).any fun orderAb => (s.ledger.first (t.b, t.c)).any fun orderBc =>
        (s.ledger.first (t.c, t.a)).any fun orderCa =>
          buildsFrom unprofitable s.book.feed orderAb orderBc orderCa := by
  have hbest : ∀ x y, s.book.bestOrder x y = (s.ledger.first (x, y), s.book) :=
    fun x y => hb.bestOrder x y
  unfold tryBuildEntryWith
  rw [hbest t.a t.b]
  cases hab : s.ledger.first (t.a, t.b) with
  | none => rfl
  | some orderAb =>
    dsimp only
    rw [hbest t.b t.c]
    cases hbc : s.ledger.first (t.b, t.c) with
    | none => rfl
    | some orderBc =>
      dsimp only
      rw [hbest t.c t.a]
      cases hca : s.ledger.first (t.c, t.a) with
      | none => rfl
      | some orderCa =>
        dsimp only [Option.any_some, buildsFrom]
        rw [simulateFullCycle_of_lookup (hb.lookup_first hab).2 (hb.lookup_first hbc).2
          (hb.lookup_first hca).2]
        cases unprofitable orderAb orderBc orderCa with
        | true => rfl
        | false =>
          cases simulateOrders s.book.feed orderAb orderBc orderCa with
          | none => rfl
          | some sim =>
            by_cases hzero : sim.surplusUsd = 0 <;> simp [hzero]

/-! ## What the simulation decides -/

/-- **The cycle spills**: amounts flow through the legs, and some leg releases more than the next
one has left to fill. -/
structure Spills (leg0 leg1 leg2 : Order) : Prop where
  flows0 : 0 < leg0.offeredRemaining
  flows1 : 0 < leg1.offeredFor (min leg0.offeredRemaining leg1.requestedRemaining)
  excess : leg1.requestedRemaining < leg0.offeredRemaining ∨
    leg2.requestedRemaining < leg1.offeredFor (min leg0.offeredRemaining leg1.requestedRemaining)

/-- The same for the legs in the order in which the fills are propagated. -/
def SpillsFrom (orderAb orderBc orderCa : Order) : BottleneckLeg → Prop
  | .ab => Spills orderAb orderCa orderBc
  | .bc => Spills orderBc orderAb orderCa
  | .ca => Spills orderCa orderBc orderAb

section Legs
variable {leg0 leg1 leg2 : Order}

/-- **An unprofitable cycle has no surplus where the loop closes.** -/
theorem last_release_le {legs : LegFills} (h : simulateCycleFills leg0 leg1 leg2 = some legs)
    (hle : offeredProduct leg0 leg1 leg2 ≤ requestedProduct leg0 leg1 leg2) :
    legs.leg2.2 ≤ legs.leg0.1 := by
  obtain ⟨hr₀, hr₁, hr₂, hf₁, hf₂, -⟩ := simulateCycleFills_some h
  obtain ⟨-, ⟨-, hfill₀⟩, ⟨-, hfill₁⟩, -, hfill₂⟩ := simulateCycleFills_within h
  -- every leg releases at most its rate times what it receives
  have hrate₀ : legs.leg0.2 * leg0.requested ≤ leg0.offered * legs.leg0.1 :=
    (leg0.le_offeredFor_iff (hfill₀.trans leg0.remaining_le)).mp hr₀.le
  have hrate₁ : legs.leg1.2 * leg1.requested ≤ leg1.offered * legs.leg1.1 :=
    (leg1.le_offeredFor_iff (hfill₁.trans leg1.remaining_le)).mp hr₁.le
  have hrate₂ : legs.leg2.2 * leg2.requested ≤ leg2.offered * legs.leg2.1 :=
    (leg2.le_offeredFor_iff (hfill₂.trans leg2.remaining_le)).mp hr₂.le
  unfold offeredProduct requestedProduct at hle
  have hpos : 0 < leg0.requested * leg1.requested * leg2.requested :=
    Nat.mul_pos (Nat.mul_pos leg0.requested_pos leg1.requested_pos) leg2.requested_pos
  refine Nat.le_of_mul_le_mul_right ?_ hpos
  calc legs.leg2.2 * (leg0.requested * leg1.requested * leg2.requested)
      = legs.leg2.2 * leg2.requested * (leg0.requested * leg1.requested) := by ring
    _ ≤ leg2.offered * legs.leg2.1 * (leg0.requested * leg1.requested) := by gcongr
    _ ≤ leg2.offered * legs.leg1.2 * (leg0.requested * leg1.requested) := by gcongr
    _ = legs.leg1.2 * leg1.requested * (leg2.offered * leg0.requested) := by ring
    _ ≤ leg1.offered * legs.leg1.1 * (leg2.offered * leg0.requested) := by gcongr
    _ ≤ leg1.offered * legs.leg0.2 * (leg2.offered * leg0.requested) := by gcongr
    _ = legs.leg0.2 * leg0.requested * (leg1.offered * leg2.offered) := by ring
    _ ≤ leg0.offered * legs.leg0.1 * (leg1.offered * leg2.offered) := by gcongr
    _ = legs.leg0.1 * (leg0.offered * leg1.offered * leg2.offered) := by ring
    _ ≤ legs.leg0.1 * (leg0.requested * leg1.requested * leg2.requested) := by gcongr

/-- Some leg releases more than the next one receives. -/
def LegFills.Surplus (legs : LegFills) : Prop :=
  legs.leg1.1 < legs.leg0.2 ∨ legs.leg2.1 < legs.leg1.2 ∨ legs.leg0.1 < legs.leg2.2

/-- **The fills of an unprofitable cycle have a surplus iff it spills.** -/
theorem simulateCycleFills_surplus_iff (h₀ : 0 < leg0.requestedRemaining)
    (h₁ : 0 < leg1.requestedRemaining) (h₂ : 0 < leg2.requestedRemaining)
    (hle : offeredProduct leg0 leg1 leg2 ≤ requestedProduct leg0 leg1 leg2) :
    (∃ legs, simulateCycleFills leg0 leg1 leg2 = some legs ∧ legs.Surplus) ↔
      Spills leg0 leg1 leg2 := by
  constructor
  · rintro ⟨legs, hlegs, hsurplus⟩
    have hlast := last_release_le hlegs hle
    unfold simulateCycleFills at hlegs
    dsimp only [fillLeg] at hlegs
    split at hlegs
    · cases hlegs
    cases hlegs
    unfold LegFills.Surplus at hsurplus
    dsimp only at hsurplus hlast
    refine ⟨?_, ?_, ?_⟩
    all_goals
      unfold Order.offeredRemaining
      omega
  · rintro ⟨hflows₀, hflows₁, hexcess⟩
    unfold Order.offeredRemaining at hflows₀ hflows₁ hexcess
    refine ⟨_, if_neg ?_, ?_⟩
    · dsimp only [fillLeg]
      omega
    · unfold LegFills.Surplus
      dsimp only [fillLeg]
      omega

/-- The same for the amounts per token, whichever leg belongs to which token. -/
theorem exists_map_surplus_iff {result : LegFills → FillResult}
    (hresult : ∀ legs, (0 < (result legs).surplusA ∨ 0 < (result legs).surplusB ∨
      0 < (result legs).surplusC) ↔ legs.Surplus)
    (h₀ : 0 < leg0.requestedRemaining) (h₁ : 0 < leg1.requestedRemaining)
    (h₂ : 0 < leg2.requestedRemaining)
    (hle : offeredProduct leg0 leg1 leg2 ≤ requestedProduct leg0 leg1 leg2) :
    (∃ f, (simulateCycleFills leg0 leg1 leg2).map result = some f ∧
      (0 < f.surplusA ∨ 0 < f.surplusB ∨ 0 < f.surplusC)) ↔ Spills leg0 leg1 leg2 := by
  rw [← simulateCycleFills_surplus_iff h₀ h₁ h₂ hle]
  simp only [Option.map_eq_some_iff, exists_exists_and_eq_and, hresult]

end Legs

section Orders
variable {orderAb orderBc orderCa : Order}

theorem fillResult_surplus_iff (a b c : Nat × Nat) :
    (0 < (fillResult a b c).surplusA ∨ 0 < (fillResult a b c).surplusB ∨
      0 < (fillResult a b c).surplusC) ↔ a.2 < a.1 ∨ b.2 < b.1 ∨ c.2 < c.1 := by
  simp only [fillResult, Nat.sub_pos_iff_lt]

/-- **A simulated unprofitable cycle has a surplus iff it spills** from its bottleneck. -/
theorem simulateCycle_surplus_iff (hab : 0 < orderAb.requestedRemaining)
    (hbc : 0 < orderBc.requestedRemaining) (hca : 0 < orderCa.requestedRemaining)
    (hle : offeredProduct orderAb orderBc orderCa ≤ requestedProduct orderAb orderBc orderCa)
    (leg : BottleneckLeg) :
    (∃ f, simulateCycle orderAb orderBc orderCa leg = some f ∧
      (0 < f.surplusA ∨ 0 < f.surplusB ∨ 0 < f.surplusC)) ↔
      SpillsFrom orderAb orderBc orderCa leg := by
  -- the products do not depend on where the cycle begins
  unfold offeredProduct requestedProduct at hle
  cases leg with
  | ab =>
    refine exists_map_surplus_iff (fun legs => ?_) hab hca hbc ?_
    · rw [fillResult_surplus_iff, LegFills.Surplus]
      tauto
    · unfold offeredProduct requestedProduct
      linarith
  | bc =>
    refine exists_map_surplus_iff (fun legs => ?_) hbc hab hca ?_
    · rw [fillResult_surplus_iff, LegFills.Surplus]
      tauto
    · unfold offeredProduct requestedProduct
      linarith
  | ca =>
    refine exists_map_surplus_iff (fun legs => ?_) hca hbc hab ?_
    · rw [fillResult_surplus_iff, LegFills.Surplus]
      tauto
    · unfold offeredProduct requestedProduct
      linarith

/-- Capacities that are all positive have a positive bottleneck, and only those. -/
theorem bottleneckUsd_eq_zero_iff (usdAb usdBc usdCa : Nat) :
    bottleneckUsd usdAb usdBc usdCa (findBottleneck usdAb usdBc usdCa) = 0 ↔
      usdAb = 0 ∨ usdBc = 0 ∨ usdCa = 0 := by
  unfold findBottleneck
  split
  · simp only [bottleneckUsd]
    omega
  split
  · simp only [bottleneckUsd]
    omega
  · simp only [bottleneckUsd]
    omega

theorem satMul128_eq_zero_iff {a b : Nat} (hb : 0 < b) : satMul128 a b = 0 ↔ a = 0 := by
  have hmul : a * b = 0 ↔ a = 0 := by
    rw [Nat.mul_eq_zero]
    omega
  unfold satMul128 u128Max
  omega

theorem satAdd128_eq_zero_iff {a b : Nat} : satAdd128 a b = 0 ↔ a = 0 ∧ b = 0 := by
  unfold satAdd128 u128Max
  omega

/-- At positive prices the cents are zero iff there is no surplus. -/
theorem surplusUsd_ne_zero_iff {f : FillResult} {priceA priceB priceC : Nat} (hA : 0 < priceA)
    (hB : 0 < priceB) (hC : 0 < priceC) :
    satAdd128 (satAdd128 (satMul128 f.surplusA priceA) (satMul128 f.surplusB priceB))
      (satMul128 f.surplusC priceC) ≠ 0 ↔ 0 < f.surplusA ∨ 0 < f.surplusB ∨ 0 < f.surplusC := by
  rw [ne_eq, satAdd128_eq_zero_iff, satAdd128_eq_zero_iff, satMul128_eq_zero_iff hA,
    satMul128_eq_zero_iff hB, satMul128_eq_zero_iff hC]
  omega

/-- **The simulation at given prices** finds a surplus in an unprofitable cycle iff the prices
are positive and the cycle spills. -/
theorem simulatePriced_surplus_iff (hab : 0 < orderAb.requestedRemaining)
    (hbc : 0 < orderBc.requestedRemaining) (hca : 0 < orderCa.requestedRemaining)
    (hle : offeredProduct orderAb orderBc orderCa ≤ requestedProduct orderAb orderBc orderCa)
    (priceA priceB priceC : Nat) :
    (∃ sim, simulatePriced orderAb orderBc orderCa priceA priceB priceC = some sim ∧
      sim.surplusUsd ≠ 0) ↔
      (0 < priceA ∧ 0 < priceB ∧ 0 < priceC) ∧ SpillsFrom orderAb orderBc orderCa
        (bottleneckOf orderAb orderBc orderCa priceA priceB priceC) := by
  have hzero : bottleneckUsd (orderAb.requestedRemaining * priceB)
      (orderBc.requestedRemaining * priceC) (orderCa.requestedRemaining * priceA)
      (bottleneckOf orderAb orderBc orderCa priceA priceB priceC) = 0 ↔
      ¬ (0 < priceA ∧ 0 < priceB ∧ 0 < priceC) := by
    rw [bottleneckOf, bottleneckUsd_eq_zero_iff, Nat.mul_eq_zero, Nat.mul_eq_zero,
      Nat.mul_eq_zero]
    omega
  unfold simulatePriced
  by_cases hpos : 0 < priceA ∧ 0 < priceB ∧ 0 < priceC
  · simp only [if_neg (mt hzero.mp (not_not.mpr hpos)), Option.map_eq_some_iff,
      exists_exists_and_eq_and, surplusUsd_ne_zero_iff hpos.1 hpos.2.1 hpos.2.2]
    rw [simulateCycle_surplus_iff hab hbc hca hle, and_iff_right hpos]
  · simp only [if_pos (hzero.mpr hpos)]
    constructor
    · rintro ⟨sim, hsim, -⟩
      cases hsim
    · intro h
      exact absurd h.1 hpos

end Orders

/-! ## When the decision changes -/

/-- **The overflow changes the decision**: the requested product overflows, the offered product
is not larger, and at the prices of the three tokens the cycle spills. -/
structure Misjudged (feed : PriceFeed) (orderAb orderBc orderCa : Order) : Prop where
  overflows : u128Max < requestedProduct orderAb orderBc orderCa
  unprofitable : offeredProduct orderAb orderBc orderCa ≤ requestedProduct orderAb orderBc orderCa
  spills : ∃ priceA priceB priceC, feed orderAb.offeredToken = some priceA ∧
    feed orderAb.requestedToken = some priceB ∧ feed orderBc.requestedToken = some priceC ∧
    (0 < priceA ∧ 0 < priceB ∧ 0 < priceC) ∧ SpillsFrom orderAb orderBc orderCa
      (bottleneckOf orderAb orderBc orderCa priceA priceB priceC)

section Decision
variable {feed : PriceFeed} {orderAb orderBc orderCa : Order}

theorem simulateOrders_surplus_iff (hab : orderAb.isActive = true) (hbc : orderBc.isActive = true)
    (hca : orderCa.isActive = true)
    (hle : offeredProduct orderAb orderBc orderCa ≤ requestedProduct orderAb orderBc orderCa) :
    ((simulateOrders feed orderAb orderBc orderCa).any fun sim => sim.surplusUsd ≠ 0) = true ↔
      ∃ priceA priceB priceC, feed orderAb.offeredToken = some priceA ∧
        feed orderAb.requestedToken = some priceB ∧ feed orderBc.requestedToken = some priceC ∧
        (0 < priceA ∧ 0 < priceB ∧ 0 < priceC) ∧ SpillsFrom orderAb orderBc orderCa
          (bottleneckOf orderAb orderBc orderCa priceA priceB priceC) := by
  unfold simulateOrders
  rw [hab, hbc, hca, Option.any_eq_true]
  simp only [Bool.not_true, Bool.or_self, Bool.false_eq_true, if_false, decide_eq_true_iff]
  rw [Order.isActive_iff] at hab hbc hca
  cases hA : feed orderAb.offeredToken with
  | none => simp
  | some priceA =>
    cases hB : feed orderAb.requestedToken with
    | none => simp
    | some priceB =>
      cases hC : feed orderBc.requestedToken with
      | none => simp
      | some priceC =>
        rw [simulatePriced_surplus_iff hab hbc hca hle]
        constructor
        · rintro ⟨hpos, hspills⟩
          exact ⟨_, _, _, rfl, rfl, rfl, hpos, hspills⟩
        · rintro ⟨_, _, _, hA', hB', hC', hpos, hspills⟩
          cases hA'
          cases hB'
          cases hC'
          exact ⟨hpos, hspills⟩

/-- **The two filters decide alike unless the overflow changes the decision.** -/
theorem buildsFrom_eq_iff (hab : orderAb.isActive = true) (hbc : orderBc.isActive = true)
    (hca : orderCa.isActive = true) :
    buildsFrom knownUnprofitable feed orderAb orderBc orderCa =
        buildsFrom exactlyUnprofitable feed orderAb orderBc orderCa ↔
      ¬ Misjudged feed orderAb orderBc orderCa := by
  unfold buildsFrom
  cases hexact : exactlyUnprofitable orderAb orderBc orderCa with
  | false =>
    -- a cycle that is exactly profitable passes both filters
    have hknown : knownUnprofitable orderAb orderBc orderCa = false := by
      rw [← Bool.not_eq_true, knownUnprofitable_iff, hexact]
      simp
    rw [hknown]
    refine iff_of_true rfl fun h => ?_
    have hle := decide_eq_true h.unprofitable
    rw [show decide _ = exactlyUnprofitable orderAb orderBc orderCa from rfl, hexact] at hle
    cases hle
  | true =>
    have hle := of_decide_eq_true hexact
    by_cases hfits : requestedProduct orderAb orderBc orderCa ≤ u128Max
    · rw [knownUnprofitable_iff.mpr ⟨hexact, hfits⟩]
      exact iff_of_true rfl fun h => Nat.not_lt.mpr hfits h.overflows
    · have hknown : knownUnprofitable orderAb orderBc orderCa = false := by
        rw [← Bool.not_eq_true, knownUnprofitable_iff]
        exact fun h => hfits h.2
      rw [hknown, Bool.not_true, Bool.false_and, Bool.not_false, Bool.true_and,
        ← Bool.not_eq_true, simulateOrders_surplus_iff hab hbc hca hle]
      refine not_congr ⟨fun h => ⟨Nat.lt_of_not_le hfits, hle, h⟩, fun h => h.spills⟩

/-- **The entry of a triangle is built as with exact products** iff its best orders are not
misjudged. -/
theorem tryBuildEntry_exact_iff {s : Progress} (hb : s.book.InStep ∅) (t : Triangle) :
    (tryBuildEntry s.book t).1.isSome = (tryBuildEntryExact s.book t).1.isSome ↔
      ∀ orderAb orderBc orderCa, (s.book.bestOrder t.a t.b).1 = some orderAb →
        (s.book.bestOrder t.b t.c).1 = some orderBc →
        (s.book.bestOrder t.c t.a).1 = some orderCa →
        ¬ Misjudged s.book.feed orderAb orderBc orderCa := by
  have hbest : ∀ x y, (s.book.bestOrder x y).1 = s.ledger.first (x, y) :=
    fun x y => congrArg Prod.fst (hb.bestOrder x y)
  have hactive : ∀ {p o}, s.ledger.first p = some o → o.isActive = true :=
    fun ho => (hb.sees_first ho).2.2.1
  rw [tryBuildEntry_eq_with, tryBuildEntryExact, tryBuildEntryWith_isSome hb,
    tryBuildEntryWith_isSome hb, hbest, hbest, hbest]
  cases hab : s.ledger.first (t.a, t.b) with
  | none => simp
  | some oAb =>
    cases hbc : s.ledger.first (t.b, t.c) with
    | none => simp
    | some oBc =>
      cases hca : s.ledger.first (t.c, t.a) with
      | none => simp
      | some oCa =>
        have hiff : _ ↔ ¬ Misjudged s.book.feed oAb oBc oCa :=
          buildsFrom_eq_iff (hactive hab) (hactive hbc) (hactive hca)
        simpa using hiff

/-- What passes the checked filter and is not misjudged is profitable. -/
theorem profitable_of_not_misjudged (hnot : ¬ Misjudged feed orderAb orderBc orderCa)
    {sim : CycleSimulation} (hknown : knownUnprofitable orderAb orderBc orderCa = false)
    (hsim : simulateOrders feed orderAb orderBc orderCa = some sim) (hworth : sim.surplusUsd ≠ 0)
    (hab : orderAb.isActive = true) (hbc : orderBc.isActive = true)
    (hca : orderCa.isActive = true) :
    requestedProduct orderAb orderBc orderCa < offeredProduct orderAb orderBc orderCa := by
  have hdecision := (buildsFrom_eq_iff hab hbc hca).mpr hnot
  have hbuilds : buildsFrom knownUnprofitable feed orderAb orderBc orderCa = true := by
    simp [buildsFrom, hknown, hsim, hworth]
  rw [hbuilds] at hdecision
  have hexact : exactlyUnprofitable orderAb orderBc orderCa = false := by
    by_contra htrue
    rw [Bool.not_eq_false] at htrue
    rw [buildsFrom, htrue] at hdecision
    cases hdecision
  exact Nat.lt_of_not_le (of_decide_eq_false hexact)

end Decision

/-! ## Runs -/

/-- No three best orders of the book around a triangle are misjudged. -/
def Judged (b : OrderBook) : Prop :=
  ∀ x y z orderAb orderBc orderCa, (b.bestOrder x y).1 = some orderAb →
    (b.bestOrder y z).1 = some orderBc → (b.bestOrder z x).1 = some orderCa →
    ¬ Misjudged b.feed orderAb orderBc orderCa

/-- The orders an entry names offer more than they request, in product. -/
def Profitable (L : Ledger) (e : CycleEntry) : Prop :=
  ∀ orderAb orderBc orderCa, L.orders.lookup e.orderAb = some orderAb →
    L.orders.lookup e.orderBc = some orderBc → L.orders.lookup e.orderCa = some orderCa →
    requestedProduct orderAb orderBc orderCa < offeredProduct orderAb orderBc orderCa

section Runs
variable {s₀ : Progress} {s : CycleState} {e : CycleEntry}

theorem Profitable.trade {L : Ledger} (h : Profitable L e) (fills : OrderId → Nat)
    (credits : List (TokenId × Nat)) : Profitable (L.trade fills credits) e := by
  intro orderAb orderBc orderCa hab hbc hca
  obtain ⟨oAb, oBc, oCa, hab', hbc', hca', habt, hbct, hcat⟩ := terms_of_trade hab hbc hca
  have hterms := h _ _ _ hab' hbc' hca'
  unfold requestedProduct offeredProduct at hterms ⊢
  rwa [habt, hbct, hcat]

/-- An entry built from a judged book is profitable. -/
theorem profitable_of_entryOf {s : Progress} (hb : s.book.InStep ∅) (hjudged : Judged s.book)
    {t : Triangle} (h : s.ledger.entryOf t = some e) : Profitable s.ledger e := by
  obtain ⟨oAb, oBc, oCa, sim, hoffers, rfl⟩ := Ledger.offers_of_entryOf h
  have hbest : ∀ x y, (s.book.bestOrder x y).1 = s.ledger.first (x, y) :=
    fun x y => congrArg Prod.fst (hb.bestOrder x y)
  have hactive : ∀ {p o}, s.ledger.first p = some o → o.isActive = true :=
    fun ho => (hb.sees_first ho).2.2.1
  have hnot := hjudged t.a t.b t.c oAb oBc oCa ((hbest _ _).trans hoffers.firstAb)
    ((hbest _ _).trans hoffers.firstBc) ((hbest _ _).trans hoffers.firstCa)
  intro orderAb orderBc orderCa hab hbc hca
  obtain rfl := Option.some.inj ((hb.lookup_first hoffers.firstAb).2.symm.trans hab)
  obtain rfl := Option.some.inj ((hb.lookup_first hoffers.firstBc).2.symm.trans hbc)
  obtain rfl := Option.some.inj ((hb.lookup_first hoffers.firstCa).2.symm.trans hca)
  exact profitable_of_not_misjudged hnot hoffers.promising hoffers.simulated hoffers.profitable
    (hactive hoffers.firstAb) (hactive hoffers.firstBc) (hactive hoffers.firstCa)

/-- One round on judged books keeps the heap profitable. -/
theorem processEntry_profitable {affected : List Triangle} (hinv : CycleInv s₀ s)
    (he : e ∈ s.heap) (hfront : Fronts s.book e) (h : ∀ e ∈ s.heap, Profitable s.ledger e)
    (hjudged : Judged (processEntry affected s e).book) :
    ∀ e' ∈ (processEntry affected s e).heap, Profitable (processEntry affected s e).ledger e' := by
  have hl := hinv.legs e he
  have herase : ∀ e' ∈ s.heap.erase e, Profitable s.ledger e' :=
    fun e' he' => h e' (List.mem_of_mem_erase he')
  rcases processEntry_cases hinv.inStep hl affected with
    ⟨-, hround⟩ | ⟨sim, -, -, hround⟩ | ⟨sim, hsimd, -, -, hround⟩
  all_goals
    rw [hround] at hjudged ⊢
    intro e' he'
    rcases List.mem_append.mp he' with hnew | hold
  · rw [Option.mem_toList, tryBuildEntry_eq hinv.inStep] at hnew
    exact profitable_of_entryOf hinv.inStep hjudged hnew
  · exact herase e' hold
  · split at hnew
    · obtain rfl := List.mem_singleton.mp hnew
      exact h e he
    · cases hnew
  · exact herase e' hold
  · have hb' : (executed s.toProgress e hsimd).book.InStep ∅ :=
      hl.afterCycle_inStep hinv.inStep hsimd
    obtain ⟨t, -, hentry⟩ := List.mem_filterMap.mp hnew
    rw [tryBuildEntry_eq hb'] at hentry
    exact profitable_of_entryOf hb' hjudged hentry
  · show Profitable (executed s.toProgress e hsimd).ledger e'
    rw [executed_ledger hinv.inStep hl hfront hsimd]
    exact (herase e' hold).trade _ _

/-- **In a run whose books are all judged, every entry is profitable.** -/
theorem heap_profitable (hb : s₀.book.InStep ∅) {order : Enumeration} (hof : order.Of s₀.book)
    (hjudged : Judged s₀.book)
    (hrun : ReflTransGen (fun s s' =>
        CycleStep (enumerateTriangles order s₀.book).trianglesByPair s s' ∧ Judged s'.book)
      (cycleStart order s₀) s) :
    ∀ e ∈ s.heap, Profitable s.ledger e := by
  induction hrun with
  | refl =>
    intro e he
    have hledger : (cycleStart order s₀).ledger = s₀.ledger := by
      rw [cycleStart, (enumerateTriangles_spec hb order).book]
    rw [hledger]
    exact profitable_of_entryOf hb hjudged
      (((enumerateTriangles_collected hb order).entries e).mp he).2
  | @tail s s' hreach hstep ih =>
    have hreach : CycleReaches s₀ s :=
      ⟨order, hof, ReflTransGen.mono (fun _ _ h => h.1) _ _ hreach⟩
    obtain ⟨hstep, hjudged'⟩ := hstep
    cases hstep with
    | @pop e affected hpop _ _ =>
      exact processEntry_profitable (cycleInv_of_reaches hb hreach) hpop.1
        (hreach.fronts hb e hpop.1) ih hjudged'

end Runs

/-- **When the overflow fallback changes no decision.**  On any three active orders and any feed,
and on the best orders of any triangle of a book, the checked filter decides as the exact one
does iff the orders are not misjudged; and in every run of the phase on books without misjudged
orders, what is on the heap, and so what is executed, offers more than it requests. -/
theorem overflow_fallback_exact_iff {s₀ : Progress} (hb : s₀.book.Reachable) :
    (∀ (feed : PriceFeed) (orderAb orderBc orderCa : Order), orderAb.isActive = true →
      orderBc.isActive = true → orderCa.isActive = true →
      (buildsFrom knownUnprofitable feed orderAb orderBc orderCa =
          buildsFrom exactlyUnprofitable feed orderAb orderBc orderCa ↔
        ¬ Misjudged feed orderAb orderBc orderCa)) ∧
    (∀ t : Triangle,
      ((tryBuildEntry s₀.book t).1.isSome = (tryBuildEntryExact s₀.book t).1.isSome ↔
        ∀ orderAb orderBc orderCa, (s₀.book.bestOrder t.a t.b).1 = some orderAb →
          (s₀.book.bestOrder t.b t.c).1 = some orderBc →
          (s₀.book.bestOrder t.c t.a).1 = some orderCa →
          ¬ Misjudged s₀.book.feed orderAb orderBc orderCa)) ∧
    ∀ (order : Enumeration) (s : CycleState), order.Of s₀.book → Judged s₀.book →
      ReflTransGen (fun s s' =>
          CycleStep (enumerateTriangles order s₀.book).trianglesByPair s s' ∧ Judged s'.book)
        (cycleStart order s₀) s →
      ∀ e, (e ∈ s.heap ∨ ∃ sim, Executes s e sim) → ∀ orderAb orderBc orderCa,
        s.book.orders.lookup e.orderAb = some orderAb →
        s.book.orders.lookup e.orderBc = some orderBc →
        s.book.orders.lookup e.orderCa = some orderCa →
        requestedProduct orderAb orderBc orderCa < offeredProduct orderAb orderBc orderCa := by
  have hstep := hb.inv.inStep
  refine ⟨fun feed orderAb orderBc orderCa hab hbc hca => buildsFrom_eq_iff hab hbc hca,
    tryBuildEntry_exact_iff hstep, ?_⟩
  intro order s hof hjudged hrun e he orderAb orderBc orderCa
  have hmem : e ∈ s.heap := by
    rcases he with he | ⟨sim, hexec⟩
    · exact he
    · exact hexec.poppable.1
  exact heap_profitable hstep hof hjudged hrun e hmem orderAb orderBc orderCa

/-! ### Two products that overflow

In `wideBook` every order offers `2^63` for `2^62`: both products overflow, and the loop is
profitable.  In `spillBook` order 1 offers `2^63` of token 1 for `2^61` of token 2, order 2 offers
`2^50` of token 2 for `2^63` of token 3, and order 3 exchanges `2^62` of tokens 3 and 1.  Order 1
releases twice what order 3 can take, and the loop does not close. -/

/-- `2^63` of token `x` for `2^62` of token `y`. -/
def wideTerms (x y : TokenId) : OrderTerms := swapTerms x y (2 ^ 63) (2 ^ 62)

def wideBook : OrderBook := triangleBook (wideTerms 1 2) (wideTerms 2 3) (wideTerms 3 1)

/-- The requested product overflows, and the orders are judged as by exact products. -/
theorem wideBook_exact : ∃ orderAb orderBc orderCa,
    (wideBook.bestOrder 1 2).1 = some orderAb ∧ (wideBook.bestOrder 2 3).1 = some orderBc ∧
    (wideBook.bestOrder 3 1).1 = some orderCa ∧
    u128Max < requestedProduct orderAb orderBc orderCa ∧
    (tryBuildEntry wideBook ⟨1, 2, 3⟩).1.isSome =
      (tryBuildEntryExact wideBook ⟨1, 2, 3⟩).1.isSome := by
  have hb : (runStart wideBook).book.Reachable := triangleBook_reachable _ _ _
  obtain ⟨-, hdecides, -⟩ := overflow_fallback_exact_iff hb
  have hab : (wideBook.bestOrder 1 2).1 = some (Order.fresh 1 (wideTerms 1 2)) := by decide +kernel
  have hbc : (wideBook.bestOrder 2 3).1 = some (Order.fresh 2 (wideTerms 2 3)) := by decide +kernel
  have hca : (wideBook.bestOrder 3 1).1 = some (Order.fresh 3 (wideTerms 3 1)) := by decide +kernel
  refine ⟨_, _, _, hab, hbc, hca, by decide, (hdecides ⟨1, 2, 3⟩).mpr ?_⟩
  intro orderAb orderBc orderCa hab' hbc' hca' hmis
  obtain rfl := Option.some.inj (hab.symm.trans hab')
  obtain rfl := Option.some.inj (hbc.symm.trans hbc')
  obtain rfl := Option.some.inj (hca.symm.trans hca')
  exact absurd hmis.unprofitable (by decide)

def spillBook : OrderBook :=
  triangleBook (swapTerms 1 2 (2 ^ 63) (2 ^ 61)) (swapTerms 2 3 (2 ^ 50) (2 ^ 63))
    (swapTerms 3 1 (2 ^ 62) (2 ^ 62))

def spillState : CycleState := cycleStart triangleEnumeration (runStart spillBook)

def spillEntry : CycleEntry := ⟨⟨1, 2, 3⟩, 1, 2, 3, 2 ^ 62⟩

def spillSimulation : CycleSimulation := ⟨⟨2 ^ 62, 2 ^ 61, 2 ^ 62, 2 ^ 62, 0, 0⟩, 2 ^ 62⟩

theorem spill_executes : Executes spillState spillEntry spillSimulation where
  poppable := by
    have hheap : spillState.heap = [spillEntry] := by decide +kernel
    rw [Poppable, hheap]
    simp
  simulated := by decide +kernel
  current := rfl

/-- **An unprofitable cycle is put on the heap and executed**: the orders offer `2^175` in
product and request `2^186`, which overflows; with exact products no entry is built. -/
theorem unprofitable_cycle_executed : spillBook.Reachable ∧ MatchablePairs spillBook [] ∧
    (tryBuildEntry spillBook ⟨1, 2, 3⟩).1 = some spillEntry ∧
    (tryBuildEntryExact spillBook ⟨1, 2, 3⟩).1 = none ∧
    CycleReaches (runDirectMatching [] (runStart spillBook)) spillState ∧
    Executes spillState spillEntry spillSimulation ∧
    ∃ orderAb orderBc orderCa, spillState.book.orders.lookup spillEntry.orderAb = some orderAb ∧
      spillState.book.orders.lookup spillEntry.orderBc = some orderBc ∧
      spillState.book.orders.lookup spillEntry.orderCa = some orderCa ∧
      offeredProduct orderAb orderBc orderCa = 2 ^ 175 ∧
      requestedProduct orderAb orderBc orderCa = 2 ^ 186 := by
  refine ⟨triangleBook_reachable _ _ _, ⟨by decide, by decide⟩, by decide +kernel,
    by decide +kernel, ⟨triangleEnumeration, ⟨by decide, by decide, by decide⟩, .refl⟩,
    spill_executes,
    Order.fresh 1 (swapTerms 1 2 (2 ^ 63) (2 ^ 61)),
    Order.fresh 2 (swapTerms 2 3 (2 ^ 50) (2 ^ 63)),
    Order.fresh 3 (swapTerms 3 1 (2 ^ 62) (2 ^ 62)),
    by decide +kernel, by decide +kernel, by decide +kernel, by decide, by decide⟩

end PswapSolver
