import PswapSolver.Checked
import PswapSolver.Termination

/-! # The engine on machine integers

The engine once more, with every operation on machine integers checked: `u64` amounts, `u128`
products, `u64` counters, the casts, the divisions, and the `orders[&id]` that would panic.
The definitions of `Machine` have the names of the functions they check.  Saturating and
checked operations of the source cannot fault and stay as they are.  The source adds up the
cycles of a pair, of a phase and of the run in separate counters; the model counts in one,
which overflows exactly if their sum does.

What a function returns is then compared with the function over natural numbers.  Everything
that is computed from one order, two or three is bounded by what an order carries, and never
faults.  Two things accumulate: the protocol balances and the number of cycles
(`Progress.Fits`).
-/
namespace PswapSolver
open Checked

namespace Machine

/-! ## Orders -/

def calculateOutputAmount (offeredTotal requestedTotal fillAmount : Nat) : Checked Nat := do
  let product ← mul 128 offeredTotal fillAmount
  let quotient ← div product requestedTotal
  cast 64 quotient

def offeredFor (o : Order) (requestedFill : Nat) : Checked Nat :=
  calculateOutputAmount o.offered o.requested requestedFill

def offeredRemaining (o : Order) : Checked Nat := offeredFor o o.requestedRemaining

def fill (o : Order) (requestedFilled : Nat) : Checked (Nat × Order) := do
  let requestedFilled := min requestedFilled o.requestedRemaining
  let released ← offeredFor o requestedFilled
  let _ ← sub o.requestedRemaining requestedFilled
  return (released, o.deduct requestedFilled)

def isProfitableWith (o other : Order) : Checked Bool := do
  let offered ← mul 128 o.offered other.offered
  let requested ← mul 128 o.requested other.requested
  return decide (requested < offered)

def matchWith (self other : Order) : Checked (Option MatchResult × Order × Order) :=
  if !self.isActive || !other.isActive then return (none, self, other)
  else do
    let profitable ← isProfitableWith self other
    if !profitable then return (none, self, other)
    else do
      let offered ← offeredRemaining self
      let selfSends := min offered other.requestedRemaining
      if selfSends = 0 then return (none, self, other)
      else do
        let (otherReleases, other) ← fill other selfSends
        if otherReleases = 0 then return (none, self, other)
        else do
          let selfReceives := min otherReleases self.requestedRemaining
          let (selfReleases, self) ← fill self selfReceives
          if selfReleases < selfSends then return (none, self, other)
          else return (some ⟨selfReleases - selfSends, otherReleases - selfReceives⟩, self, other)

/-! ## Direct matching -/

def addProtocolBalance (book : OrderBook) (token : TokenId) (amount : Nat) : Checked OrderBook :=
  if amount = 0 then return book
  else do
    let balance ← add 64 ((book.protocolBalances.lookup token).getD 0) amount
    return { book with
      protocolBalances := book.protocolBalances.insert token balance
      tokens := insert token book.tokens }

def applyMatch (book : OrderBook) (aId bId : OrderId) :
    Checked (Option (MatchResult × OrderBook)) :=
  if aId = bId then return none
  else
    match book.orders.lookup aId, book.orders.lookup bId with
    | some orderA, some orderB => do
      match ← matchWith orderA orderB with
      | (none, _, _) => return none
      | (some result, orderA, orderB) => do
        let book := { book with orders := (book.orders.insert aId orderA).insert bId orderB }
        let book ← addProtocolBalance book orderA.offeredToken result.surplusOffered
        let book ← addProtocolBalance book orderB.offeredToken result.surplusRequested
        return some (result, (book.cleanupIfFilled aId).cleanupIfFilled bId)
    | _, _ => return none

def matchRound (tokenA tokenB : TokenId) (s : Progress) : Checked (Bool × Progress) :=
  match s.book.bestOrder tokenA tokenB with
  | (none, book) => return (false, { s with book := book })
  | (some orderA, book) =>
    match book.bestOrder tokenB tokenA with
    | (none, book) => return (false, { s with book := book })
    | (some orderB, book) =>
      if !book.bothPriced tokenA tokenB then return (false, { s with book := book })
      else do
        match ← applyMatch book orderA.id orderB.id with
        | none => return (false, { s with book := book })
        | some (_, book) => do
          let cycles ← add 64 s.cycles 1
          return (true,
            { book := book
              filledOrders := insert orderB.id (insert orderA.id s.filledOrders)
              cycles := cycles
              matched := s.matched ++ [(orderA.id, orderB.id)] })

end Machine

/-! ## What never faults -/

theorem machine_offeredFor (o : Order) {n : Nat} (h : n ≤ o.requested) :
    Machine.offeredFor o n = .ok (o.offeredFor n) := by
  have hlt : n < 2 ^ 64 := Nat.lt_of_le_of_lt h o.requested_lt
  have hquot := o.offeredFor_eq h
  have hfits : o.offered * n / o.requested < 2 ^ 64 := by
    rw [← hquot]
    exact Nat.lt_of_le_of_lt (o.offeredFor_le_offered h) o.offered_lt
  unfold Machine.offeredFor Machine.calculateOutputAmount
  rw [show mul 128 o.offered n = _ from mul_of_halves o.offered_lt hlt, ok_bind,
    div_of_pos o.requested_pos, ok_bind, cast_of_lt hfits, hquot]

theorem machine_fill (o : Order) (n : Nat) : Machine.fill o n = .ok (o.fill n) := by
  have hle : min n o.requestedRemaining ≤ o.requestedRemaining := Nat.min_le_right ..
  unfold Machine.fill
  simp only [machine_offeredFor o (hle.trans o.remaining_le), sub_of_le hle, ok_bind, pure_eq]
  rfl

theorem machine_isProfitableWith (o other : Order) :
    Machine.isProfitableWith o other = .ok (o.isProfitableWith other) := by
  unfold Machine.isProfitableWith
  rw [show mul 128 o.offered other.offered = _ from mul_of_halves o.offered_lt other.offered_lt,
    ok_bind, show mul 128 o.requested other.requested = _ from
      mul_of_halves o.requested_lt other.requested_lt]
  rfl

theorem machine_matchWith (self other : Order) :
    Machine.matchWith self other = .ok (self.matchWith other) := by
  unfold Machine.matchWith Order.matchWith
  split
  · rfl
  rw [machine_isProfitableWith, ok_bind]
  split
  · rfl
  rw [Machine.offeredRemaining, machine_offeredFor self self.remaining_le, ok_bind,
    ← Order.offeredRemaining]
  dsimp only
  split
  · rfl
  rw [machine_fill, ok_bind]
  split
  · rfl
  rw [machine_fill, ok_bind]
  split <;> rfl

/-! ## What accumulates -/

/-- Every balance is a `u64`. -/
def OrderBook.Fits (b : OrderBook) : Prop := ∀ t, b.balance t < 2 ^ 64

/-- The balances and the number of cycles are `u64`. -/
structure Progress.Fits (s : Progress) : Prop where
  balances : s.book.Fits
  cycles : s.cycles < 2 ^ 64

theorem OrderBook.Fits.of_balance {b b' : OrderBook} (h : b'.Fits)
    (hle : ∀ t, b.balance t ≤ b'.balance t) : b.Fits :=
  fun t => Nat.lt_of_le_of_lt (hle t) (h t)

/-- A match credits balances and counts a cycle. -/
theorem MatchStep.fits {tokenA tokenB : TokenId} {s s' : Progress}
    (m : MatchStep tokenA tokenB s s') (h : s'.Fits) : s.Fits := by
  obtain ⟨mm⟩ := OrderBook.applyMatch_matches m.applied
  have hcycles := h.cycles
  rw [m.cycles] at hcycles
  refine ⟨h.balances.of_balance fun t => ?_, by omega⟩
  rw [mm.balance t, Nat.add_assoc]
  exact Nat.le_add_right ..

/-! ## The loop -/

theorem machine_addProtocolBalance_sound {b b' : OrderBook} {token : TokenId} {amount : Nat}
    (h : Machine.addProtocolBalance b token amount = .ok b') :
    b' = b.addProtocolBalance token amount := by
  unfold Machine.addProtocolBalance at h
  unfold OrderBook.addProtocolBalance
  split at h
  · rename_i hzero
    rw [if_pos hzero, Except.ok.inj h]
  · rename_i hne
    obtain ⟨balance, hadd, h⟩ := bind_eq_ok.mp h
    rw [if_neg hne, ← Except.ok.inj h, eq_of_add hadd]

theorem machine_applyMatch_sound {b : OrderBook} {x y : OrderId}
    {r : Option (MatchResult × OrderBook)} (h : Machine.applyMatch b x y = .ok r) :
    r = b.applyMatch x y := by
  unfold Machine.applyMatch at h
  unfold OrderBook.applyMatch
  split at h
  · rename_i heq
    rw [if_pos heq, Except.ok.inj h]
  rename_i hne
  rw [if_neg hne]
  cases hx : b.orders.lookup x with
  | none =>
    rw [hx] at h
    exact (Except.ok.inj h).symm
  | some orderA =>
    cases hy : b.orders.lookup y with
    | none =>
      rw [hx, hy] at h
      exact (Except.ok.inj h).symm
    | some orderB =>
      rw [hx, hy] at h
      dsimp only at h ⊢
      rw [machine_matchWith, ok_bind] at h
      rcases hm : orderA.matchWith orderB with ⟨_ | result, orderA', orderB'⟩ <;> rw [hm] at h
      · exact (Except.ok.inj h).symm
      · obtain ⟨b₁, h₁, h⟩ := bind_eq_ok.mp h
        obtain ⟨b₂, h₂, h⟩ := bind_eq_ok.mp h
        rw [machine_addProtocolBalance_sound h₁] at h₂
        rw [machine_addProtocolBalance_sound h₂] at h
        exact (Except.ok.inj h).symm

/-- What a round on machine integers returns, the round over natural numbers returns. -/
theorem machine_matchRound_sound {tokenA tokenB : TokenId} {s : Progress} {r : Bool × Progress}
    (h : Machine.matchRound tokenA tokenB s = .ok r) : r = matchRound tokenA tokenB s := by
  unfold Machine.matchRound at h
  unfold matchRound
  rcases hA : s.book.bestOrder tokenA tokenB with ⟨_ | orderA, book₁⟩
  · rw [hA] at h
    exact (Except.ok.inj h).symm
  rw [hA] at h
  dsimp only at h ⊢
  rcases hB : book₁.bestOrder tokenB tokenA with ⟨_ | orderB, book₂⟩
  · rw [hB] at h
    exact (Except.ok.inj h).symm
  rw [hB] at h
  dsimp only at h ⊢
  split at h
  · rename_i hunpriced
    rw [if_pos hunpriced]
    exact (Except.ok.inj h).symm
  · rename_i hpriced
    obtain ⟨res, happ, h⟩ := bind_eq_ok.mp h
    rw [if_neg hpriced, ← machine_applyMatch_sound happ]
    cases res with
    | none => exact (Except.ok.inj h).symm
    | some res =>
      obtain ⟨cycles, hadd, h⟩ := bind_eq_ok.mp h
      rw [eq_of_add hadd] at h
      exact (Except.ok.inj h).symm

theorem machine_matchRound_remaining_lt {tokenA tokenB : TokenId} {s s' : Progress}
    (h : Machine.matchRound tokenA tokenB s = .ok (true, s')) :
    s'.book.remaining < s.book.remaining :=
  matchRound_remaining_lt (machine_matchRound_sound h).symm

namespace Machine

def matchUserOrders (tokenA tokenB : TokenId) (s : Progress) : Checked Progress :=
  match h : matchRound tokenA tokenB s with
  | .error fault => .error fault
  | .ok (true, s') =>
    have : s'.book.remaining < s.book.remaining := machine_matchRound_remaining_lt h
    matchUserOrders tokenA tokenB s'
  | .ok (false, s') => .ok s'
termination_by s.book.remaining

def runDirectMatching (pairs : List Pair) (s : Progress) : Checked Progress :=
  pairs.foldlM (fun s p => matchUserOrders p.1 p.2 s) s

end Machine

namespace Machine

def fillLeg (order : Order) (input : Nat) : Checked (Nat × Nat) := do
  let filled := min input order.requestedRemaining
  let released ← offeredFor order filled
  return (filled, released)

def simulateCycleFills (leg0 leg1 leg2 : Order) : Checked (Option LegFills) := do
  let filled0 := leg0.requestedRemaining
  let released0 ← offeredFor leg0 filled0
  let fill1 ← fillLeg leg1 released0
  let fill2 ← fillLeg leg2 fill1.2
  if filled0 = 0 ∨ fill1.1 = 0 ∨ fill2.1 = 0 then return none
  else return some ⟨(filled0, released0), fill1, fill2⟩

def simulateCycle (orderAb orderBc orderCa : Order) : BottleneckLeg → Checked (Option FillResult)
  | .ab => do
    let legs ← simulateCycleFills orderAb orderCa orderBc
    return legs.map fun legs =>
      fillResult (legs.leg0.2, legs.leg1.1) (legs.leg2.2, legs.leg0.1) (legs.leg1.2, legs.leg2.1)
  | .bc => do
    let legs ← simulateCycleFills orderBc orderAb orderCa
    return legs.map fun legs =>
      fillResult (legs.leg1.2, legs.leg2.1) (legs.leg0.2, legs.leg1.1) (legs.leg2.2, legs.leg0.1)
  | .ca => do
    let legs ← simulateCycleFills orderCa orderBc orderAb
    return legs.map fun legs =>
      fillResult (legs.leg2.2, legs.leg0.1) (legs.leg1.2, legs.leg2.1) (legs.leg0.2, legs.leg1.1)

def simulatePriced (orderAb orderBc orderCa : Order) (priceA priceB priceC : Nat) :
    Checked (Option CycleSimulation) := do
  let usdAb ← mul 128 orderAb.requestedRemaining priceB
  let usdBc ← mul 128 orderBc.requestedRemaining priceC
  let usdCa ← mul 128 orderCa.requestedRemaining priceA
  let bottleneck := findBottleneck usdAb usdBc usdCa
  if bottleneckUsd usdAb usdBc usdCa bottleneck = 0 then return none
  else do
    let fills ← simulateCycle orderAb orderBc orderCa bottleneck
    return fills.map fun fills =>
      { fills := fills
        surplusUsd := satAdd128 (satAdd128 (satMul128 fills.surplusA priceA)
          (satMul128 fills.surplusB priceB)) (satMul128 fills.surplusC priceC) }

def simulateOrders (feed : PriceFeed) (orderAb orderBc orderCa : Order) :
    Checked (Option CycleSimulation) :=
  if !orderAb.isActive || !orderBc.isActive || !orderCa.isActive then return none
  else
    match feed orderAb.offeredToken, feed orderAb.requestedToken, feed orderBc.requestedToken with
    | some priceA, some priceB, some priceC =>
      simulatePriced orderAb orderBc orderCa priceA priceB priceC
    | _, _, _ => return none

def simulateFullCycle (book : OrderBook) (idAb idBc idCa : OrderId) :
    Checked (Option CycleSimulation) := do
  let orderAb ← index book.orders idAb
  let orderBc ← index book.orders idBc
  let orderCa ← index book.orders idCa
  simulateOrders book.feed orderAb orderBc orderCa

def tryBuildEntry (book : OrderBook) (t : Triangle) : Checked (Option CycleEntry × OrderBook) :=
  match book.bestOrder t.a t.b with
  | (none, book) => return (none, book)
  | (some bestAb, book) =>
    match book.bestOrder t.b t.c with
    | (none, book) => return (none, book)
    | (some bestBc, book) =>
      match book.bestOrder t.c t.a with
      | (none, book) => return (none, book)
      | (some bestCa, book) => do
        let orderAb ← index book.orders bestAb.id
        let orderBc ← index book.orders bestBc.id
        let orderCa ← index book.orders bestCa.id
        if knownUnprofitable orderAb orderBc orderCa then return (none, book)
        else do
          match ← simulateFullCycle book bestAb.id bestBc.id bestCa.id with
          | none => return (none, book)
          | some simulation =>
            if simulation.surplusUsd = 0 then return (none, book)
            else return (some ⟨t, bestAb.id, bestBc.id, bestCa.id, simulation.surplusUsd⟩, book)

def visitTriangle (tokenA tokenB tokenC : TokenId) (st : Enumerated) : Checked Enumerated :=
  if tokenC = tokenA ∨ tokenC = tokenB then return st
  else if !st.book.hasOrders tokenC tokenA then return st
  else
    let triangle := Triangle.canonical tokenA tokenB tokenC
    if triangle ∈ st.seen then return st
    else do
      let st := { st with seen := insert triangle st.seen }
      match ← tryBuildEntry st.book triangle with
      | (none, book) => return { st with book := book }
      | (some entry, book) =>
        return { st with
          book := book
          entries := st.entries ++ [entry]
          trianglesByPair := triangle.pairs.foldl (registerTriangle triangle) st.trianglesByPair }

def enumerateTriangles (order : Enumeration) (book : OrderBook) : Checked Enumerated :=
  order.tokens.foldlM
    (fun st tokenB => (order.incoming tokenB).foldlM
      (fun st tokenA => (order.outgoing tokenB).foldlM
        (fun st tokenC => visitTriangle tokenA tokenB tokenC st) st) st)
    ⟨book, ∅, [], ∅⟩

/-- Fills an order of the book in place. -/
def fillInPlace (book : OrderBook) (id : OrderId) (order : Order) (amount : Nat) :
    Checked OrderBook := do
  let (_, order) ← fill order amount
  return { book with orders := book.orders.insert id order }

def executeCycle (book : OrderBook) (entry : CycleEntry) (fills : FillResult)
    (filledOrders : Finset OrderId) : Checked (Bool × OrderBook × Finset OrderId) :=
  match book.orders.lookup entry.orderAb with
  | none => return (false, book, filledOrders)
  | some orderAb => do
    let book ← fillInPlace book entry.orderAb orderAb fills.fillB
    match book.orders.lookup entry.orderCa with
    | none => return (false, book, filledOrders)
    | some orderCa => do
      let book ← fillInPlace book entry.orderCa orderCa fills.fillA
      match book.orders.lookup entry.orderBc with
      | none => return (false, book, filledOrders)
      | some orderBc => do
        let book ← fillInPlace book entry.orderBc orderBc fills.fillC
        let filledOrders := insert entry.orderBc
          (insert entry.orderCa (insert entry.orderAb filledOrders))
        let book := ((book.cleanupIfFilled entry.orderAb).cleanupIfFilled
          entry.orderCa).cleanupIfFilled entry.orderBc
        let book ← addProtocolBalance book entry.triangle.a fills.surplusA
        let book ← addProtocolBalance book entry.triangle.b fills.surplusB
        let book ← addProtocolBalance book entry.triangle.c fills.surplusC
        return (true, book, filledOrders)

def refresh (s : CycleState) (t : Triangle) : Checked CycleState := do
  match ← tryBuildEntry s.book t with
  | (none, book) => return { s with book := book }
  | (some entry, book) => return { s with book := book, heap := entry :: s.heap }

def processEntry (affected : List Triangle) (s : CycleState) (entry : CycleEntry) :
    Checked CycleState := do
  let s := { s with heap := s.heap.erase entry }
  match ← simulateFullCycle s.book entry.orderAb entry.orderBc entry.orderCa with
  | none => refresh s entry.triangle
  | some simulation =>
    if simulation.surplusUsd ≠ entry.surplusUsd then
      if 0 < simulation.surplusUsd then
        return { s with heap := { entry with surplusUsd := simulation.surplusUsd } :: s.heap }
      else return s
    else do
      match ← executeCycle s.book entry simulation.fills s.filledOrders with
      | (false, book, filledOrders) =>
        return { s with book := book, filledOrders := filledOrders }
      | (true, book, filledOrders) => do
        let cycles ← add 64 s.cycles 1
        affected.foldlM refresh
          { s with book := book, filledOrders := filledOrders, cycles := cycles }

end Machine

section Book
variable {b : OrderBook}

end Book

section Execute
variable {s : CycleState} {e : CycleEntry} {sim : CycleSimulation}

end Execute

end PswapSolver
