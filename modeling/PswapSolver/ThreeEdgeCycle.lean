import PswapSolver.DirectMatching
import Mathlib.Logic.Relation

/-! # Triangular matching

The model of `matching/three_edge_cycle.rs`: three orders `A→B`, `B→C`, `C→A` are
filled together.  All triangles are enumerated once and put on a heap by the value
of their surplus; the loop pops the most valuable entry, recomputes it, executes it
if it is still up to date, and re-evaluates the triangles that share a pair with it.

Three things are not fixed by the source and are therefore choices here: the
iteration orders of the token set and of the adjacency sets (`Enumeration`), which
of several entries of equal surplus the heap pops, and the order in which the
affected triangles are revisited (`CycleStep`).
-/
namespace PswapSolver

/-- Canonical triangle: rotated so that `a` is the minimum token.  The cycle goes
`a → b → c → a`. -/
structure Triangle where
  a : TokenId
  b : TokenId
  c : TokenId
deriving DecidableEq

namespace Triangle

def canonical (a b c : TokenId) : Triangle :=
  if a ≤ b ∧ a ≤ c then ⟨a, b, c⟩
  else if b ≤ a ∧ b ≤ c then ⟨b, c, a⟩
  else ⟨c, a, b⟩

def pairs (t : Triangle) : List Pair := [(t.a, t.b), (t.b, t.c), (t.c, t.a)]

end Triangle

/-- Heap entry: a triangle with its best orders and absolute surplus. -/
structure CycleEntry where
  triangle : Triangle
  orderAb : OrderId
  orderBc : OrderId
  orderCa : OrderId
  surplusUsd : Nat
deriving DecidableEq

inductive BottleneckLeg where
  | ab
  | bc
  | ca
deriving DecidableEq

structure FillResult where
  fillA : Nat
  fillB : Nat
  fillC : Nat
  surplusA : Nat
  surplusB : Nat
  surplusC : Nat
deriving DecidableEq

/-- Combined simulation result: fill amounts, surplus per token, and total surplus
in cents. -/
structure CycleSimulation where
  fills : FillResult
  surplusUsd : Nat
deriving DecidableEq

/-- `a.saturating_mul(b)` on `u128`. -/
def satMul128 (a b : Nat) : Nat := min (a * b) u128Max

/-- `a.saturating_add(b)` on `u128`. -/
def satAdd128 (a b : Nat) : Nat := min (a + b) u128Max

/-- `a.checked_mul(b)` on `u128`. -/
def checkedMul128 (a b : Nat) : Option Nat := if a * b ≤ u128Max then some (a * b) else none

theorem checkedMul128_eq_some {a b n : Nat} :
    checkedMul128 a b = some n ↔ a * b ≤ u128Max ∧ n = a * b := by
  unfold checkedMul128
  by_cases h : a * b ≤ u128Max
  · simp [h, eq_comm]
  · simp [h]

/-! ## Simulation -/

/-- Fills a single leg: consumes `input`, capped by what remains of the order.
Returns the filled and the released amount. -/
def fillLeg (order : Order) (input : Nat) : Nat × Nat :=
  let filled := min input order.requestedRemaining
  (filled, order.offeredFor filled)

/-- Fills of the three legs in cycle order, each `(filled, released)`.  The first leg
is the bottleneck and is always filled completely. -/
structure LegFills where
  leg0 : Nat × Nat
  leg1 : Nat × Nat
  leg2 : Nat × Nat

/-- Propagates fills through three legs, starting from the bottleneck; nothing if
some leg fills zero. -/
def simulateCycleFills (leg0 leg1 leg2 : Order) : Option LegFills :=
  let filled0 := leg0.requestedRemaining
  let released0 := leg0.offeredFor filled0
  let fill1 := fillLeg leg1 released0
  let fill2 := fillLeg leg2 fill1.2
  if filled0 = 0 ∨ fill1.1 = 0 ∨ fill2.1 = 0 then none
  else some ⟨(filled0, released0), fill1, fill2⟩

/-- The result from `(released, filled)` per token.  Token A is released by order AB
and consumed by order CA, token B by BC and AB, token C by CA and BC. -/
def fillResult (a b c : Nat × Nat) : FillResult where
  fillA := a.2
  fillB := b.2
  fillC := c.2
  surplusA := a.1 - a.2
  surplusB := b.1 - b.2
  surplusC := c.1 - c.2

/-- Rotates the legs so that the bottleneck is first, propagates the fills, and maps
them back to tokens. -/
def simulateCycle (orderAb orderBc orderCa : Order) : BottleneckLeg → Option FillResult
  | .ab =>
    (simulateCycleFills orderAb orderCa orderBc).map fun legs =>
      fillResult (legs.leg0.2, legs.leg1.1) (legs.leg2.2, legs.leg0.1) (legs.leg1.2, legs.leg2.1)
  | .bc =>
    (simulateCycleFills orderBc orderAb orderCa).map fun legs =>
      fillResult (legs.leg1.2, legs.leg2.1) (legs.leg0.2, legs.leg1.1) (legs.leg2.2, legs.leg0.1)
  | .ca =>
    (simulateCycleFills orderCa orderBc orderAb).map fun legs =>
      fillResult (legs.leg2.2, legs.leg0.1) (legs.leg1.2, legs.leg2.1) (legs.leg0.2, legs.leg1.1)

/-- The leg with the smallest capacity in cents. -/
def findBottleneck (usdAb usdBc usdCa : Nat) : BottleneckLeg :=
  if usdAb ≤ usdBc ∧ usdAb ≤ usdCa then .ab
  else if usdBc ≤ usdCa then .bc
  else .ca

/-- The capacity of the chosen leg. -/
def bottleneckUsd (usdAb usdBc usdCa : Nat) : BottleneckLeg → Nat
  | .ab => usdAb
  | .bc => usdBc
  | .ca => usdCa

/-- The bottleneck of three orders at given prices. -/
def bottleneckOf (orderAb orderBc orderCa : Order) (priceA priceB priceC : Nat) : BottleneckLeg :=
  findBottleneck (orderAb.requestedRemaining * priceB) (orderBc.requestedRemaining * priceC)
    (orderCa.requestedRemaining * priceA)

/-- The simulation of three orders whose tokens are priced. -/
def simulatePriced (orderAb orderBc orderCa : Order) (priceA priceB priceC : Nat) :
    Option CycleSimulation :=
  let bottleneck := bottleneckOf orderAb orderBc orderCa priceA priceB priceC
  if bottleneckUsd (orderAb.requestedRemaining * priceB) (orderBc.requestedRemaining * priceC)
      (orderCa.requestedRemaining * priceA) bottleneck = 0 then none
  else
    (simulateCycle orderAb orderBc orderCa bottleneck).map fun fills =>
      { fills := fills
        surplusUsd := satAdd128 (satAdd128 (satMul128 fills.surplusA priceA)
          (satMul128 fills.surplusB priceB)) (satMul128 fills.surplusC priceC) }

/-- Full cycle simulation on three orders: nothing when one is inactive or a token is
unpriced. -/
def simulateOrders (feed : PriceFeed) (orderAb orderBc orderCa : Order) :
    Option CycleSimulation :=
  if !orderAb.isActive || !orderBc.isActive || !orderCa.isActive then none
  else
    match feed orderAb.offeredToken, feed orderAb.requestedToken, feed orderBc.requestedToken with
    | some priceA, some priceB, some priceC =>
      simulatePriced orderAb orderBc orderCa priceA priceB priceC
    | _, _, _ => none

/-- Full cycle simulation on three ids.  Indexing a missing id would panic; the ids
an entry holds are always present. -/
def simulateFullCycle (book : OrderBook) (idAb idBc idCa : OrderId) : Option CycleSimulation :=
  match book.orders.lookup idAb, book.orders.lookup idBc, book.orders.lookup idCa with
  | some orderAb, some orderBc, some orderCa => simulateOrders book.feed orderAb orderBc orderCa
  | _, _, _ => none

/-! ## Building an entry -/

/-- Are both triple products computable in `u128` and the offered one not larger? -/
def knownUnprofitable (orderAb orderBc orderCa : Order) : Bool :=
  match (checkedMul128 orderAb.offered orderBc.offered).bind (checkedMul128 · orderCa.offered),
    (checkedMul128 orderAb.requested orderBc.requested).bind
      (checkedMul128 · orderCa.requested) with
  | some lhs, some rhs => decide (lhs ≤ rhs)
  | _, _ => false

/-- Builds the entry of a triangle from its current best orders. -/
def tryBuildEntry (book : OrderBook) (t : Triangle) : Option CycleEntry × OrderBook :=
  match book.bestOrder t.a t.b with
  | (none, book) => (none, book)
  | (some orderAb, book) =>
    match book.bestOrder t.b t.c with
    | (none, book) => (none, book)
    | (some orderBc, book) =>
      match book.bestOrder t.c t.a with
      | (none, book) => (none, book)
      | (some orderCa, book) =>
        if knownUnprofitable orderAb orderBc orderCa then (none, book)
        else
          match simulateFullCycle book orderAb.id orderBc.id orderCa.id with
          | none => (none, book)
          | some simulation =>
            if simulation.surplusUsd = 0 then (none, book)
            else (some ⟨t, orderAb.id, orderBc.id, orderCa.id, simulation.surplusUsd⟩, book)

/-! ## Enumeration -/

/-- The iteration orders of the hash sets met while triangles are enumerated. -/
structure Enumeration where
  tokens : List TokenId
  incoming : TokenId → List TokenId
  outgoing : TokenId → List TokenId

/-- Every set is visited completely and without repetition. -/
structure Enumeration.Of (order : Enumeration) (book : OrderBook) : Prop where
  tokens : order.tokens.Nodup ∧ order.tokens.toFinset = book.tokens
  incoming : ∀ t ∈ book.tokens, (order.incoming t).Nodup ∧
    (order.incoming t).toFinset = book.incomingNeighbors t
  outgoing : ∀ t ∈ book.tokens, (order.outgoing t).Nodup ∧
    (order.outgoing t).toFinset = book.neighbors t

/-- What the enumeration has collected. -/
structure Enumerated where
  book : OrderBook
  seen : Finset Triangle
  entries : List CycleEntry
  trianglesByPair : FiniteMap Pair (List Triangle)

/-- Registers a triangle under one of its pairs. -/
def registerTriangle (t : Triangle) (byPair : FiniteMap Pair (List Triangle)) (p : Pair) :
    FiniteMap Pair (List Triangle) :=
  byPair.insert p ((byPair.lookup p).getD [] ++ [t])

/-- The body of the triple loop. -/
def visitTriangle (tokenA tokenB tokenC : TokenId) (st : Enumerated) : Enumerated :=
  if tokenC = tokenA ∨ tokenC = tokenB then st
  else if !st.book.hasOrders tokenC tokenA then st
  else
    let triangle := Triangle.canonical tokenA tokenB tokenC
    if triangle ∈ st.seen then st
    else
      let st := { st with seen := insert triangle st.seen }
      match tryBuildEntry st.book triangle with
      | (none, book) => { st with book := book }
      | (some entry, book) =>
        { st with
          book := book
          entries := st.entries ++ [entry]
          trianglesByPair := triangle.pairs.foldl (registerTriangle triangle) st.trianglesByPair }

/-- Enumerates all profitable triangles. -/
def enumerateTriangles (order : Enumeration) (book : OrderBook) : Enumerated :=
  order.tokens.foldl
    (fun st tokenB => (order.incoming tokenB).foldl
      (fun st tokenA => (order.outgoing tokenB).foldl
        (fun st tokenC => visitTriangle tokenA tokenB tokenC st) st) st)
    ⟨book, ∅, [], ∅⟩

/-! ## Execution -/

/-- Fills an order of the book in place. -/
def fillInPlace (book : OrderBook) (id : OrderId) (order : Order) (amount : Nat) : OrderBook :=
  { book with orders := book.orders.insert id (order.fill amount).2 }

/-- Executes a 3-cycle: fills the orders, cleans up exhausted ones, collects the
surplus.  An order missing half-way leaves the earlier fills in place. -/
def executeCycle (book : OrderBook) (entry : CycleEntry) (fills : FillResult)
    (filledOrders : Finset OrderId) : Bool × OrderBook × Finset OrderId :=
  match book.orders.lookup entry.orderAb with
  | none => (false, book, filledOrders)
  | some orderAb =>
    let book := fillInPlace book entry.orderAb orderAb fills.fillB
    match book.orders.lookup entry.orderCa with
    | none => (false, book, filledOrders)
    | some orderCa =>
      let book := fillInPlace book entry.orderCa orderCa fills.fillA
      match book.orders.lookup entry.orderBc with
      | none => (false, book, filledOrders)
      | some orderBc =>
        let book := fillInPlace book entry.orderBc orderBc fills.fillC
        let filledOrders := insert entry.orderBc
          (insert entry.orderCa (insert entry.orderAb filledOrders))
        let book := ((book.cleanupIfFilled entry.orderAb).cleanupIfFilled
          entry.orderCa).cleanupIfFilled entry.orderBc
        let book := ((book.addProtocolBalance entry.triangle.a fills.surplusA).addProtocolBalance
          entry.triangle.b fills.surplusB).addProtocolBalance entry.triangle.c fills.surplusC
        (true, book, filledOrders)

/-- The state of the execution loop. -/
structure CycleState extends Progress where
  heap : List CycleEntry

/-- The triangles that share a pair with `t`. -/
def affectedTriangles (byPair : FiniteMap Pair (List Triangle)) (t : Triangle) :
    Finset Triangle :=
  (t.pairs.flatMap fun p => (byPair.lookup p).getD []).toFinset

/-- Pushes the current entry of a triangle, if it has one. -/
def refresh (s : CycleState) (t : Triangle) : CycleState :=
  match tryBuildEntry s.book t with
  | (none, book) => { s with book := book }
  | (some entry, book) => { s with book := book, heap := entry :: s.heap }

/-- One round of the loop: `entry` is popped, and `affected` is the order in which the
affected triangles are revisited after an execution. -/
def processEntry (affected : List Triangle) (s : CycleState) (entry : CycleEntry) : CycleState :=
  let s := { s with heap := s.heap.erase entry }
  match simulateFullCycle s.book entry.orderAb entry.orderBc entry.orderCa with
  | none => refresh s entry.triangle
  | some simulation =>
    if simulation.surplusUsd ≠ entry.surplusUsd then
      if 0 < simulation.surplusUsd then
        { s with heap := { entry with surplusUsd := simulation.surplusUsd } :: s.heap }
      else s
    else
      match executeCycle s.book entry simulation.fills s.filledOrders with
      | (false, book, filledOrders) => { s with book := book, filledOrders := filledOrders }
      | (true, book, filledOrders) =>
        affected.foldl refresh
          { s with book := book, filledOrders := filledOrders, cycles := s.cycles + 1 }

/-- `entry` may be popped: no entry has a larger surplus. -/
def Poppable (s : CycleState) (entry : CycleEntry) : Prop :=
  entry ∈ s.heap ∧ ∀ e ∈ s.heap, e.surplusUsd ≤ entry.surplusUsd

instance (s : CycleState) (entry : CycleEntry) : Decidable (Poppable s entry) :=
  inferInstanceAs (Decidable (_ ∧ _))

/-- **One step of the loop**, for every choice of the heap and of the hash set. -/
inductive CycleStep (byPair : FiniteMap Pair (List Triangle)) : CycleState → CycleState → Prop
  | pop {s : CycleState} {entry : CycleEntry} {affected : List Triangle}
      (poppable : Poppable s entry) (nodup : affected.Nodup)
      (all : affected.toFinset = affectedTriangles byPair entry.triangle) :
      CycleStep byPair s (processEntry affected s entry)

/-- The state in which the execution loop starts. -/
def cycleStart (order : Enumeration) (s : Progress) : CycleState :=
  { s with
    book := (enumerateTriangles order s.book).book
    heap := (enumerateTriangles order s.book).entries }

/-- The states the execution loop reaches when the phase starts from `s`. -/
def CycleReaches (s : Progress) (s' : CycleState) : Prop :=
  ∃ order : Enumeration, order.Of s.book ∧
    Relation.ReflTransGen (CycleStep (enumerateTriangles order s.book).trianglesByPair)
      (cycleStart order s) s'

/-- The loop calls `execute_cycle` on `entry` with the fills of `simulation`. -/
structure Executes (s : CycleState) (entry : CycleEntry) (simulation : CycleSimulation) :
    Prop where
  poppable : Poppable s entry
  simulated : simulateFullCycle s.book entry.orderAb entry.orderBc entry.orderCa = some simulation
  current : simulation.surplusUsd = entry.surplusUsd

end PswapSolver
