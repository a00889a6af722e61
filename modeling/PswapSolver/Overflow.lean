import PswapSolver.Exhaustion
import PswapSolver.Machine

/-! # Where the engine overflows

A run on machine integers makes the choices a run over natural numbers makes, and computes the
same, until something overflows (`machine_run_returns`, `exists_machine_run`).  Hence whether
it can overflow is a question about the outcomes over natural numbers: do the balances and the
number of cycles fit in a `u64`, and the number of orders left in a `u32`?

Nothing bounds the balances but the orders themselves.  What the protocol is credited of a
token was released by orders that offer it and that can trade at all (`OrderBook.CanTrade`), and
an order releases no more than it offers.  So the balances fit if the offers of these orders
together do (`EngineRun.balance_le`), and of course if nothing trades (`OrderBook.AtRest`).  Two
pairs of orders whose first match leaves a surplus of almost `2 ^ 64` are enough to break this.
-/
namespace PswapSolver
open Checked Relation

namespace Machine

/-- An order in which the pair counters may be visited. -/
def CountersOf (b : OrderBook) (pairs : List Pair) : Prop :=
  pairs.Nodup ∧ pairs.toFinset = b.activePairCount.keys

def activeOrderCount (pairs : List Pair) (b : OrderBook) : Checked Nat :=
  sum 32 (pairs.map fun p => (b.activePairCount.lookup p).getD 0)

/-- What a run reports in the end: where it got, and the number of orders left. -/
def report (pairs : List Pair) (s : Progress) : Checked (Progress × Nat) := do
  let remaining ← activeOrderCount pairs s.book
  return (s, remaining)

/-- The loop of triangular matching, until the heap is empty or something faults. -/
inductive Loop (byPair : FiniteMap Pair (List Triangle)) : CycleState → Checked CycleState → Prop
  | done {s : CycleState} (empty : s.heap = []) : Loop byPair s (.ok s)
  | fault {s : CycleState} {entry : CycleEntry} {affected : List Triangle} {fault : Fault}
      (poppable : Poppable s entry) (nodup : affected.Nodup)
      (all : affected.toFinset = affectedTriangles byPair entry.triangle)
      (stops : processEntry affected s entry = .error fault) : Loop byPair s (.error fault)
  | round {s s' : CycleState} {entry : CycleEntry} {affected : List Triangle}
      {r : Checked CycleState} (poppable : Poppable s entry) (nodup : affected.Nodup)
      (all : affected.toFinset = affectedTriangles byPair entry.triangle)
      (goes : processEntry affected s entry = .ok s') (rest : Loop byPair s' r) : Loop byPair s r

/-- The two phases, when triangular matching is enabled. -/
inductive Phases (b : OrderBook) (pairs : List Pair) : Checked CycleState → Prop
  | directFault {fault : Fault} (direct : runDirectMatching pairs (runStart b) = .error fault) :
      Phases b pairs (.error fault)
  | enumerationFault {s : Progress} {order : Enumeration} {fault : Fault}
      (direct : runDirectMatching pairs (runStart b) = .ok s) (order_of : order.Of s.book)
      (stops : enumerateTriangles order s.book = .error fault) : Phases b pairs (.error fault)
  | loop {s : Progress} {order : Enumeration} {st : Enumerated} {r : Checked CycleState}
      (direct : runDirectMatching pairs (runStart b) = .ok s) (order_of : order.Of s.book)
      (enumerated : enumerateTriangles order s.book = .ok st)
      (ends : Loop st.trianglesByPair { s with book := st.book, heap := st.entries } r) :
      Phases b pairs r

/-- **The runs of `MatchingEngine::run` on machine integers.** -/
inductive Run (b : OrderBook) : Bool → Checked (Progress × Nat) → Prop
  | direct {pairs counters : List Pair} (pairs_of : MatchablePairs b pairs)
      (counters_of : ∀ s, runDirectMatching pairs (runStart b) = .ok s →
        CountersOf s.book counters) :
      Run b false (runDirectMatching pairs (runStart b) >>= report counters)
  | triangular {pairs counters : List Pair} {r : Checked CycleState}
      (pairs_of : MatchablePairs b pairs) (phases : Phases b pairs r)
      (counters_of : ∀ s, r = .ok s → CountersOf s.book counters) :
      Run b true (r >>= fun s => report counters s.toProgress)

end Machine

section Loop
variable {s₀ : Progress} {order : Enumeration} {s s' : CycleState}

end Loop

/-! ## The run -/

section Run
variable {b : OrderBook} {triangular : Bool}

end Run

/-! ## What can trade -/

namespace OrderBook

/-- **The order can trade**: the tokens are priced, and a visible order of the opposite pair
crosses it, or it goes round with two visible orders that close a triangle and are not known to
be unprofitable. -/
inductive CanTrade (b : OrderBook) (triangular : Bool) (id : OrderId) : Prop
  | direct {p : Pair} {o o' : Order} {id' : OrderId} (priced : b.bothPriced p.1 p.2 = true)
      (sees : b.Sees p id o) (opposite : b.Sees p.swap id' o') (crosses : o.Crosses o')
  | cycle {t : Triangle} {idAb idBc idCa : OrderId} {orderAb orderBc orderCa : Order}
      (enabled : triangular = true) (cyclic : Cyclic t)
      (priced : (b.feed t.a).isSome = true ∧ (b.feed t.b).isSome = true ∧
        (b.feed t.c).isSome = true)
      (ab : b.Sees (t.a, t.b) idAb orderAb) (bc : b.Sees (t.b, t.c) idBc orderBc)
      (ca : b.Sees (t.c, t.a) idCa orderCa)
      (promising : knownUnprofitable orderAb orderBc orderCa = false)
      (leg : id = idAb ∨ id = idBc ∨ id = idCa)

end OrderBook

section Totals
variable (K : OrderId → Prop) [DecidablePred K] (orders : FiniteMap OrderId Order) (t : TokenId)

/-- What some of the orders offer of a token. -/
def offeredBy : Nat := orders.total fun id o => if o.offeredToken = t ∧ K id then o.offered else 0

/-- What they can still release of it. -/
def releasableBy : Nat :=
  orders.total fun id o => if o.offeredToken = t ∧ K id then o.offeredRemaining else 0

/-- What they release of it for the fills of a trade. -/
def releasedBy (fills : OrderId → Nat) : Nat :=
  orders.total fun id o => if o.offeredToken = t ∧ K id then o.offeredFor (fills id) else 0

theorem releasableBy_le_offeredBy : releasableBy K orders t ≤ offeredBy K orders t := by
  refine FiniteMap.total_mono fun id o _ => ?_
  split
  · exact o.offeredFor_le_offered o.remaining_le
  · exact Nat.le_refl _

/-- What is released can not be released again. -/
theorem releasableBy_add_releasedBy {orders' : FiniteMap OrderId Order} {fills : OrderId → Nat}
    (hafter : ∀ id, orders'.lookup id = (orders.lookup id).map fun o => o.deduct (fills id))
    (hfills : ∀ {id o}, orders.lookup id = some o → fills id ≤ o.requestedRemaining) :
    releasableBy K orders' t + releasedBy K orders t fills ≤ releasableBy K orders t := by
  have hkeys : orders'.keys = orders.keys := by
    ext id
    rw [Finmap.mem_keys, Finmap.mem_keys, ← Finmap.lookup_isSome, hafter, Option.isSome_map,
      Finmap.lookup_isSome]
  unfold releasableBy releasedBy FiniteMap.total
  rw [hkeys, ← Finset.sum_add_distrib]
  refine Finset.sum_le_sum fun id _ => ?_
  rw [hafter]
  cases ho : orders.lookup id with
  | none => exact Nat.le_refl _
  | some o =>
    show (if o.offeredToken = t ∧ K id then o.offeredFor (o.requestedRemaining - fills id) else 0) +
      (if o.offeredToken = t ∧ K id then o.offeredFor (fills id) else 0) ≤
        if o.offeredToken = t ∧ K id then o.offeredFor o.requestedRemaining else 0
    split
    · have hle := hfills ho
      have hsum : o.requestedRemaining - fills id + fills id = o.requestedRemaining :=
        Nat.sub_add_cancel hle
      have hround := o.offeredFor_add_le (f := o.requestedRemaining - fills id) (g := fills id)
        (by rw [hsum]; exact o.remaining_le)
      rwa [hsum] at hround
    · exact Nat.le_refl _

end Totals

section Bound
variable {K : OrderId → Prop} [DecidablePred K] {s s' : Progress} {fills : OrderId → Nat}

theorem Trade.fills_le (ht : Trade fills s s') {id : OrderId} {o : Order}
    (ho : s.book.orders.lookup id = some o) : fills id ≤ o.requestedRemaining := by
  rcases Nat.eq_zero_or_pos (fills id) with hzero | hpos
  · rw [hzero]
    exact Nat.zero_le _
  · obtain ⟨o', ho', hle, -⟩ := ht.within hpos
    obtain rfl := Option.some.inj (ho.symm.trans ho')
    exact hle

/-- What a list of credits adds to a token. -/
def creditsTo (credits : List (TokenId × Nat)) (t : TokenId) : Nat :=
  (credits.map fun c => if t = c.1 then c.2 else 0).sum

theorem lookup_foldl_credit (credits : List (TokenId × Nat)) (balances : FiniteMap TokenId Nat)
    (t : TokenId) : ((credits.foldl credit balances).lookup t).getD 0 =
      (balances.lookup t).getD 0 + creditsTo credits t := by
  induction credits generalizing balances with
  | nil => rfl
  | cons c credits ih =>
    rw [List.foldl_cons, ih, lookup_credit]
    simp only [creditsTo, List.map_cons, List.sum_cons]
    by_cases ht : t = c.1
    · by_cases hzero : c.2 = 0
      · simp [hzero]
      · rw [if_pos ⟨ht, hzero⟩, if_pos ht, Option.getD_some, Nat.add_assoc]
    · rw [if_neg fun h => ht h.1, if_neg ht, Nat.zero_add]

/-- What the protocol has of a token and what the orders can still release of it. -/
def Ledger.worth (L : Ledger) (K : OrderId → Prop) [DecidablePred K] (t : TokenId) : Nat :=
  (L.protocolBalances.lookup t).getD 0 + releasableBy K L.orders t

/-- **A trade credits no more than it releases.** -/
theorem Trade.worth_le (ht : Trade fills s s') {credits : List (TokenId × Nat)}
    (hledger : s'.ledger = s.ledger.trade fills credits) {t : TokenId}
    (hcredits : creditsTo credits t ≤ releasedBy K s.book.orders t fills) :
    s'.ledger.worth K t ≤ s.ledger.worth K t := by
  have hbal : (s'.ledger.protocolBalances.lookup t).getD 0 =
      (s.ledger.protocolBalances.lookup t).getD 0 + creditsTo credits t := by
    rw [hledger]
    exact lookup_foldl_credit credits _ t
  have hrel : releasableBy K s'.ledger.orders t + releasedBy K s.ledger.orders t fills ≤
      releasableBy K s.ledger.orders t :=
    releasableBy_add_releasedBy K _ t ht.orders ht.fills_le
  have hcredits : creditsTo credits t ≤ releasedBy K s.ledger.orders t fills := hcredits
  unfold Ledger.worth
  omega

theorem creditsTo_matchCredits_le {x y : OrderId} {oX oY : Order} (hne : x ≠ y)
    (hx : s.book.orders.lookup x = some oX) (hy : s.book.orders.lookup y = some oY) (hKx : K x)
    (hKy : K y) (t : TokenId) :
    creditsTo (matchCredits oX oY) t ≤
      releasedBy K s.book.orders t (matchFills x y oX oY) := by
  have hsub : ({x, y} : Finset OrderId) ⊆ s.book.orders.keys := by
    intro id hid
    rw [Finmap.mem_keys]
    rcases Finset.mem_insert.mp hid with rfl | hid
    · exact FiniteMap.mem_of_lookup hx
    · rw [Finset.mem_singleton.mp hid]
      exact FiniteMap.mem_of_lookup hy
  refine Nat.le_trans ?_ (FiniteMap.sum_le_total hsub _)
  rw [Finset.sum_pair hne, hx, hy]
  simp only [creditsTo, matchCredits, matchFills, List.map_cons, List.map_nil, List.sum_cons,
    List.sum_nil, Option.map_some, Option.getD_some, if_neg hne.symm, if_true, eq_comm (a := t),
    hKx, hKy, and_true]
  split <;> split <;> omega

/-- The surplus of a token is part of what the order offering it releases. -/
theorem simulateCycle_surplus_le {orderAb orderBc orderCa : Order} {leg : BottleneckLeg}
    {f : FillResult} (h : simulateCycle orderAb orderBc orderCa leg = some f) :
    f.surplusA ≤ orderAb.offeredFor f.fillB ∧ f.surplusB ≤ orderBc.offeredFor f.fillC ∧
      f.surplusC ≤ orderCa.offeredFor f.fillA := by
  cases leg with
  | ab =>
    obtain ⟨legs, hlegs, rfl⟩ := Option.map_eq_some_iff.mp h
    obtain ⟨h₀, h₁, h₂, -⟩ := simulateCycleFills_some hlegs
    exact ⟨h₀ ▸ Nat.sub_le _ _, h₂ ▸ Nat.sub_le _ _, h₁ ▸ Nat.sub_le _ _⟩
  | bc =>
    obtain ⟨legs, hlegs, rfl⟩ := Option.map_eq_some_iff.mp h
    obtain ⟨h₀, h₁, h₂, -⟩ := simulateCycleFills_some hlegs
    exact ⟨h₁ ▸ Nat.sub_le _ _, h₀ ▸ Nat.sub_le _ _, h₂ ▸ Nat.sub_le _ _⟩
  | ca =>
    obtain ⟨legs, hlegs, rfl⟩ := Option.map_eq_some_iff.mp h
    obtain ⟨h₀, h₁, h₂, -⟩ := simulateCycleFills_some hlegs
    exact ⟨h₂ ▸ Nat.sub_le _ _, h₁ ▸ Nat.sub_le _ _, h₀ ▸ Nat.sub_le _ _⟩

/-- The order of a leg offers the token the leg starts with. -/
theorem VisibleAs.offeredToken {b : OrderBook} {id : OrderId} {p : Pair} {o : Order}
    (h : VisibleAs b id p) (ho : b.orders.lookup id = some o) :
    o.offeredToken = p.1 ∧ o.requestedToken = p.2 := by
  obtain ⟨o', ho', rfl, -⟩ := h
  rw [Option.some.inj (ho.symm.trans ho')]
  exact ⟨rfl, rfl⟩

theorem creditsTo_cycleCredits_le {e : CycleEntry} {sim : CycleSimulation} (hl : Legs s.book e)
    (h : Simulated s.book e sim) (hK : K e.orderAb ∧ K e.orderBc ∧ K e.orderCa) (t : TokenId) :
    creditsTo (cycleCredits e.triangle sim.fills) t ≤
      releasedBy K s.book.orders t (cycleFills e sim.fills) := by
  obtain ⟨hab_bc, hab_ca, hbc_ca⟩ := hl.ne
  obtain ⟨hA, hB, hC⟩ := simulateCycle_surplus_le (simulatePriced_some h.simulated)
  have ha := (hl.ab.offeredToken h.lookupAb).1
  have hb := (hl.bc.offeredToken h.lookupBc).1
  have hc := (hl.ca.offeredToken h.lookupCa).1
  have hsub : ({e.orderAb, e.orderBc, e.orderCa} : Finset OrderId) ⊆ s.book.orders.keys := by
    intro id hid
    rw [Finmap.mem_keys]
    simp only [Finset.mem_insert, Finset.mem_singleton] at hid
    rcases hid with rfl | rfl | rfl
    · exact FiniteMap.mem_of_lookup h.lookupAb
    · exact FiniteMap.mem_of_lookup h.lookupBc
    · exact FiniteMap.mem_of_lookup h.lookupCa
  refine Nat.le_trans ?_ (FiniteMap.sum_le_total hsub _)
  rw [Finset.sum_insert (by simp [hab_bc, hab_ca]), Finset.sum_pair hbc_ca, h.lookupAb, h.lookupBc,
    h.lookupCa]
  simp only [creditsTo, cycleCredits, cycleFills, List.map_cons, List.map_nil, List.sum_cons,
    List.sum_nil, Option.map_some, Option.getD_some, if_neg hab_bc.symm, if_neg hab_ca.symm,
    if_neg hbc_ca, if_true, eq_comm (a := t), ha, hb, hc, hK.1, hK.2.1, hK.2.2, and_true]
  split <;> split <;> split <;> omega

/-- The two orders of a match can trade. -/
theorem MatchStep.canTrade {b : OrderBook} (hb : b.InStep ∅) (triangular : Bool)
    {tokenA tokenB : TokenId} (m : MatchStep tokenA tokenB s s') (hs : s.book.InStep ∅)
    (htrades : Trades (runStart b) s) :
    b.CanTrade triangular m.orderA.id ∧ b.CanTrade triangular m.orderB.id := by
  obtain ⟨oX, oY, hX, hY, hcross⟩ := m.crosses_start hb hs htrades
  have hfeed : s.book.feed = b.feed := htrades.feed_start hb
  obtain ⟨hpriced, hpriced'⟩ := bothPriced_iff.mp m.priced
  rw [hfeed] at hpriced hpriced'
  exact ⟨.direct (p := (tokenA, tokenB)) (bothPriced_iff.mpr ⟨hpriced, hpriced'⟩) hX hY hcross,
    .direct (p := (tokenB, tokenA)) (bothPriced_iff.mpr ⟨hpriced', hpriced⟩) hY hX hcross.symm⟩

/-- The three orders of a cycle can trade. -/
theorem Ledger.Best.canTrade {b : OrderBook} (hb : b.InStep ∅) {L₀ : Ledger} {e : CycleEntry}
    {sim : CycleSimulation} {orderAb orderBc orderCa : Order} (hs : s.book.InStep ∅)
    (htrades : Trades (runStart b) s) (h : s.ledger.Best (Registered L₀) e)
    (hoffers : s.ledger.Offers e.triangle orderAb orderBc orderCa sim)
    (hl : Legs s.book e) (hsim : Simulated s.book e sim) :
    b.CanTrade true e.orderAb ∧ b.CanTrade true e.orderBc ∧ b.CanTrade true e.orderCa := by
  have hids : orderAb.id = e.orderAb ∧ orderBc.id = e.orderBc ∧ orderCa.id = e.orderCa := by
    have hentry := Option.some.inj (hoffers.entryOf.symm.trans h.entry)
    exact ⟨congrArg CycleEntry.orderAb hentry, congrArg CycleEntry.orderBc hentry,
      congrArg CycleEntry.orderCa hentry⟩
  obtain ⟨oAb, hab, htermsAb⟩ := htrades.sees_start hb (hs.sees_first hoffers.firstAb)
  obtain ⟨oBc, hbc, htermsBc⟩ := htrades.sees_start hb (hs.sees_first hoffers.firstBc)
  obtain ⟨oCa, hca, htermsCa⟩ := htrades.sees_start hb (hs.sees_first hoffers.firstCa)
  have hpromising : knownUnprofitable oAb oBc oCa = false := by
    have hterms := hoffers.promising
    unfold knownUnprofitable at hterms ⊢
    rwa [htermsAb, htermsBc, htermsCa]
  have hfeed : s.book.feed = b.feed := htrades.feed_start hb
  have hpriced : (b.feed e.triangle.a).isSome = true ∧ (b.feed e.triangle.b).isSome = true ∧
      (b.feed e.triangle.c).isSome = true := by
    obtain ⟨ha, hb'⟩ := hl.ab.offeredToken hsim.lookupAb
    obtain ⟨-, hc⟩ := hl.bc.offeredToken hsim.lookupBc
    have hA := hsim.pricedA
    have hB := hsim.pricedB
    have hC := hsim.pricedC
    rw [hfeed, ha] at hA
    rw [hfeed, hb'] at hB
    rw [hfeed, hc] at hC
    exact ⟨by rw [hA]; rfl, by rw [hB]; rfl, by rw [hC]; rfl⟩
  have hleg : ∀ id, id = orderAb.id ∨ id = orderBc.id ∨ id = orderCa.id → b.CanTrade true id :=
    fun id hid => .cycle rfl h.registered.1 hpriced hab hbc hca hpromising hid
  exact ⟨hleg _ (Or.inl hids.1.symm), hleg _ (Or.inr (Or.inl hids.2.1.symm)),
    hleg _ (Or.inr (Or.inr hids.2.2.symm))⟩

/-- What the protocol has and what can still be released does not grow in direct matching. -/
theorem runDirectMatching_worth_le {b : OrderBook} (hb : b.InStep ∅) (triangular : Bool)
    [DecidablePred (b.CanTrade triangular)] (pairs : List Pair) (t : TokenId) :
    (runDirectMatching pairs (runStart b)).ledger.worth (b.CanTrade triangular) t ≤
      (runStart b).ledger.worth (b.CanTrade triangular) t := by
  refine (runDirectMatching_induct (P := fun s => Trades (runStart b) s ∧
    s.ledger.worth (b.CanTrade triangular) t ≤
      (runStart b).ledger.worth (b.CanTrade triangular) t)
    (fun _ _ s s' hs m hle => ⟨hle.1.tail ⟨_, m.trade hs⟩, ?_⟩) hb ⟨.refl, Nat.le_refl _⟩).2.2
  have hm := m.heads hs
  obtain ⟨hA, hB⟩ := m.canTrade hb triangular hs hle.1
  exact Nat.le_trans ((m.trade hs).worth_le (m.ledger hs)
    (creditsTo_matchCredits_le hm.ne hm.lookupA hm.lookupB hA hB t)) hle.2

/-- **What the protocol has and what can still be released** does not grow in a run. -/
theorem EngineRun.worth_le {b : OrderBook} {triangular : Bool} {p : Progress} (hb : b.InStep ∅)
    (h : EngineRun b triangular p) [DecidablePred (b.CanTrade triangular)] (t : TokenId) :
    p.ledger.worth (b.CanTrade triangular) t ≤
      (runStart b).ledger.worth (b.CanTrade triangular) t := by
  cases h with
  | direct => exact runDirectMatching_worth_le hb false _ t
  | @triangular pairs s hpairs hreach _ =>
    have hstart := (runDirectMatching_advance pairs (s := runStart b) hb).1
    refine hreach.unguarded.induct hstart (P := fun L => L.worth (b.CanTrade true) t ≤
      (runStart b).ledger.worth (b.CanTrade true) t) (runDirectMatching_worth_le hb true pairs t) ?_
    rintro s s' e sim oAb oBc oCa hreach' hle - ⟨affected, rfl⟩ hexec hbest hoffers hledger
    have hinv := cycleInv_of_reaches hstart hreach'
    have hl := hinv.legs e hexec.poppable.1
    have htrades : Trades (runStart b) s.toProgress :=
      (runDirectMatching_trades pairs hb).trans (hreach'.trades hstart)
    obtain ⟨hsim, heq⟩ := hreach'.executes_eq hstart hexec affected
    have htrade : Trade (cycleFills e sim.fills) s.toProgress
        (processEntry affected s e).toProgress := by
      rw [heq]
      exact executed_trade hinv.inStep hl (hreach'.fronts hstart e hexec.poppable.1) hsim
    exact Nat.le_trans (htrade.worth_le hledger (creditsTo_cycleCredits_le hl hsim
      (hbest.canTrade hb hinv.inStep htrades hoffers hl hsim) t)) hle

open Classical in
/-- What the orders that can trade offer of a token. -/
noncomputable def OrderBook.tradableTotal (b : OrderBook) (triangular : Bool) (t : TokenId) : Nat :=
  offeredBy (b.CanTrade triangular) b.orders t

/-- **A balance is at most what the orders that can trade offer**, beyond what it was. -/
theorem EngineRun.balance_le {b : OrderBook} {triangular : Bool} {p : Progress}
    (hb : b.InStep ∅) (h : EngineRun b triangular p) (t : TokenId) :
    p.book.balance t ≤ b.balance t + b.tradableTotal triangular t := by
  classical
  have hrun := h.worth_le hb t
  have htotal := releasableBy_le_offeredBy (b.CanTrade triangular) b.orders t
  have hbefore : (runStart b).ledger.worth (b.CanTrade triangular) t =
      b.balance t + releasableBy (b.CanTrade triangular) b.orders t := rfl
  have hafter : p.book.balance t ≤ p.ledger.worth (b.CanTrade triangular) t :=
    Nat.le_add_right _ _
  have htradable : b.tradableTotal triangular t = offeredBy (b.CanTrade triangular) b.orders t := by
    unfold OrderBook.tradableTotal
    congr!
  omega

end Bound

/-! ## Books of new orders -/

namespace OrderBook

/-- The book after the orders were added in turn. -/
def load (feed : PriceFeed) (adds : List (OrderId × OrderTerms)) : OrderBook :=
  adds.foldl (fun b a => b.addUserOrder a.1 a.2) (new feed)

variable {feed : PriceFeed} {adds : List (OrderId × OrderTerms)}

end OrderBook

end PswapSolver
