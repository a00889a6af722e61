import PswapSolver.Triangles

/-! # Does one run exhaust the book?

The tests expect a second run, right after the first, to find nothing.  Each phase does
exhaust what it looks at: after direct matching no visited pair has two first orders that
trade, and when triangular matching ends, no triangle that was worth something at its
beginning is worth anything.  But triangular matching changes first orders, and neither phase
looks again.  Behind a filled order stands another, which may trade with the first order of
the opposite direction, or complete a triangle that was not worth anything before.

So a second run is idle if the cycles of the first uncover neither
(`CycleState.UncoversNothing`), which can be read off the state before each of them.  What an
earlier cycle uncovers a later one may use up by chance; what the last one uncovers is left.
-/
namespace PswapSolver
open Relation

/-! ## A run that does nothing -/

section Idle
variable {s₀ : Progress} {s : CycleState}

/-- A pair is blocked iff a round of direct matching stops on it. -/
theorem blocked_iff {s : Progress} (hb : s.book.InStep ∅) (p : Pair) :
    Blocked p s ↔ (matchRound p.1 p.2 s).1 = false := by
  constructor
  · intro hblocked
    obtain hstop | ⟨s', -, ⟨m⟩⟩ := matchRound_cases p.1 p.2 hb
    · rw [hstop]
    · exact absurd (m.crossed hb) (hblocked _ _)
  · intro hstop oX oY hcross
    rw [hcross.matchRound hb] at hstop
    cases hstop

theorem runDirectMatching_of_blocked {s : Progress} (hb : s.book.InStep ∅) {pairs : List Pair}
    (h : ∀ p ∈ pairs, Blocked p s) : runDirectMatching pairs s = s := by
  refine (runDirectMatching_induct (P := fun s' => s' = s) (fun p hp s' s'' hs m heq => ?_)
    hb rfl).2
  subst heq
  exact absurd (m.crossed hs) (h p hp _ _)

theorem CycleReaches.ledger_of_not_registered (hb : s₀.book.InStep ∅) (h : CycleReaches s₀ s)
    (hno : ¬ ∃ t, Registered s₀.ledger t) : s.ledger = s₀.ledger := by
  rcases (h.greedy hb).1.cases_head with heq | ⟨L, hstep, -⟩
  · exact heq.symm
  · obtain ⟨hbest, -⟩ := hstep
    exact absurd ⟨_, hbest.registered⟩ hno

/-- **A run is idle** iff no two first orders of a pair trade and no triangle is worth
anything. -/
theorem EngineRun.idle_iff {b : OrderBook} (hb : b.InStep ∅) {p : Progress}
    (h : EngineRun b true p) : (p.cycles = 0 ∧ p.filledOrders = ∅) ↔
      (∀ q ∈ collectMatchablePairs b, Blocked q (runStart b)) ∧
        ¬ ∃ t, Registered (runStart b).ledger t := by
  cases h with
  | @triangular pairs s hpairs hreach hdone =>
    have hdirect := (runDirectMatching_advance pairs (s := runStart b) hb).1
    constructor
    · rintro ⟨-, hfilled⟩
      -- nothing was filled, so neither phase changed anything
      have htriangular := (hreach.trades hdirect).eq_of_unfilled hfilled
      have hsame : runDirectMatching pairs (runStart b) = runStart b :=
        (runDirectMatching_trades pairs hb).eq_of_unfilled (htriangular ▸ hfilled)
      refine ⟨fun q hq => ?_, fun hreg => ?_⟩
      · have hblocked := hpairs.blocked hb hq
        rwa [hsame] at hblocked
      · rw [← hsame, ← hreach.executes_iff hdirect hdone, ← htriangular] at hreg
        exact Nat.lt_irrefl _ hreg
    · rintro ⟨hblocked, hnone⟩
      rw [runDirectMatching_of_blocked hb fun q hq => hblocked q (hpairs.mem_iff.mp hq)] at hreach
      have hledger := hreach.ledger_of_not_registered hb hnone
      exact ⟨congrArg Ledger.cycles hledger, congrArg Ledger.filledOrders hledger⟩

/-- Every book has an outcome. -/
theorem exists_engineRun {b : OrderBook} (hb : b.InStep ∅) : ∃ p, EngineRun b true p := by
  have hpairs : MatchablePairs b (collectMatchablePairs b).toList :=
    ⟨Finset.nodup_toList _, Finset.toList_toFinset _⟩
  have hdirect := (runDirectMatching_advance (collectMatchablePairs b).toList
    (s := runStart b) hb).1
  obtain ⟨order, hof⟩ := exists_enumeration
    (runDirectMatching (collectMatchablePairs b).toList (runStart b)).book
  obtain ⟨s, hreach, hdone⟩ := exists_cycle_end hdirect hof .refl
  exact ⟨_, .triangular hpairs ⟨order, hof, hreach⟩ hdone⟩

end Idle

/-! ## What a cycle uncovers -/

namespace Ledger
variable {L : Ledger} {fills : OrderId → Nat} {p : Pair} {oX oY : Order}

/-- The order that is first in a pair once everyone has received a fill: the first one that has
something left. -/
def firstAfter (L : Ledger) (fills : OrderId → Nat) (p : Pair) : Option Order :=
  ((L.queue p).filterMap fun id =>
    (L.orders.lookup id).map fun o => o.deduct (fills id)).find? Order.isActive

theorem first_trade_eq (L : Ledger) (fills : OrderId → Nat) (credits : List (TokenId × Nat))
    (p : Pair) : (L.trade fills credits).first p = L.firstAfter fills p := by
  show (((L.queue p).filter (activeIn (L.fillAll fills))).head?).bind (L.fillAll fills).lookup = _
  unfold firstAfter
  induction L.queue p with
  | nil => rfl
  | cons id ids ih =>
    have hlookup := L.lookup_fillAll fills id
    cases ho : L.orders.lookup id with
    | none =>
      have hno : activeIn (L.fillAll fills) id = false := by
        rw [activeIn, hlookup, ho]
        rfl
      simpa [List.filter_cons, hno, ho] using ih
    | some o =>
      rw [ho, Option.map_some] at hlookup
      have hactive := activeIn_of_lookup hlookup
      cases hleft : (o.deduct (fills id)).isActive with
      | true => simp [hactive, hleft, ho, hlookup]
      | false => simpa [hactive, hleft, ho] using ih

theorem Crossed.firsts (h : L.Crossed p oX oY) :
    L.first p = some oX ∧ L.first p.swap = some oY := by
  unfold first
  rw [h.headX, h.headY]
  exact ⟨h.lookupX, h.lookupY⟩

/-- First orders of the two directions of a pair that trade can be matched. -/
theorem crossed_of_first (hs : L.Sound) (hn : L.Named) (hne : p.1 ≠ p.2)
    (hX : L.first p = some oX) (hY : L.first p.swap = some oY)
    (hpriced : (L.feed p.1).isSome = true ∧ (L.feed p.2).isSome = true) (h : oX.Trades oY) :
    L.Crossed p oX oY := by
  obtain ⟨x, hheadX, hlookupX⟩ := Option.bind_eq_some_iff.mp hX
  obtain ⟨y, hheadY, hlookupY⟩ := Option.bind_eq_some_iff.mp hY
  obtain rfl := hn hlookupX
  obtain rfl := hn hlookupY
  refine ⟨hheadX, hheadY, hlookupX, hlookupY, fun hid => hne ?_, hpriced, h⟩
  obtain ⟨o, ho, hpair, -⟩ := hs p _ (List.mem_of_head? hheadX)
  obtain ⟨o', ho', hpair', -⟩ := hs p.swap _ (List.mem_of_head? hheadY)
  rw [hid] at ho
  obtain rfl := Option.some.inj (ho.symm.trans ho')
  exact congrArg Prod.fst (hpair.symm.trans hpair')

end Ledger

/-- Going round with these orders is worth nothing. -/
def Worthless (feed : PriceFeed) (orderAb orderBc orderCa : Order) : Prop :=
  knownUnprofitable orderAb orderBc orderCa = true ∨
    ∀ sim, simulateOrders feed orderAb orderBc orderCa = some sim → sim.surplusUsd = 0

/-- **A cycle uncovers nothing.**  In each of its pairs another order comes first, or the same
with less left.  No two orders that come first trade; and a triangle that shares a pair with the
cycle, and was not worth anything when the phase began from `s₀`, is not worth anything with
them. -/
structure CycleState.UncoversNothing (s₀ : Progress) (s : CycleState) (e : CycleEntry)
    (f : FillResult) : Prop where
  pairs : ∀ p : Pair, p.1 < p.2 → p ∈ e.triangle.pairs ∨ p.swap ∈ e.triangle.pairs →
    s.book.bothPriced p.1 p.2 = true →
    ∀ oX ∈ s.ledger.firstAfter (cycleFills e f) p,
      ∀ oY ∈ s.ledger.firstAfter (cycleFills e f) p.swap, ¬ oX.Trades oY
  triangles : ∀ t, Cyclic t → (tryBuildEntry s₀.book t).1 = none →
    (∃ p ∈ t.pairs, p ∈ e.triangle.pairs) →
    ∀ orderAb ∈ s.ledger.firstAfter (cycleFills e f) (t.a, t.b),
      ∀ orderBc ∈ s.ledger.firstAfter (cycleFills e f) (t.b, t.c),
        ∀ orderCa ∈ s.ledger.firstAfter (cycleFills e f) (t.c, t.a),
          Worthless s.book.feed orderAb orderBc orderCa

/-- **A quiet run** of triangular matching: the cycles it executes uncover nothing. -/
def QuietReaches (s₀ : Progress) (s : CycleState) : Prop :=
  CycleReachesBy (fun x y => ∀ e sim, Pops x e y → Executes x e sim →
    x.UncoversNothing s₀ e sim.fills) s₀ s

/-! ## A quiet run leaves nothing -/

/-- **Nothing is left** to do: no pair can be matched, and no triangle that was not worth anything
is worth something by now. -/
structure Ledger.Still (L₀ L : Ledger) : Prop where
  pairs : ∀ p : Pair, p.1 < p.2 → ∀ oX oY, ¬ L.Crossed p oX oY
  triangles : ∀ t, Cyclic t → L₀.entryOf t = none → L.entryOf t = none

section Phase
variable {s₀ : Progress} {s : CycleState} {e : CycleEntry} {sim : CycleSimulation}

theorem bothPriced_iff {b : OrderBook} {x y : TokenId} :
    b.bothPriced x y = true ↔ (b.feed x).isSome = true ∧ (b.feed y).isSome = true := by
  rw [OrderBook.bothPriced, Bool.and_eq_true]

/-- **One cycle**: what it does not touch stays as it is, and it uncovers nothing. -/
theorem Ledger.Still.cycle (h : s₀.ledger.Still s.ledger) (hb₀ : s₀.book.InStep ∅)
    (hb : s.book.InStep ∅) (hentry : s.ledger.entryOf e.triangle = some e)
    (hquiet : s.UncoversNothing s₀ e sim.fills) : s₀.ledger.Still
      (s.ledger.trade (cycleFills e sim.fills) (cycleCredits e.triangle sim.fills)) := by
  have hs := hb.ledger_sound
  have hno : ∀ {p}, p ∉ e.triangle.pairs → ∀ id ∈ s.ledger.queue p,
      cycleFills e sim.fills id = 0 :=
    fun hp id hid => hs.cycleFills_eq_zero hb.ledger_named hentry hp hid _
  refine ⟨fun p hlt oX oY hcross => ?_, fun t ht hnone => ?_⟩
  · by_cases htouched : p ∈ e.triangle.pairs ∨ p.swap ∈ e.triangle.pairs
    · obtain ⟨hX, hY⟩ := hcross.firsts
      rw [first_trade_eq] at hX hY
      exact hquiet.pairs p hlt htouched (bothPriced_iff.mpr hcross.priced) oX hX oY hY hcross.trades
    · rw [not_or] at htouched
      exact h.pairs p hlt oX oY
        ((hs.crossed_trade_iff (hno htouched.1) (hno htouched.2) _).mp hcross)
  · by_cases htouched : ∃ p ∈ t.pairs, p ∈ e.triangle.pairs
    · refine Option.eq_none_iff_forall_not_mem.mpr fun x hx => ?_
      obtain ⟨orderAb, orderBc, orderCa, sim', hoffers, -⟩ := offers_of_entryOf hx
      have hab := hoffers.firstAb
      have hbc := hoffers.firstBc
      have hca := hoffers.firstCa
      rw [first_trade_eq] at hab hbc hca
      rw [← tryBuildEntry_eq hb₀] at hnone
      rcases hquiet.triangles t ht hnone htouched _ hab _ hbc _ hca with hknown | hzero
      · cases hknown.symm.trans hoffers.promising
      · exact hoffers.profitable (hzero sim' hoffers.simulated)
    · rw [hs.entryOf_trade (fun p hp => hno fun hpe => htouched ⟨p, hp, hpe⟩)]
      exact h.triangles t ht hnone

/-- **A quiet run** keeps everything still. -/
theorem QuietReaches.still (hb : s₀.book.InStep ∅) (h : QuietReaches s₀ s)
    (hstart : ∀ p : Pair, p.1 < p.2 → Blocked p s₀) : s₀.ledger.Still s.ledger := by
  refine CycleReachesBy.induct hb h (P := s₀.ledger.Still) ⟨hstart, fun _ _ hnone => hnone⟩ ?_
  intro s s' e sim _ _ _ hreach ih hquiet hpops hexec hbest _ hledger
  rw [hledger]
  exact ih.cycle hb (cycleInv_of_reaches hb hreach).inStep hbest.entry (hquiet e sim hpops hexec)

/-- After direct matching no pair can be matched: a pair that was not visited has no orders in one
direction. -/
theorem MatchablePairs.blocked_all {b : OrderBook} {pairs : List Pair}
    (hpairs : MatchablePairs b pairs) (hb : b.InStep ∅) {p : Pair} (hlt : p.1 < p.2) :
    Blocked p (runDirectMatching pairs (runStart b)) := by
  by_cases hp : p ∈ collectMatchablePairs b
  · exact hpairs.blocked hb hp
  · intro oX oY hcross
    have hsub := (runDirectMatching_trades pairs (s := runStart b) hb).queue_sublist
    refine hp (hb.mem_collectMatchablePairs.mpr ⟨hlt, ?_, ?_⟩)
    · exact List.ne_nil_of_mem ((hsub p).subset (List.mem_of_head? hcross.headX))
    · exact List.ne_nil_of_mem ((hsub p.swap).subset (List.mem_of_head? hcross.headY))

end Phase

/-! ## The second run -/

section Second
variable {s₀ : Progress} {s x : CycleState} {e : CycleEntry} {sim : CycleSimulation}

/-- Whether a pair is blocked depends on the book only. -/
theorem blocked_runStart {s : Progress} {p : Pair} :
    Blocked p (runStart s.book) ↔ Blocked p s :=
  ⟨fun h oX oY hc =>
    h oX oY ⟨hc.headX, hc.headY, hc.lookupX, hc.lookupY, hc.ne, hc.priced, hc.trades⟩,
  fun h oX oY hc =>
    h oX oY ⟨hc.headX, hc.headY, hc.lookupX, hc.lookupY, hc.ne, hc.priced, hc.trades⟩⟩

/-- When the phase ends and everything is still, no triangle is worth anything: one that was at
the start is exhausted. -/
theorem Ledger.Still.not_registered (h : s₀.ledger.Still s.ledger) (hb : s₀.book.InStep ∅)
    (hreach : CycleReaches s₀ s) (hdone : s.heap = []) :
    ¬ ∃ t, Registered (runStart s.book).ledger t := by
  rintro ⟨t, ht, hworth⟩
  have hnone : s.ledger.entryOf t = none := by
    cases hentry : s₀.ledger.entryOf t with
    | some e => exact hreach.exhausted hb hdone ⟨ht, by rw [hentry]; rfl⟩
    | none => exact h.triangles t ht hentry
  have hworth : (s.ledger.entryOf t).isSome = true := hworth
  rw [hnone] at hworth
  cases hworth

/-- **What the last cycle uncovers is left**: if nothing can be done after it, it has uncovered
nothing. -/
theorem uncoversNothing_of_idle (hend : s.book.InStep ∅)
    (hledger : s.ledger =
      x.ledger.trade (cycleFills e sim.fills) (cycleCredits e.triangle sim.fills))
    (hblocked : ∀ q ∈ collectMatchablePairs s.book, Blocked q (runStart s.book))
    (hnone : ¬ ∃ t, Registered (runStart s.book).ledger t) :
    x.UncoversNothing s₀ e sim.fills := by
  have hfirst : ∀ q, s.ledger.first q = x.ledger.firstAfter (cycleFills e sim.fills) q := by
    intro q
    rw [hledger]
    exact x.ledger.first_trade_eq _ _ q
  have hfeed : s.book.feed = x.book.feed := congrArg Ledger.feed hledger
  refine ⟨fun q hlt _ hpriced oX hX oY hY htrades => ?_,
    fun t ht _ _ orderAb hab orderBc hbc orderCa hca => ?_⟩
  · rw [← hfirst] at hX hY
    have hpriced' : (s.book.feed q.1).isSome = true ∧ (s.book.feed q.2).isSome = true := by
      rw [hfeed]
      exact bothPriced_iff.mp hpriced
    have hcross : s.ledger.Crossed q oX oY := Ledger.crossed_of_first hend.ledger_sound
      hend.ledger_named (Nat.ne_of_lt hlt) hX hY hpriced' htrades
    have hmatchable : q ∈ collectMatchablePairs s.book := hend.mem_collectMatchablePairs.mpr
      ⟨hlt, List.ne_nil_of_mem (List.mem_of_head? hcross.headX),
        List.ne_nil_of_mem (List.mem_of_head? hcross.headY)⟩
    exact blocked_runStart.mp (hblocked q hmatchable) oX oY hcross
  · by_contra hworth
    rw [Worthless, not_or, not_forall] at hworth
    obtain ⟨hpromising, sim', hsim⟩ := hworth
    rw [Classical.not_imp] at hsim
    rw [← hfirst] at hab hbc hca
    have hoffers : s.ledger.Offers t orderAb orderBc orderCa sim' :=
      ⟨hab, hbc, hca, Bool.eq_false_iff.mpr hpromising,
        (congrArg (simulateOrders · _ _ _) hfeed).trans hsim.1, hsim.2⟩
    have hentry : (runStart s.book).ledger.entryOf t = _ := hoffers.entryOf
    exact hnone ⟨t, ht, by rw [hentry]; rfl⟩

end Second

/-- **When a second run is idle.**  After any run of the engine with triangular matching, a run
that follows at once executes no cycle and fills no order if the cycles of the first run uncover
nothing.  And if it does nothing, the last cycle of the first run, in the state `x`, has uncovered
nothing. -/
theorem second_run_idle {b : OrderBook} (hb : b.Reachable) {pairs : List Pair}
    (hpairs : MatchablePairs b pairs) {s : CycleState}
    (hreach : CycleReaches (runDirectMatching pairs (runStart b)) s) (hdone : s.heap = [])
    {p : Progress} (hsecond : EngineRun s.book true p) :
    (QuietReaches (runDirectMatching pairs (runStart b)) s →
      p.cycles = 0 ∧ p.filledOrders = ∅) ∧
    ∀ x e sim y, CycleReaches (runDirectMatching pairs (runStart b)) x → Executes x e sim →
      Pops x e y → s.ledger = y.ledger → p.cycles = 0 ∧ p.filledOrders = ∅ →
      x.UncoversNothing (runDirectMatching pairs (runStart b)) e sim.fills := by
  have hstep := hb.inv.inStep
  have hdirect := (runDirectMatching_advance pairs (s := runStart b) hstep).1
  have hend : s.book.InStep ∅ := (cycleInv_of_reaches hdirect hreach).inStep
  rw [hsecond.idle_iff hend]
  constructor
  · intro hquiet
    have hstill := hquiet.still hdirect fun q hlt => hpairs.blocked_all hstep hlt
    refine ⟨fun q hq => ?_, hstill.not_registered hdirect hreach hdone⟩
    have hlt := (hend.mem_collectMatchablePairs.mp hq).1
    exact (blocked_runStart (s := s.toProgress)).mpr (hstill.pairs q hlt)
  · rintro x e sim y hx hexec ⟨affected, rfl⟩ hlast ⟨hblocked, hnone⟩
    exact uncoversNothing_of_idle hend
      (hlast.trans (hx.executes_ledger hdirect hexec affected)) hblocked hnone

/-! ### An idle second run, and one that is not

In `leftoverBook` orders 1, 2, 3 go round tokens 1, 2, 3, and order 1 is twice as large as the
others.  After the cycle half of it is left, which still does not cross order 4 of the opposite
direction.  In `promotedBook` order 1 offers 1 of token 1 for 1 of token 2, and order 2, behind
it at the same rate, 100 for 100.  Orders 3 and 4 lead from token 2 through token 3 back to token
1, orders 5 and 6 through token 4.  With order 1 the second way is worth nothing, since order 6
releases nothing for 1; the first is executed, and order 2 comes to the front. -/

def leftoverBook : OrderBook :=
  (triangleBook (swapTerms 1 2 220 200) (swapTerms 2 3 110 100)
    (swapTerms 3 1 110 100)).addUserOrder 4 (swapTerms 2 1 100 200)

theorem leftoverBook_reachable : leftoverBook.Reachable :=
  (triangleBook_reachable _ _ _).addUserOrder _ _

def leftoverEnumeration : Enumeration where
  tokens := [1, 2, 3]
  incoming := fun t => if t = 1 then [3, 2] else [t - 1]
  outgoing := fun t => if t = 2 then [3, 1] else if t = 3 then [1] else [2]

def leftoverStart : CycleState := cycleStart leftoverEnumeration (runStart leftoverBook)

def leftoverEntry : CycleEntry := ⟨⟨1, 2, 3⟩, 1, 2, 3, 31⟩

def leftoverEnd : CycleState := processEntry [⟨1, 2, 3⟩] leftoverStart leftoverEntry

/-- Orders 1 and 4 do not cross. -/
theorem leftover_direct :
    runDirectMatching [(1, 2)] (runStart leftoverBook) = runStart leftoverBook := by
  refine runDirectMatching_of_blocked leftoverBook_reachable.inv.inStep fun p hp => ?_
  obtain rfl := List.mem_singleton.mp hp
  rw [blocked_iff leftoverBook_reachable.inv.inStep]
  decide +kernel

/-- What the cycle fills, and what it leaves to the protocol. -/
def leftoverSim : CycleSimulation := ⟨⟨100, 110, 100, 21, 0, 10⟩, 31⟩

theorem leftoverStart_inStep : leftoverStart.book.InStep ∅ := by
  show (enumerateTriangles leftoverEnumeration leftoverBook).book.InStep ∅
  rw [(enumerateTriangles_spec leftoverBook_reachable.inv.inStep leftoverEnumeration).book]
  exact leftoverBook_reachable.inv.inStep

/-- After the cycle only orders 1 and 4 have something left. -/
theorem leftover_pair {p : Pair} {o : Order}
    (h : o ∈ leftoverStart.ledger.firstAfter (cycleFills leftoverEntry leftoverSim.fills) p) :
    p = (1, 2) ∨ p = (2, 1) := by
  obtain ⟨id, hid, hmap⟩ := List.mem_filterMap.mp (List.mem_of_find?_eq_some h)
  obtain ⟨o', ho', rfl⟩ := Option.map_eq_some_iff.mp hmap
  have hall : ∀ id ∈ leftoverStart.book.orders.keys, (leftoverStart.book.orders.lookup id).all
      (fun o => (o.deduct (cycleFills leftoverEntry leftoverSim.fills id)).isActive →
        o.pair = (1, 2) ∨ o.pair = (2, 1)) := by decide +kernel
  have hleft := hall id (Finmap.mem_keys.mpr (FiniteMap.mem_of_lookup ho'))
  rw [show leftoverStart.book.orders.lookup id = some o' from ho', Option.all_some,
    decide_eq_true_iff] at hleft
  rw [← leftoverStart_inStep.pair_eq hid ho']
  exact hleft (List.find?_some h)

theorem leftover_uncovers_nothing :
    leftoverStart.UncoversNothing (runStart leftoverBook) leftoverEntry leftoverSim.fills := by
  refine ⟨fun p hlt _ _ oX hX oY hY => ?_, fun t _ _ _ oAb hab oBc hbc oCa hca => ?_⟩
  · have hp : p = (1, 2) := by
      rcases leftover_pair hX with rfl | rfl
      · rfl
      · exact absurd hlt (by decide)
    subst hp
    have hall : ∀ oX ∈ leftoverStart.ledger.firstAfter (cycleFills leftoverEntry leftoverSim.fills)
        (1, 2), ∀ oY ∈ leftoverStart.ledger.firstAfter
          (cycleFills leftoverEntry leftoverSim.fills) (2, 1), ¬ oX.Trades oY := by
      decide +kernel
    exact hall oX hX oY hY
  · -- two pairs do not make a triangle
    have h₁ := leftover_pair hab
    have h₂ := leftover_pair hbc
    have h₃ := leftover_pair hca
    simp only [Prod.mk.injEq] at h₁ h₂ h₃
    grind

/-- Half of an order is left, and the second run is idle. -/
theorem leftover_second_run_idle :
    ∃ s p, EngineRun leftoverBook true s ∧ s.filledOrders = {1, 2, 3} ∧
      EngineRun s.book true p ∧ p.cycles = 0 ∧ p.filledOrders = ∅ := by
  have hb := leftoverBook_reachable
  have hpairs : MatchablePairs leftoverBook [(1, 2)] := ⟨by decide, by decide⟩
  have hof : leftoverEnumeration.Of (runStart leftoverBook).book :=
    ⟨by decide, by decide, by decide⟩
  have hheap : leftoverStart.heap = [leftoverEntry] := by decide +kernel
  have hpop : Poppable leftoverStart leftoverEntry := by
    rw [Poppable, hheap]
    simp
  have hsim : simulateFullCycle leftoverStart.book 1 2 3 = some leftoverSim := by decide +kernel
  have hquiet : QuietReaches (runDirectMatching [(1, 2)] (runStart leftoverBook)) leftoverEnd := by
    rw [leftover_direct]
    refine ⟨leftoverEnumeration, hof, .single ⟨.pop hpop (by decide) (by decide +kernel), ?_⟩⟩
    intro e sim _ hexec
    have he := hexec.poppable.1
    obtain rfl : e = leftoverEntry := by
      rw [show (cycleStart leftoverEnumeration (runStart leftoverBook)).heap = [leftoverEntry]
        from hheap] at he
      exact List.mem_singleton.mp he
    obtain rfl := Option.some.inj (hexec.simulated.symm.trans hsim)
    exact leftover_uncovers_nothing
  have hdone : leftoverEnd.heap = [] := by decide +kernel
  have hfirst : EngineRun leftoverBook true leftoverEnd.toProgress :=
    .triangular hpairs hquiet.reaches hdone
  obtain ⟨p, hsecond⟩ := exists_engineRun (hfirst.advance hb.inv.inStep).1
  exact ⟨leftoverEnd.toProgress, p, hfirst, by decide +kernel, hsecond,
    (second_run_idle hb hpairs hquiet.reaches hdone hsecond).1 hquiet⟩

def promotedBook : OrderBook :=
  ((((((OrderBook.new fun _ => some 1).addUserOrder 1
    (swapTerms 1 2 1 1)).addUserOrder 2 (swapTerms 1 2 100 100)).addUserOrder 3
    (swapTerms 2 3 2 1)).addUserOrder 4 (swapTerms 3 1 1 1)).addUserOrder 5
    (swapTerms 2 4 200 100)).addUserOrder 6 (swapTerms 4 1 90 100)

theorem promotedBook_reachable : promotedBook.Reachable :=
  ((((((OrderBook.Reachable.new _).addUserOrder _ _).addUserOrder _ _).addUserOrder _
    _).addUserOrder _ _).addUserOrder _ _).addUserOrder _ _

/-- Every order of the book is unfilled and exchanges two different tokens. -/
theorem promotedBook_unfilled {id : OrderId} {o : Order}
    (ho : promotedBook.orders.lookup id = some o) :
    o.requestedRemaining = o.requested ∧ o.offeredToken ≠ o.requestedToken := by
  have hall : ∀ id ∈ promotedBook.orders.keys, (promotedBook.orders.lookup id).all (fun o =>
      o.requestedRemaining = o.requested ∧ o.offeredToken ≠ o.requestedToken) := by
    decide +kernel
  have h := hall id (Finmap.mem_keys.mpr (FiniteMap.mem_of_lookup ho))
  rw [ho, Option.all_some, decide_eq_true_iff] at h
  exact h

def promotedEnumeration : Enumeration where
  tokens := [1, 2, 3, 4]
  incoming := fun t => if t = 1 then [3, 4] else if t = 2 then [1] else [2]
  outgoing := fun t => if t = 1 then [2] else if t = 2 then [3, 4] else [1]

def promotedStart : CycleState := cycleStart promotedEnumeration (runStart promotedBook)

def promotedEntry : CycleEntry := ⟨⟨1, 2, 3⟩, 1, 3, 4, 1⟩

/-- The book after its first run. -/
def promotedEnd : CycleState := processEntry [⟨1, 2, 3⟩] promotedStart promotedEntry

theorem promotedEnd_reached :
    CycleReaches (runDirectMatching [] (runStart promotedBook)) promotedEnd := by
  have hheap : promotedStart.heap = [promotedEntry] := by decide +kernel
  have hpop : Poppable promotedStart promotedEntry := by
    rw [Poppable, hheap]
    simp
  exact ⟨promotedEnumeration, ⟨by decide, by decide, by decide⟩,
    .single (.pop hpop (by decide) (by decide +kernel))⟩

/-- **A second run executes a cycle**, right after the first, on a book of unfilled orders. -/
theorem second_run_executes_cycle : promotedBook.Reachable ∧
    (∀ id o, promotedBook.orders.lookup id = some o →
      o.requestedRemaining = o.requested ∧ o.offeredToken ≠ o.requestedToken) ∧
    ∃ s p, EngineRun promotedBook true s ∧ EngineRun s.book true p ∧
      0 < p.cycles ∧ p.filledOrders ≠ ∅ := by
  have hb := promotedBook_reachable
  have hpairs : MatchablePairs promotedBook [] := ⟨by decide, by decide⟩
  have hfirst : EngineRun promotedBook true promotedEnd.toProgress :=
    .triangular hpairs promotedEnd_reached (by decide +kernel)
  have hend : (runStart promotedEnd.book).book.InStep ∅ := (hfirst.advance hb.inv.inStep).1
  obtain ⟨p, hsecond⟩ := exists_engineRun hend
  -- the second way round is worth something by now
  have hbuilds : promotedEnd.book.Builds 1 2 4 := by decide +kernel
  have hworth : Registered (runStart promotedEnd.book).ledger (Triangle.canonical 1 2 4) :=
    ⟨⟨1, 2, 4, by decide, by decide, rfl⟩,
      (OrderBook.InStep.builds_iff hend).mp hbuilds⟩
  have hbusy : p.filledOrders ≠ ∅ := by
    intro hnone
    have hsame := (hsecond.trades hend).eq_of_unfilled hnone
    exact ((hsecond.idle_iff hend).mp ⟨by rw [hsame]; rfl, hnone⟩).2 ⟨_, hworth⟩
  refine ⟨hb, fun id o ho => promotedBook_unfilled ho, promotedEnd.toProgress, p, hfirst, hsecond,
    ?_, hbusy⟩
  rcases (hsecond.trades hend).cases_tail with hsame | ⟨s, -, fills, ht⟩
  · rw [hsame] at hbusy
    exact absurd rfl hbusy
  · rw [ht.cycles]
    exact Nat.succ_pos _

end PswapSolver
