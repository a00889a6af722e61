import PswapSolver.Listing

/-! # What a run touches, and in which order

Both results are read off the trades a run consists of.

`engine_touches_only`: the recorded orders are exactly those that received something;
each was visible, both its tokens are priced, and nothing else about the orders and the
parked notes changes.

`engine_price_time_priority`: of the listing of a pair, as it was before the run, the run
touches a prefix, and all of the prefix but its last order is completely filled.  In terms
of the queue, which a run can only shorten from the front: what has left the queue is
filled, and of what is left at most the head has been touched (`Served`).
-/
namespace PswapSolver
open StableQueue

/-! ## What a run touches -/

/-- **A call of `Order::fill` with `amount` on the order `id`**: two in a match, three in
the execution of a cycle. -/
inductive FillCall : Progress → OrderId → Nat → Prop
  | matchOther {tokenA tokenB : TokenId} {s s' : Progress} (m : MatchStep tokenA tokenB s s') :
      FillCall s m.orderB.id (m.orderA.sends m.orderB)
  | matchSelf {tokenA tokenB : TokenId} {s s' : Progress} (m : MatchStep tokenA tokenB s s') :
      FillCall s m.orderA.id (m.orderA.receives m.orderB)
  | cycleAb {s : CycleState} {e : CycleEntry} {sim : CycleSimulation} (h : Executes s e sim) :
      FillCall s.toProgress e.orderAb sim.fills.fillB
  | cycleCa {s : CycleState} {e : CycleEntry} {sim : CycleSimulation} (h : Executes s e sim) :
      FillCall s.toProgress e.orderCa sim.fills.fillA
  | cycleBc {s : CycleState} {e : CycleEntry} {sim : CycleSimulation} (h : Executes s e sim) :
      FillCall s.toProgress e.orderBc sim.fills.fillC

/-- **No fill is clamped**: every call asks for something, and for no more than is left. -/
theorem FillCall.within {s : Progress} {id : OrderId} {amount : Nat} (h : FillCall s id amount)
    (hb : s.book.InStep ∅) : ∃ o, s.book.orders.lookup id = some o ∧ 0 < amount ∧
      amount ≤ o.requestedRemaining := by
  cases h with
  | matchOther m =>
    have hm := m.heads hb
    exact ⟨_, hm.lookupB, hm.trades.2.1, Order.sends_le ..⟩
  | matchSelf m =>
    have hm := m.heads hb
    exact ⟨_, hm.lookupA, hm.trades.receives_pos, Order.receives_le ..⟩
  | cycleAb hex =>
    obtain ⟨hsim⟩ := simulateFullCycle_some hex.simulated
    exact ⟨_, hsim.lookupAb, hsim.fillable.ab⟩
  | cycleCa hex =>
    obtain ⟨hsim⟩ := simulateFullCycle_some hex.simulated
    exact ⟨_, hsim.lookupCa, hsim.fillable.ca⟩
  | cycleBc hex =>
    obtain ⟨hsim⟩ := simulateFullCycle_some hex.simulated
    exact ⟨_, hsim.lookupBc, hsim.fillable.bc⟩

/-- **What is known of a recorded order**, relative to the book `b` a run started from. -/
structure Touched (b : OrderBook) (s : Progress) : Prop where
  feed : s.book.feed = b.feed
  shrinks : ∀ {id o'}, s.book.orders.lookup id = some o' → ∃ o, b.orders.lookup id = some o ∧
    o'.toOrderTerms = o.toOrderTerms ∧ o'.requestedRemaining ≤ o.requestedRemaining
  recorded : ∀ {id}, id ∈ s.filledOrders → ∃ o o', b.orders.lookup id = some o ∧
    s.book.orders.lookup id = some o' ∧ o'.requestedRemaining < o.requestedRemaining ∧
    (b.feed o.offeredToken).isSome ∧ (b.feed o.requestedToken).isSome

theorem touched_start (b : OrderBook) : Touched b (runStart b) :=
  ⟨rfl, fun h => ⟨_, h, rfl, Nat.le_refl _⟩, fun h => absurd h (Finset.notMem_empty _)⟩

/-- A trade touches visible, priced orders only. -/
theorem Touched.trade {b : OrderBook} {s s' : Progress} {fills : OrderId → Nat}
    (h : Touched b s) (ht : Trade fills s s') : Touched b s' := by
  refine ⟨ht.feed.trans h.feed, fun {id o'} ho' => ?_, fun {id} hid => ?_⟩
  · rw [ht.orders] at ho'
    obtain ⟨o₁, ho₁, rfl⟩ := Option.map_eq_some_iff.mp ho'
    obtain ⟨o, ho, hterms, hle⟩ := h.shrinks ho₁
    exact ⟨o, ho, hterms, (Nat.sub_le _ _).trans hle⟩
  · by_cases hpos : 0 < fills id
    · obtain ⟨o₁, ho₁, hle₁, -, hoffered, hrequested⟩ := ht.within hpos
      obtain ⟨o, ho, hterms, hle⟩ := h.shrinks ho₁
      refine ⟨o, o₁.deduct (fills id), ho, ?_, ?_, ?_, ?_⟩
      · rw [ht.orders, ho₁]
        rfl
      · rw [Order.deduct_requestedRemaining]
        omega
      · rw [← h.feed, ← hterms]
        exact hoffered
      · rw [← h.feed, ← hterms]
        exact hrequested
    · obtain ⟨o, o₁, ho, ho₁, hlt, hpriced⟩ :=
        h.recorded (((ht.filled id).mp hid).resolve_right hpos)
      refine ⟨o, o₁.deduct (fills id), ho, ?_, ?_, hpriced⟩
      · rw [ht.orders, ho₁]
        rfl
      · exact Nat.lt_of_le_of_lt (Nat.sub_le _ _) hlt

/-- **The engine touches only what it may.** -/
theorem engine_touches_only {b : OrderBook} (hb : b.Reachable) {triangular : Bool} {p : Progress}
    (hrun : EngineRun b triangular p) :
    (∀ id, id ∈ p.filledOrders ↔ ∃ o o', b.orders.lookup id = some o ∧
      p.book.orders.lookup id = some o' ∧ o'.requestedRemaining ≠ o.requestedRemaining) ∧
    (∀ id ∈ p.filledOrders, ∃ o o', b.orders.lookup id = some o ∧
      p.book.orders.lookup id = some o' ∧ o.isActive = true ∧ id ∉ b.parked ∧
      (b.feed o.offeredToken).isSome ∧ (b.feed o.requestedToken).isSome ∧
      o'.requestedRemaining < o.requestedRemaining) ∧
    (∀ s, Trades (runStart b) s → ∀ id amount, FillCall s id amount →
      ∃ o, s.book.orders.lookup id = some o ∧ 0 < amount ∧ amount ≤ o.requestedRemaining) ∧
    (∀ id, id ∉ p.filledOrders → p.book.orders.lookup id = b.orders.lookup id) ∧
    p.book.parked = b.parked ∧ p.book.parkQueue = b.parkQueue ∧
    (∀ id o, b.orders.lookup id = some o → ∃ o', p.book.orders.lookup id = some o' ∧
      o'.toOrderTerms = o.toOrderTerms) := by
  have hstep := hb.inv.inStep
  have hadv := (hrun.advance hstep).2
  have htouched := ((hrun.trades hstep).invariant ⟨hstep, touched_start b⟩
    fun _ h ht => h.trade ht).2
  refine ⟨fun id => ⟨fun hid => ?_, ?_⟩, fun id hid => ?_, fun s hs id amount hcall => ?_,
    fun id hid => hadv.untouched hid, hadv.parked, hadv.parkQueue, fun id o ho => ?_⟩
  · obtain ⟨o, o', ho, ho', hlt, -⟩ := htouched.recorded hid
    exact ⟨o, o', ho, ho', Nat.ne_of_lt hlt⟩
  · rintro ⟨o, o', ho, ho', hne⟩
    by_contra hid
    rw [hadv.untouched hid] at ho'
    cases ho.symm.trans ho'
    exact hne rfl
  · obtain ⟨o, o', ho, ho', hlt, hoffered, hrequested⟩ := htouched.recorded hid
    refine ⟨o, o', ho, ho', o.isActive_iff.mpr (Nat.zero_lt_of_lt hlt), ?_, hoffered, hrequested,
      hlt⟩
    exact (hadv.filled_visible hid (Finset.notMem_empty _)).2
  · exact hcall.within (hs.invariant (P := fun _ => True) ⟨hstep, trivial⟩ fun _ _ _ => trivial).1
  · obtain ⟨o', ho'⟩ := Finmap.mem_iff.mp (hadv.mem_orders.mpr (FiniteMap.mem_of_lookup ho))
    exact ⟨o', ho', (hadv.terms ho ho').1⟩

/-- The first of the two crossing orders was active and has received something. -/
theorem crossingBook_touches :
    1 ∈ (runDirectMatching [(1, 2)] (runStart crossingBook)).filledOrders ∧
    ∃ o o', crossingBook.orders.lookup 1 = some o ∧
      (runDirectMatching [(1, 2)] (runStart crossingBook)).book.orders.lookup 1 = some o' ∧
      o.isActive = true ∧ o'.requestedRemaining < o.requestedRemaining := by
  have hmem : 1 ∈ (runDirectMatching [(1, 2)] (runStart crossingBook)).filledOrders := by
    rw [crossingBook_filled]
    decide
  obtain ⟨o, o', ho, ho', hact, -, -, -, hlt⟩ :=
    (engine_touches_only crossingBook_reachable crossingBook_run).2.1 1 hmem
  exact ⟨hmem, o, o', ho, ho', hact, hlt⟩

/-! ## Price-time priority -/

/-- The order is completely filled. -/
def FilledIn (b : OrderBook) (id : OrderId) : Prop :=
  ∃ o, b.orders.lookup id = some o ∧ o.isCompletelyFilled = true

/-- **How far a queue has been served** that was `queue` at the start: `done` has left it,
filled, and of the rest at most the first was touched. -/
structure Served (queue : List OrderId) (p : Pair) (s : Progress) : Prop where
  split : ∃ done, queue = done ++ s.book.queue p ∧
    ∀ id ∈ done, id ∈ s.filledOrders ∧ FilledIn s.book id
  head : ∀ id ∈ s.book.queue p, id ∈ s.filledOrders → (s.book.queue p).head? = some id

section Trade
variable {s s' : Progress} {fills : OrderId → Nat} {p : Pair} {id : OrderId}

theorem FilledIn.trade (h : FilledIn s.book id) (ht : Trade fills s s') : FilledIn s'.book id := by
  obtain ⟨o, ho, hfull⟩ := h
  refine ⟨o.deduct (fills id), by rw [ht.orders, ho]; rfl, ?_⟩
  rw [Order.isCompletelyFilled_iff] at hfull ⊢
  rw [Order.deduct_requestedRemaining, hfull, Nat.zero_sub]

/-- Of a queue only the head trades. -/
theorem Trade.head_of_fills (ht : Trade fills s s') (hb : s.book.InStep ∅)
    (hid : id ∈ s.book.queue p) (hpos : 0 < fills id) : (s.book.queue p).head? = some id := by
  obtain ⟨o, ho, -, hhead, -⟩ := ht.within hpos
  rwa [hb.pair_eq hid ho] at hhead

/-- A queued order leaves its queue only when it is filled. -/
theorem Trade.left_queue (ht : Trade fills s s') (hb : s.book.InStep ∅)
    (hid : id ∈ s.book.queue p) (hleft : id ∉ s'.book.queue p) :
    0 < fills id ∧ FilledIn s'.book id := by
  obtain ⟨o, ho, hpair, hnp, hact⟩ := hb.mem_queue.mp hid
  have hact : o.isActive = true := hact.resolve_right (Finset.notMem_empty _)
  have ho' : s'.book.orders.lookup id = some (o.deduct (fills id)) := by
    rw [ht.orders, ho]
    rfl
  have hinactive : ¬ (o.deduct (fills id)).isActive = true := fun hact' =>
    hleft (ht.inStep.mem_queue.mpr ⟨_, ho', hpair, ht.parked ▸ hnp, Or.inl hact'⟩)
  rw [Order.isActive_iff, Nat.not_lt, Nat.le_zero] at hinactive
  rw [Order.isActive_iff] at hact
  refine ⟨?_, _, ho', (Order.isCompletelyFilled_iff _).mpr hinactive⟩
  rw [Order.deduct_requestedRemaining] at hinactive
  omega

/-- A trade takes the head out of a queue, or nothing. -/
theorem Trade.queue_eq (ht : Trade fills s s') (hb : s.book.InStep ∅) {head : OrderId}
    {rest : List OrderId} (hq : s.book.queue p = head :: rest) :
    s'.book.queue p = if head ∈ s'.book.queue p then head :: rest else rest := by
  have hnd := hb.indexed.nodup p
  rw [hq] at hnd
  have hstay : ∀ id ∈ rest, id ∈ s'.book.queue p := by
    intro id hid
    by_contra hleft
    have hmem : id ∈ s.book.queue p := hq ▸ List.mem_cons_of_mem _ hid
    have hhead := ht.head_of_fills hb hmem (ht.left_queue hb hmem hleft).1
    rw [hq] at hhead
    obtain rfl : head = id := Option.some.inj hhead
    exact (List.nodup_cons.mp hnd).1 hid
  have hfilter := sublist_eq_filter (hq ▸ ht.queue p) hnd
  have hrest : rest.filter (· ∈ s'.book.queue p) = rest :=
    List.filter_eq_self.mpr fun id hid => decide_eq_true (hstay id hid)
  rw [List.filter_cons, hrest] at hfilter
  simpa using hfilter.symm

/-- **A trade serves the head of a queue.** -/
theorem Served.trade {queue : List OrderId} (h : Served queue p s) (hb : s.book.InStep ∅)
    (ht : Trade fills s s') : Served queue p s' := by
  obtain ⟨⟨done, hsplit, hdone⟩, hhead⟩ := h
  have hdone' : ∀ id ∈ done, id ∈ s'.filledOrders ∧ FilledIn s'.book id := fun id hid =>
    ⟨(ht.filled id).mpr (Or.inl (hdone id hid).1), (hdone id hid).2.trade ht⟩
  -- whoever was touched, before or now, stood first
  have hfirst : ∀ id ∈ s.book.queue p, id ∈ s'.filledOrders →
      (s.book.queue p).head? = some id := by
    intro id hid hfilled
    rcases (ht.filled id).mp hfilled with hold | hpos
    · exact hhead id hid hold
    · exact ht.head_of_fills hb hid hpos
  cases hq : s.book.queue p with
  | nil =>
    have hnil : s'.book.queue p = [] := List.sublist_nil.mp (hq ▸ ht.queue p)
    rw [hq] at hsplit
    exact ⟨⟨done, by rw [hnil]; exact hsplit, hdone'⟩, by rw [hnil]; simp⟩
  | cons head rest =>
    have hqueue := ht.queue_eq hb hq
    by_cases hmem : head ∈ s'.book.queue p
    · rw [if_pos hmem, ← hq] at hqueue
      exact ⟨⟨done, by rw [hqueue]; exact hsplit, hdone'⟩, by rw [hqueue]; exact hfirst⟩
    · rw [if_neg hmem] at hqueue
      have hheadq : head ∈ s.book.queue p := hq ▸ List.mem_cons_self ..
      obtain ⟨hpos, hfull⟩ := ht.left_queue hb hheadq hmem
      refine ⟨⟨done ++ [head], ?_, fun id hid => ?_⟩, fun id hid hfilled => ?_⟩
      · rw [hqueue, hsplit, hq, List.append_assoc]
        rfl
      · rcases List.mem_append.mp hid with hid | hid
        · exact hdone' id hid
        · rw [List.mem_singleton.mp hid]
          exact ⟨(ht.filled head).mpr (Or.inr hpos), hfull⟩
      · -- the new head has not been touched: the old one stood before it
        rw [hqueue] at hid
        have hfirst' := hfirst id (hq ▸ List.mem_cons_of_mem _ hid) hfilled
        rw [hq] at hfirst'
        obtain rfl : head = id := Option.some.inj hfirst'
        have hnd := hb.indexed.nodup p
        rw [hq] at hnd
        exact absurd hid (List.nodup_cons.mp hnd).1

end Trade

theorem served_start (b : OrderBook) (p : Pair) : Served (b.queue p) p (runStart b) :=
  ⟨⟨[], rfl, by simp⟩, fun _ _ h => absurd h (Finset.notMem_empty _)⟩

/-- The touched ids of a served queue are a prefix, filled but for the last. -/
theorem Served.touched_first {queue : List OrderId} {p : Pair} {s : Progress} (h : Served queue p s)
    (hnd : queue.Nodup) : ∃ touched rest, queue = touched ++ rest ∧
      (∀ id ∈ touched, id ∈ s.filledOrders) ∧ (∀ id ∈ rest, id ∉ s.filledOrders) ∧
      ∀ id ∈ touched.dropLast, FilledIn s.book id := by
  obtain ⟨⟨done, hsplit, hdone⟩, hhead⟩ := h
  have huntouched : ∀ {head rest}, s.book.queue p = head :: rest → ∀ id ∈ rest,
      id ∉ s.filledOrders := by
    intro head rest hq id hid hfilled
    have hfirst := hhead id (hq ▸ List.mem_cons_of_mem _ hid) hfilled
    rw [hq] at hfirst
    obtain rfl : head = id := Option.some.inj hfirst
    rw [hsplit, hq] at hnd
    exact (List.nodup_cons.mp (hnd.sublist (List.sublist_append_right ..))).1 hid
  cases hq : s.book.queue p with
  | nil =>
    rw [hq, List.append_nil] at hsplit
    refine ⟨done, [], by rw [hsplit, List.append_nil], fun id hid => (hdone id hid).1, by simp,
      fun id hid => (hdone id (List.dropLast_subset _ hid)).2⟩
  | cons head rest =>
    rw [hq] at hsplit
    by_cases hfilled : head ∈ s.filledOrders
    · refine ⟨done ++ [head], rest, by rw [hsplit, List.append_assoc]; rfl, fun id hid => ?_,
        huntouched hq, fun id hid => ?_⟩
      · rcases List.mem_append.mp hid with hid | hid
        · exact (hdone id hid).1
        · rw [List.mem_singleton.mp hid]
          exact hfilled
      · rw [List.dropLast_concat] at hid
        exact (hdone id hid).2
    · refine ⟨done, head :: rest, hsplit, fun id hid => (hdone id hid).1, fun id hid => ?_,
        fun id hid => (hdone id (List.dropLast_subset _ hid)).2⟩
      rcases List.mem_cons.mp hid with rfl | hid
      · exact hfilled
      · exact huntouched hq id hid

/-- **Price-time priority.**  Of the listing of a pair before the run, the run touches a
prefix, and every order of the prefix but the last is completely filled. -/
theorem engine_price_time_priority {b : OrderBook} {log : List OrderId} (hlog : b.Logged log)
    {triangular : Bool} {s : Progress} (hrun : EngineRun b triangular s) (p : Pair) :
    ∃ touched rest, b.listing log p = touched ++ rest ∧
      (∀ o ∈ touched, o.id ∈ s.filledOrders) ∧ (∀ o ∈ rest, o.id ∉ s.filledOrders) ∧
      ∀ o ∈ touched.dropLast, ∃ o', s.book.orders.lookup o.id = some o' ∧
        o'.isCompletelyFilled = true := by
  have hstep := hlog.inv.inStep
  have hserved := ((hrun.trades hstep).invariant ⟨hstep, served_start b p⟩
    fun hb h ht => h.trade hb ht).2
  obtain ⟨touched, rest, hsplit, htouched, hrest, hfull⟩ :=
    hserved.touched_first (hstep.indexed.nodup p)
  have hids : (b.listing log p).map Order.id = touched ++ rest := by
    rw [← hsplit, hlog.listed.listing_eq hstep]
    exact hstep.map_id_filterMap fun _ hid => hid
  obtain ⟨touched, rest, hlist, rfl, rfl⟩ := List.map_eq_append_iff.mp hids
  refine ⟨touched, rest, hlist, fun o ho => htouched _ (List.mem_map_of_mem ho),
    fun o ho => hrest _ (List.mem_map_of_mem ho), fun o ho => hfull _ ?_⟩
  rw [← List.map_dropLast]
  exact List.mem_map_of_mem ho

/-! ### Three notes of one rate -/

/-- Notes 1, 2 and 3 offer 100 of token 1 for as many of token 2; note 4 offers 150 of token 2 for
120 of token 1. -/
def queuedBook : OrderBook :=
  ((((OrderBook.new fun _ => some 1).addUserOrder 1 (parTerms 100)).addUserOrder 2
    (parTerms 100)).addUserOrder 3 (parTerms 100)).addUserOrder 4 (swapTerms 2 1 150 120)

theorem queuedBook_reachable : queuedBook.Reachable :=
  ((((OrderBook.Reachable.new _).addUserOrder _ _).addUserOrder _ _).addUserOrder _ _).addUserOrder
    _ _

theorem queuedBook_run :
    EngineRun queuedBook false (runDirectMatching [(1, 2)] (runStart queuedBook)) :=
  .direct ⟨by decide, by decide⟩

/-- Note 4 takes note 1, and then part of note 2. -/
theorem queuedBook_filled :
    (runDirectMatching [(1, 2)] (runStart queuedBook)).filledOrders = {1, 2, 4} := by
  show (matchUserOrders 1 2 _).filledOrders = _
  rw [matchUserOrders_of_true (by decide), matchUserOrders_of_true (by decide),
    matchUserOrders_of_false (by decide)]
  decide

/-- The touched notes of pair (1, 2) are the first two of the three, and the first is filled. -/
theorem queuedBook_priority : ∃ log touched rest, queuedBook.Logged log ∧
    queuedBook.listing log (1, 2) = touched ++ rest ∧ touched.map Order.id = [1, 2] ∧
    rest.map Order.id = [3] ∧ ∀ o ∈ touched.dropLast, ∃ o',
      (runDirectMatching [(1, 2)] (runStart queuedBook)).book.orders.lookup o.id = some o' ∧
        o'.isCompletelyFilled = true := by
  obtain ⟨log, hlog⟩ := OrderBook.reachable_iff_logged.mp queuedBook_reachable
  obtain ⟨touched, rest, hlist, htouched, hrest, hfull⟩ :=
    engine_price_time_priority hlog queuedBook_run (1, 2)
  rw [queuedBook_filled] at htouched hrest
  have hids : touched.map Order.id ++ rest.map Order.id = [1, 2, 3] := by
    rw [← List.map_append, ← hlist, hlog.listed.listing_eq hlog.inv.inStep]
    decide
  -- the touched ids are those of the queue that are filled
  have hfirst : touched.map Order.id = [1, 2] := by
    have hfilter : touched.map Order.id =
        [1, 2, 3].filter (· ∈ ({1, 2, 4} : Finset OrderId)) := by
      rw [← hids, List.filter_append, List.filter_eq_self.mpr (by simpa using htouched),
        List.filter_eq_nil_iff.mpr (by simpa using hrest), List.append_nil]
    rw [hfilter]
    decide
  have hlast : rest.map Order.id = [3] := by
    rw [hfirst] at hids
    simpa using hids
  exact ⟨log, touched, rest, hlog, hlist, hfirst, hlast, hfull⟩

end PswapSolver
