import PswapSolver.Crossing
import PswapSolver.Rewriting

/-! # The ledger of a run, and the order in which pairs are matched

A run leaves more behind than anyone sees: cached best orders, empty levels, the record
of the matches.  Its `Ledger` is what is observable, together with the queues and the
feed, which decide how the run goes on.  On the ledger a trade of either phase is one
operation, `Ledger.trade`: orders are filled, filled orders leave their queues, the
protocol is credited.  Two such operations commute (`Ledger.trade_comm`).

Direct matching visits the pairs of tokens in the order of a hash set.  A match of one
pair neither enables nor prevents a match of another (`Ledger.crossed_matched_iff`), so
matching has the diamond property, and the ledgers it leads to, in which nothing can be
matched any more, are all the same (`runDirectMatching_ledger`).
-/
namespace PswapSolver
open StableQueue Relation

/-! ## Credits -/

/-- Credits an amount to a token; nothing is entered for an amount of zero. -/
def credit (balances : FiniteMap TokenId Nat) (c : TokenId × Nat) : FiniteMap TokenId Nat :=
  if c.2 = 0 then balances else balances.insert c.1 ((balances.lookup c.1).getD 0 + c.2)

theorem lookup_credit (balances : FiniteMap TokenId Nat) (c : TokenId × Nat) (t : TokenId) :
    (credit balances c).lookup t =
      if t = c.1 ∧ c.2 ≠ 0 then some ((balances.lookup t).getD 0 + c.2)
      else balances.lookup t := by
  unfold credit
  by_cases hzero : c.2 = 0
  · rw [if_pos hzero, if_neg fun h => h.2 hzero]
  · rw [if_neg hzero, FiniteMap.lookup_insert_if]
    by_cases ht : t = c.1
    · rw [if_pos ht, if_pos ⟨ht, hzero⟩, ht]
    · rw [if_neg ht, if_neg fun h => ht h.1]

instance : RightCommutative credit where
  right_comm balances c d := by
    refine Finmap.ext_lookup fun t => ?_
    simp only [lookup_credit]
    by_cases hc : t = c.1 ∧ c.2 ≠ 0
    · by_cases hd : t = d.1 ∧ d.2 ≠ 0
      · simp only [if_pos hc, if_pos hd, Option.getD_some]
        rw [Nat.add_right_comm]
      · simp only [if_pos hc, if_neg hd]
    · simp only [if_neg hc]

theorem OrderBook.addProtocolBalance_protocolBalances (b : OrderBook) (token : TokenId)
    (amount : Nat) : (b.addProtocolBalance token amount).protocolBalances =
      credit b.protocolBalances (token, amount) := by
  unfold OrderBook.addProtocolBalance credit
  split <;> rfl

/-! ## The ledger -/

/-- What a run has done so far, and what decides how it goes on. -/
@[ext]
structure Ledger where
  orders : FiniteMap OrderId Order
  queue : Pair → List OrderId
  feed : PriceFeed
  protocolBalances : FiniteMap TokenId Nat
  filledOrders : Finset OrderId
  cycles : Nat

def Progress.ledger (s : Progress) : Ledger where
  orders := s.book.orders
  queue := s.book.queue
  feed := s.book.feed
  protocolBalances := s.book.protocolBalances
  filledOrders := s.filledOrders
  cycles := s.cycles

/-- Is the order present and active? -/
def activeIn (orders : FiniteMap OrderId Order) (id : OrderId) : Bool :=
  (orders.lookup id).any Order.isActive

theorem activeIn_of_lookup {orders : FiniteMap OrderId Order} {id : OrderId} {o : Order}
    (h : orders.lookup id = some o) : activeIn orders id = o.isActive := by
  rw [activeIn, h]
  rfl

namespace Ledger
variable {L : Ledger} {fills : OrderId → Nat} {credits : List (TokenId × Nat)}

/-- The orders after everyone received their fill. -/
def fillAll (L : Ledger) (fills : OrderId → Nat) : FiniteMap OrderId Order :=
  L.orders.mapWithKey fun id o => o.deduct (fills id)

/-- **A trade on the ledger.** -/
def trade (L : Ledger) (fills : OrderId → Nat) (credits : List (TokenId × Nat)) : Ledger where
  orders := L.fillAll fills
  queue := fun p => (L.queue p).filter (activeIn (L.fillAll fills))
  feed := L.feed
  protocolBalances := credits.foldl credit L.protocolBalances
  filledOrders := L.filledOrders ∪ L.orders.keys.filter fun id => 0 < fills id
  cycles := L.cycles + 1

theorem lookup_fillAll (L : Ledger) (fills : OrderId → Nat) (id : OrderId) :
    (L.fillAll fills).lookup id = (L.orders.lookup id).map fun o => o.deduct (fills id) :=
  FiniteMap.lookup_mapWithKey ..

theorem lookup_trade (id : OrderId) : (L.trade fills credits).orders.lookup id =
    (L.orders.lookup id).map fun o => o.deduct (fills id) := L.lookup_fillAll fills id

theorem lookup_trade_of_no_fill {id : OrderId} (hno : fills id = 0) :
    (L.trade fills credits).orders.lookup id = L.orders.lookup id := by
  rw [lookup_trade, hno]
  simp only [deduct_zero, Option.map_id']

theorem keys_trade : (L.trade fills credits).orders.keys = L.orders.keys := by
  ext id
  rw [Finmap.mem_keys, Finmap.mem_keys, ← Finmap.lookup_isSome, lookup_trade, Option.isSome_map,
    Finmap.lookup_isSome]

theorem fillAll_fillAll (fills' : OrderId → Nat) :
    (L.trade fills credits).fillAll fills' = L.fillAll fun id => fills id + fills' id := by
  refine Finmap.ext_lookup fun id => ?_
  rw [lookup_fillAll, lookup_fillAll, lookup_trade, Option.map_map]
  refine congrArg (Option.map · _) (funext fun o => ?_)
  simp only [Function.comp, Order.deduct, Nat.sub_sub]

/-- Who is active after two trades was active after the first. -/
theorem activeIn_of_add {fills' : OrderId → Nat} {id : OrderId}
    (h : activeIn (L.fillAll fun id => fills id + fills' id) id = true) :
    activeIn (L.fillAll fills) id = true := by
  unfold activeIn at h ⊢
  rw [lookup_fillAll] at h ⊢
  cases hid : L.orders.lookup id with
  | none =>
    rw [hid] at h
    cases h
  | some o =>
    rw [hid] at h
    have h : 0 < o.requestedRemaining - (fills id + fills' id) := (Order.isActive_iff _).mp h
    refine (Order.isActive_iff _).mpr ?_
    rw [Order.deduct_requestedRemaining]
    omega

theorem queue_trade_trade (fills' : OrderId → Nat) (credits' : List (TokenId × Nat)) (p : Pair) :
    ((L.trade fills credits).trade fills' credits').queue p =
      (L.queue p).filter (activeIn (L.fillAll fun id => fills id + fills' id)) := by
  show ((L.queue p).filter _).filter (activeIn ((L.trade fills credits).fillAll fills')) = _
  rw [fillAll_fillAll, List.filter_filter]
  refine List.filter_congr fun id _ => ?_
  rw [Bool.and_eq_left_iff_imp]
  exact activeIn_of_add

/-- **Two trades commute.** -/
theorem trade_comm (L : Ledger) (fills fills' : OrderId → Nat)
    (credits credits' : List (TokenId × Nat)) :
    (L.trade fills credits).trade fills' credits' =
      (L.trade fills' credits').trade fills credits := by
  have hfills : (fun id => fills id + fills' id) = fun id => fills' id + fills id :=
    funext fun id => Nat.add_comm ..
  ext1
  · show (L.trade fills credits).fillAll fills' = (L.trade fills' credits').fillAll fills
    rw [fillAll_fillAll, fillAll_fillAll, hfills]
  · funext p
    rw [queue_trade_trade, queue_trade_trade, hfills]
  · rfl
  · show credits'.foldl credit (credits.foldl credit _) =
      credits.foldl credit (credits'.foldl credit _)
    rw [← List.foldl_append, ← List.foldl_append, List.perm_append_comm.foldl_eq]
  · show _ ∪ Finset.filter _ (L.trade fills credits).orders.keys =
      _ ∪ Finset.filter _ (L.trade fills' credits').orders.keys
    rw [keys_trade, keys_trade]
    exact Finset.union_right_comm ..
  · rfl

end Ledger

/-- **A trade of a run is a trade on its ledger.** -/
theorem Trade.ledger {fills : OrderId → Nat} {s s' : Progress} (ht : Trade fills s s')
    (hb : s.book.InStep ∅) {credits : List (TokenId × Nat)}
    (hcredits : s'.book.protocolBalances = credits.foldl credit s.book.protocolBalances) :
    s'.ledger = s.ledger.trade fills credits := by
  have horders : s'.book.orders = s.ledger.fillAll fills :=
    Finmap.ext_lookup fun id => (ht.orders id).trans (s.ledger.lookup_fillAll fills id).symm
  ext1
  · exact horders
  · funext p
    show s'.book.queue p = (s.book.queue p).filter (activeIn (s.ledger.fillAll fills))
    rw [← sublist_eq_filter (ht.queue p) (hb.indexed.nodup p), ← horders]
    refine List.filter_congr fun id hid => ?_
    -- a queued order stays queued exactly if it is still active
    obtain ⟨o, ho, hpair, hnp, -⟩ := hb.mem_queue.mp hid
    have ho' : s'.book.orders.lookup id = some (o.deduct (fills id)) := by
      rw [ht.orders, ho]
      rfl
    rw [activeIn_of_lookup ho', Bool.eq_iff_iff, decide_eq_true_iff, ht.inStep.mem_queue]
    constructor
    · rintro ⟨o', hlookup, -, -, hact⟩
      rw [ho'] at hlookup
      cases hlookup
      exact hact.resolve_right (Finset.notMem_empty _)
    · intro hact
      exact ⟨_, ho', hpair, ht.parked ▸ hnp, Or.inl hact⟩
  · exact ht.feed
  · exact hcredits
  · ext id
    show id ∈ s'.filledOrders ↔ _
    rw [ht.filled]
    refine Iff.trans ?_ Finset.mem_union.symm
    refine or_congr Iff.rfl ?_
    rw [Finset.mem_filter, Finmap.mem_keys]
    refine ⟨fun hpos => ?_, fun h => h.2⟩
    obtain ⟨o, ho, -⟩ := ht.within hpos
    exact ⟨FiniteMap.mem_of_lookup ho, hpos⟩
  · exact ht.cycles

/-! ## Direct matching on the ledger -/

/-- What a match credits to the protocol. -/
def matchCredits (oX oY : Order) : List (TokenId × Nat) :=
  [(oX.offeredToken, oX.offeredFor (oX.receives oY) - oX.sends oY),
    (oY.offeredToken, oY.offeredFor (oX.sends oY) - oX.receives oY)]

namespace Ledger

/-- The queued orders are active orders of the pair they are queued under. -/
def Sound (L : Ledger) : Prop :=
  ∀ p, ∀ id ∈ L.queue p, ∃ o, L.orders.lookup id = some o ∧ o.pair = p ∧ o.isActive = true

/-- The first orders of the two directions of a pair can be matched. -/
structure Crossed (L : Ledger) (p : Pair) (oX oY : Order) : Prop where
  headX : (L.queue p).head? = some oX.id
  headY : (L.queue p.swap).head? = some oY.id
  lookupX : L.orders.lookup oX.id = some oX
  lookupY : L.orders.lookup oY.id = some oY
  ne : oX.id ≠ oY.id
  priced : (L.feed p.1).isSome = true ∧ (L.feed p.2).isSome = true
  trades : oX.Trades oY

/-- The ledger after a match. -/
def matched (L : Ledger) (oX oY : Order) : Ledger :=
  L.trade (matchFills oX.id oY.id oX oY) (matchCredits oX oY)

variable {L : Ledger} {p q : Pair} {oX oY oX' oY' : Order}

theorem Crossed.unique (h : L.Crossed p oX oY) (h' : L.Crossed p oX' oY') :
    oX' = oX ∧ oY' = oY := by
  have hx : oX.id = oX'.id := Option.some.inj (h.headX.symm.trans h'.headX)
  have hy : oY.id = oY'.id := Option.some.inj (h.headY.symm.trans h'.headY)
  exact ⟨Option.some.inj (h'.lookupX.symm.trans (hx ▸ h.lookupX)),
    Option.some.inj (h'.lookupY.symm.trans (hy ▸ h.lookupY))⟩

/-- The two orders that can be matched are of the pair and of the reverse pair. -/
theorem Crossed.pairs (h : L.Crossed p oX oY) (hs : L.Sound) :
    oX.pair = p ∧ oY.pair = p.swap := by
  obtain ⟨o, ho, hpair, -⟩ := hs _ _ (List.mem_of_head? h.headX)
  obtain ⟨o', ho', hpair', -⟩ := hs _ _ (List.mem_of_head? h.headY)
  obtain rfl := Option.some.inj (h.lookupX.symm.trans ho)
  obtain rfl := Option.some.inj (h.lookupY.symm.trans ho')
  exact ⟨hpair, hpair'⟩

theorem Sound.trade (hs : L.Sound) (fills : OrderId → Nat) (credits : List (TokenId × Nat)) :
    (L.trade fills credits).Sound := by
  intro p id hid
  obtain ⟨hid, hact⟩ := List.mem_filter.mp hid
  obtain ⟨o, ho, hpair, -⟩ := hs _ _ hid
  have ho' : (L.fillAll fills).lookup id = some (o.deduct (fills id)) := by
    rw [lookup_fillAll, ho]
    rfl
  rw [activeIn_of_lookup ho'] at hact
  exact ⟨_, ho', hpair, hact⟩

/-- A queue none of whose orders trades stays as it is. -/
theorem Sound.queue_trade (hs : L.Sound) {fills : OrderId → Nat}
    (hno : ∀ id ∈ L.queue p, fills id = 0) (credits : List (TokenId × Nat)) :
    (L.trade fills credits).queue p = L.queue p := by
  refine List.filter_eq_self.mpr fun id hid => ?_
  obtain ⟨o, ho, -, hact⟩ := hs _ _ hid
  have ho' : (L.fillAll fills).lookup id = some (o.deduct (fills id)) := by
    rw [lookup_fillAll, ho]
    rfl
  rw [activeIn_of_lookup ho', hno id hid, deduct_zero]
  exact hact

/-- A match does not touch the queues of other pairs. -/
theorem Crossed.no_fill (h : L.Crossed q oX oY) (hs : L.Sound) (hne : p ≠ q) (hne' : p ≠ q.swap)
    {id : OrderId} (hid : id ∈ L.queue p) : matchFills oX.id oY.id oX oY id = 0 := by
  obtain ⟨hpX, hpY⟩ := h.pairs hs
  obtain ⟨o, ho, hpair, -⟩ := hs _ _ hid
  unfold matchFills
  rw [if_neg, if_neg]
  · rintro rfl
    obtain rfl := Option.some.inj (ho.symm.trans h.lookupY)
    exact hne' (hpair.symm.trans hpY)
  · rintro rfl
    obtain rfl := Option.some.inj (ho.symm.trans h.lookupX)
    exact hne (hpair.symm.trans hpX)

/-- A trade that leaves the orders of a pair alone neither enables nor prevents a match of it. -/
theorem Sound.crossed_trade_iff (hs : L.Sound) {fills : OrderId → Nat}
    (hno : ∀ id ∈ L.queue p, fills id = 0) (hno' : ∀ id ∈ L.queue p.swap, fills id = 0)
    (credits : List (TokenId × Nat)) {o o' : Order} :
    (L.trade fills credits).Crossed p o o' ↔ L.Crossed p o o' := by
  have hq : (L.trade fills credits).queue p = L.queue p := hs.queue_trade hno _
  have hq' : (L.trade fills credits).queue p.swap = L.queue p.swap := hs.queue_trade hno' _
  constructor
  · intro hm
    have hx := hm.headX
    have hy := hm.headY
    rw [hq] at hx
    rw [hq'] at hy
    exact ⟨hx, hy,
      (lookup_trade_of_no_fill (hno _ (List.mem_of_head? hx))).symm.trans hm.lookupX,
      (lookup_trade_of_no_fill (hno' _ (List.mem_of_head? hy))).symm.trans hm.lookupY,
      hm.ne, hm.priced, hm.trades⟩
  · intro hm
    exact ⟨hq ▸ hm.headX, hq' ▸ hm.headY,
      (lookup_trade_of_no_fill (hno _ (List.mem_of_head? hm.headX))).trans hm.lookupX,
      (lookup_trade_of_no_fill (hno' _ (List.mem_of_head? hm.headY))).trans hm.lookupY,
      hm.ne, hm.priced, hm.trades⟩

/-- **A match of one pair neither enables nor prevents a match of another.** -/
theorem crossed_matched_iff (hs : L.Sound) (h : L.Crossed q oX oY) (hne : p ≠ q)
    (hne' : p ≠ q.swap) {o o' : Order} : (L.matched oX oY).Crossed p o o' ↔ L.Crossed p o o' := by
  have hswap : p.swap ≠ q := fun e => hne' (by rw [← e, Prod.swap_swap])
  have hswap' : p.swap ≠ q.swap := fun e => hne (Prod.swap_injective e)
  exact hs.crossed_trade_iff (fun _ hid => h.no_fill hs hne hne' hid)
    (fun _ hid => h.no_fill hs hswap hswap' hid) _

/-- A match of one of the pairs. -/
def Matching (pairs : Finset Pair) (L L' : Ledger) : Prop :=
  L.Sound ∧ ∃ p ∈ pairs, ∃ oX oY, L.Crossed p oX oY ∧ L' = L.matched oX oY

/-- **Matching has the diamond property**, when every pair is listed in one direction. -/
theorem Matching.diamond {pairs : Finset Pair} (hpairs : ∀ p ∈ pairs, p.1 < p.2)
    (L L₁ L₂ : Ledger) (h₁ : Matching pairs L L₁) (h₂ : Matching pairs L L₂) :
    L₁ = L₂ ∨ ∃ L', Matching pairs L₁ L' ∧ Matching pairs L₂ L' := by
  obtain ⟨hs, p, hp, oX, oY, hcross, rfl⟩ := h₁
  obtain ⟨-, q, hq, oX', oY', hcross', rfl⟩ := h₂
  by_cases hpq : p = q
  · subst hpq
    obtain ⟨rfl, rfl⟩ := hcross.unique hcross'
    exact Or.inl rfl
  · have hswap : p ≠ q.swap := by
      rintro rfl
      exact Nat.lt_asymm (hpairs _ hp) (hpairs q hq)
    have hswap' : q ≠ p.swap := fun e => hswap (by rw [e, Prod.swap_swap])
    refine Or.inr ⟨(L.matched oX oY).matched oX' oY', ⟨hs.trade _ _, q, hq, oX', oY', ?_, rfl⟩,
      hs.trade _ _, p, hp, oX, oY, ?_, trade_comm ..⟩
    · exact (crossed_matched_iff hs hcross (Ne.symm hpq) hswap').mpr hcross'
    · exact (crossed_matched_iff hs hcross' hpq hswap).mpr hcross

end Ledger

/-! ## Direct matching is confluent -/

section Direct
variable {s s' : Progress} {tokenA tokenB : TokenId}

theorem OrderBook.InStep.ledger_sound (hb : s.book.InStep ∅) : s.ledger.Sound := by
  intro p id hid
  obtain ⟨o, ho, hpair, -, hact⟩ := hb.mem_queue.mp hid
  exact ⟨o, ho, hpair, hact.resolve_right (Finset.notMem_empty _)⟩

theorem MatchStep.crossed (m : MatchStep tokenA tokenB s s') (hb : s.book.InStep ∅) :
    s.ledger.Crossed (tokenA, tokenB) m.orderA m.orderB := by
  have h := m.heads hb
  have hpriced := m.priced
  rw [OrderBook.bothPriced, Bool.and_eq_true] at hpriced
  exact ⟨h.headA, h.headB, h.lookupA, h.lookupB, h.ne, hpriced, h.trades⟩

theorem MatchStep.ledger (m : MatchStep tokenA tokenB s s') (hb : s.book.InStep ∅) :
    s'.ledger = s.ledger.matched m.orderA m.orderB := by
  refine (m.trade hb).ledger hb ?_
  rw [(m.heads hb).book]
  simp only [OrderBook.afterMatch, OrderBook.tradedBook,
    OrderBook.cleanupIfFilled_protocolBalances, OrderBook.addProtocolBalance_protocolBalances,
    matchCredits, List.foldl_cons, List.foldl_nil]

/-- Two first orders that can be matched are matched. -/
theorem Ledger.Crossed.matchRound {p : Pair} {oX oY : Order} (h : s.ledger.Crossed p oX oY)
    (hb : s.book.InStep ∅) : (matchRound p.1 p.2 s).1 = true := by
  have hpriced : s.book.bothPriced p.1 p.2 = true := by
    rw [OrderBook.bothPriced, Bool.and_eq_true]
    exact h.priced
  exact (matchRound_of_trades hb h.headX h.headY h.lookupX h.lookupY h.ne hpriced h.trades).1

/-- No two orders of the pair can be matched. -/
def Blocked (p : Pair) (s : Progress) : Prop := ∀ oX oY, ¬ s.ledger.Crossed p oX oY

/-- The loop for a pair ends when its first orders can no longer be matched. -/
theorem matchUserOrders_blocked (hb : s.book.InStep ∅) :
    Blocked (tokenA, tokenB) (matchUserOrders tokenA tokenB s) := by
  induction hn : s.book.remaining using Nat.strong_induction_on generalizing s with
  | _ n ih =>
    obtain hstop | ⟨s', hgo, ⟨m⟩⟩ := matchRound_cases tokenA tokenB hb
    · rw [matchUserOrders_of_false (by rw [hstop]), hstop]
      intro oX oY hcross
      have hround := hcross.matchRound hb
      rw [hstop] at hround
      cases hround
    · rw [matchUserOrders_of_true (by rw [hgo]), hgo]
      exact ih _ (hn ▸ matchRound_remaining_lt hgo) (m.inStep hb) rfl

/-- After direct matching every pair visited is blocked. -/
theorem runDirectMatching_blocked {pairs : List Pair} (hnd : pairs.Nodup)
    (hpairs : ∀ p ∈ pairs, p.1 < p.2) (hb : s.book.InStep ∅) :
    ∀ p ∈ pairs, Blocked p (runDirectMatching pairs s) := by
  induction pairs generalizing s with
  | nil => exact nofun
  | cons q pairs ih =>
    obtain ⟨hq, hnd⟩ := List.nodup_cons.mp hnd
    have hpairs' : ∀ p ∈ pairs, p.1 < p.2 := fun p hp => hpairs p (List.mem_cons_of_mem _ hp)
    have hb' : (matchUserOrders q.1 q.2 s).book.InStep ∅ :=
      (matchUserOrders_induct (P := fun _ => True) (fun _ _ _ _ _ => trivial) hb trivial).1
    intro p hp
    rcases List.mem_cons.mp hp with rfl | hp
    · -- the other pairs leave it blocked
      refine (runDirectMatching_induct (P := Blocked p) (fun r hr s s' hs m hblocked => ?_) hb'
        (matchUserOrders_blocked hb)).2
      intro oX oY hcross
      rw [m.ledger hs, Ledger.crossed_matched_iff hs.ledger_sound (m.crossed hs)] at hcross
      · exact hblocked oX oY hcross
      · rintro rfl
        exact hq hr
      · rintro rfl
        exact Nat.lt_asymm (hpairs (r.1, r.2).swap (List.mem_cons_self ..)) (hpairs' r hr)
    · exact ih hnd hpairs' hb' p hp

theorem MatchablePairs.blocked {b : OrderBook} {pairs : List Pair} (h : MatchablePairs b pairs)
    (hb : b.InStep ∅) {p : Pair} (hp : p ∈ collectMatchablePairs b) :
    Blocked p (runDirectMatching pairs (runStart b)) :=
  runDirectMatching_blocked h.1 (fun _ hq => lt_of_mem_collectMatchablePairs (h.mem_iff.mp hq)) hb
    p (h.mem_iff.mpr hp)

/-- **The order in which pairs are visited does not matter.** -/
theorem runDirectMatching_ledger {b : OrderBook} (hb : b.InStep ∅) {pairs pairs' : List Pair}
    (h : MatchablePairs b pairs) (h' : MatchablePairs b pairs') :
    (runDirectMatching pairs (runStart b)).ledger =
      (runDirectMatching pairs' (runStart b)).ledger := by
  have hlt : ∀ p ∈ collectMatchablePairs b, p.1 < p.2 :=
    fun p hp => lt_of_mem_collectMatchablePairs hp
  have hrun : ∀ {pairs}, MatchablePairs b pairs →
      ReflTransGen (Ledger.Matching (collectMatchablePairs b)) (runStart b).ledger
        (runDirectMatching pairs (runStart b)).ledger ∧
      ∀ L, ¬ Ledger.Matching (collectMatchablePairs b)
        (runDirectMatching pairs (runStart b)).ledger L := by
    intro pairs hp
    refine ⟨(runDirectMatching_induct (P := fun s =>
        ReflTransGen (Ledger.Matching (collectMatchablePairs b)) (runStart b).ledger s.ledger)
        (fun p hmem s s' hs m hreach => ?_) hb .refl).2, ?_⟩
    · exact hreach.tail ⟨hs.ledger_sound, p, hp.mem_iff.mp hmem, _, _, m.crossed hs, m.ledger hs⟩
    · rintro L ⟨-, p, hmatch, oX, oY, hcross, -⟩
      exact hp.blocked hb hmatch oX oY hcross
  exact Rewriting.eq_of_diamond (Ledger.Matching.diamond hlt) (hrun h).1 (hrun h').1 (hrun h).2
    (hrun h').2

end Direct

end PswapSolver
