import PswapSolver.Crossing
import Mathlib.Data.List.TakeWhile

/-! # The verdict of the swap API

The model of `eval_can_fill` in `swap_eta.rs`.  A client asks whether an order it has not
placed yet could be filled now; the API answers from the best level of the opposite pair:
the order crosses the level's rate and the level holds enough volume.

The matcher takes the orders of the level one after the other.  As long as a resting order
offers no more than the new order still requests, it is taken whole (`Order.deals_whole`).
The last one is taken in part, and there both releases are rounded down.  The new order is
completely filled iff what it releases for that last piece still pays for the piece at the
rate of the level (`Turn.filledIn_iff`); the verdict does not look at this.

A pair of tokens is visited smaller token first, so the new order is `self` in `match_with`
or `other`, depending on the two tokens.  The two cases round at different places and come
to the same condition.
-/
namespace PswapSolver
open StableQueue

/-- Can an order offering `offeredA` of token A and requesting `requestedB` of token B fill
against `best`, the top level of the opposite pair? -/
def evalCanFill (offeredA requestedB : Nat) (best : Option OrderBook.BestLevel) : Bool :=
  match best with
  | none => false
  | some best =>
    let cross := decide (requestedB * best.rate.requested < offeredA * best.rate.offered)
    cross && decide (requestedB ≤ best.volume)

/-- The last piece of `wanted` when the orders are taken one after the other, all but the
last of them whole. -/
def lastPiece (wanted : Nat) : List Order → Nat
  | [] => wanted
  | o :: os => if wanted ≤ o.offered then wanted else lastPiece (wanted - o.offered) os

/-- What an order on these terms releases for a piece of what it requests pays for the piece
at the rate. -/
def OrderTerms.PaysFor (terms : OrderTerms) (rate : RateKey) (piece : Nat) : Prop :=
  rate.requested * piece ≤ rate.offered * (terms.offered * piece / terms.requested)

instance (terms : OrderTerms) (rate : RateKey) (piece : Nat) :
    Decidable (terms.PaysFor rate piece) :=
  inferInstanceAs (Decidable (_ ≤ _))

/-! ## A new order meets a resting one -/

namespace Order
variable {n q : Order}

/-- The order has the rate. -/
def HasRate (q : Order) (rate : RateKey) : Prop :=
  q.requested * rate.offered = rate.requested * q.offered

theorem HasRate.crosses {rate : RateKey} (h : q.HasRate rate)
    (hcross : n.requested * rate.requested < n.offered * rate.offered) : n.Crosses q := by
  refine Nat.lt_of_mul_lt_mul_left (a := rate.offered) ?_
  calc rate.offered * (n.requested * q.requested)
      = n.requested * (q.requested * rate.offered) := by ring
    _ = n.requested * rate.requested * q.offered := by rw [h]; ring
    _ < n.offered * rate.offered * q.offered := Nat.mul_lt_mul_of_pos_right hcross q.offered_pos
    _ = rate.offered * (n.offered * q.offered) := by ring

/-- At the rate of `q`, what `n` still offers pays for what it still requests. -/
def Covers (n q : Order) : Prop :=
  q.requested * n.requestedRemaining ≤ q.offered * n.offeredRemaining

theorem HasRate.covers_iff {rate : RateKey} (h : q.HasRate rate) :
    n.Covers q ↔ n.toOrderTerms.PaysFor rate n.requestedRemaining := by
  unfold Covers OrderTerms.PaysFor
  rw [offeredRemaining, n.offeredFor_eq n.remaining_le]
  generalize n.offered * n.requestedRemaining / n.requested = release
  have hleft : q.requested * n.requestedRemaining * rate.offered =
      q.offered * (rate.requested * n.requestedRemaining) := by
    rw [Nat.mul_right_comm, h]
    ring
  have hright : q.offered * release * rate.offered = q.offered * (rate.offered * release) := by
    ring
  rw [← Nat.mul_le_mul_right_iff rate.offered_pos, hleft, hright,
    Nat.mul_le_mul_left_iff q.offered_pos]

/-- For all that `q` offers, a crossing order releases at least what `q` requests. -/
theorem Crosses.pays_whole (h : n.Crosses q) (hle : q.offered ≤ n.requestedRemaining) :
    q.requested ≤ n.offeredFor q.offered :=
  h.symm.le_offeredFor (hle.trans n.remaining_le)

theorem whole_of_self (hq : q.Unfilled) (h : n.Crosses q) (hle : q.offered ≤ n.requestedRemaining) :
    n.Trades q ∧ n.receives q = q.offered ∧ n.sends q = q.requested := by
  have hpays := h.pays_whole hle
  have hleft : q.requested ≤ n.offeredRemaining :=
    hpays.trans (n.offeredFor_mono hle n.remaining_le)
  have hsends : n.sends q = q.requested := by
    rw [sends, hq, Nat.min_eq_right hleft]
  have hreceives : n.receives q = q.offered := by
    rw [receives, hsends, offeredFor_requested, Nat.min_eq_left hle]
  refine ⟨⟨⟨?_, hq.isActive, isProfitableWith_iff.mpr h⟩, ?_, ?_, ?_⟩, hreceives, hsends⟩
  · exact n.isActive_iff.mpr (Nat.lt_of_lt_of_le q.offered_pos hle)
  · rw [hsends]
    exact q.requested_pos
  · rw [hsends, offeredFor_requested]
    exact q.offered_pos
  · rw [hsends, hreceives]
    exact hpays

theorem whole_of_other (hq : q.Unfilled) (h : n.Crosses q)
    (hle : q.offered ≤ n.requestedRemaining) :
    q.Trades n ∧ q.sends n = q.offered ∧ q.receives n = q.requested := by
  have hpays := h.pays_whole hle
  have hsends : q.sends n = q.offered := by
    rw [sends, hq.offeredRemaining, Nat.min_eq_left hle]
  have hreceives : q.receives n = q.requested := by
    rw [receives, hsends, hq, Nat.min_eq_right hpays]
  refine ⟨⟨⟨hq.isActive, ?_, isProfitableWith_iff.mpr h.symm⟩, ?_, ?_, ?_⟩, hsends, hreceives⟩
  · exact n.isActive_iff.mpr (Nat.lt_of_lt_of_le q.offered_pos hle)
  · rw [hsends]
    exact q.offered_pos
  · rw [hsends]
    exact Nat.lt_of_lt_of_le q.requested_pos hpays
  · rw [hsends, hreceives, offeredFor_requested]

section Last
variable (hq : q.Unfilled) (h : n.Crosses q) (hact : 0 < n.requestedRemaining)
  (hlt : n.requestedRemaining < q.offered)

/-- Capping what `n` sends at what `q` requests does not matter for the last piece. -/
theorem covers_iff_min (hlt : n.requestedRemaining < q.offered) :
    n.Covers q ↔ n.requestedRemaining ≤ q.offeredFor (min n.offeredRemaining q.requested) := by
  rw [q.le_offeredFor_iff (Nat.min_le_right _ _), Covers, Nat.mul_comm q.requested]
  rcases Nat.le_total n.offeredRemaining q.requested with hle | hle
  · rw [Nat.min_eq_left hle]
  · rw [Nat.min_eq_right hle]
    have hwhole : n.requestedRemaining * q.requested ≤ q.offered * q.requested :=
      Nat.mul_le_mul_right _ hlt.le
    exact iff_of_true (hwhole.trans (Nat.mul_le_mul_left _ hle)) hwhole

include hq h hact hlt

theorem last_of_self (hcovers : n.Covers q) :
    n.Trades q ∧ n.receives q = n.requestedRemaining := by
  have hsends : n.sends q = min n.offeredRemaining q.requested := by
    rw [sends, hq]
  have hreleases : n.requestedRemaining ≤ q.offeredFor (n.sends q) := by
    rw [hsends]
    exact (covers_iff_min hlt).mp hcovers
  have hreceives : n.receives q = n.requestedRemaining := by
    rw [receives, Nat.min_eq_right hreleases]
  refine ⟨⟨⟨n.isActive_iff.mpr hact, hq.isActive, isProfitableWith_iff.mpr h⟩, ?_,
    Nat.lt_of_lt_of_le hact hreleases, ?_⟩, hreceives⟩
  · -- nothing sent releases nothing
    refine Nat.pos_of_ne_zero fun hzero => ?_
    rw [hzero, offeredFor_zero] at hreleases
    exact Nat.not_lt.mpr hreleases hact
  · rw [hreceives, hsends]
    exact Nat.min_le_left _ _

theorem last_of_other (hcovers : n.Covers q) :
    q.Trades n ∧ q.sends n = n.requestedRemaining := by
  have hsends : q.sends n = n.requestedRemaining := by
    rw [sends, hq.offeredRemaining, Nat.min_eq_right hlt.le]
  have hreceives : q.receives n = min n.offeredRemaining q.requested := by
    rw [receives, hsends, hq, offeredRemaining]
  have hreleases := (covers_iff_min hlt).mp hcovers
  refine ⟨⟨⟨hq.isActive, n.isActive_iff.mpr hact, isProfitableWith_iff.mpr h.symm⟩, ?_, ?_, ?_⟩,
    hsends⟩
  · rw [hsends]
    exact hact
  · rw [hsends]
    refine Nat.pos_of_ne_zero fun hzero => ?_
    rw [offeredRemaining, hzero, Nat.zero_min, offeredFor_zero] at hreleases
    exact Nat.not_lt.mpr hreleases hact
  · rw [hsends, hreceives]
    exact hreleases

omit h hact in
/-- As `self`, an order that does not cover its last piece spends all it still offers on less
than the piece, if it trades at all. -/
theorem stranded_of_self (hcovers : ¬ n.Covers q) (htrades : n.Trades q) :
    n.receives q < n.requestedRemaining ∧ (n.deduct (n.receives q)).offeredRemaining = 0 := by
  rw [covers_iff_min hlt, Nat.not_le] at hcovers
  have hsends : n.sends q = min n.offeredRemaining q.requested := by
    rw [sends, hq]
  rw [← hsends] at hcovers
  have hreceives : n.receives q = q.offeredFor (n.sends q) :=
    Nat.min_eq_left hcovers.le
  have hall : n.sends q = n.offeredRemaining := by
    rw [hsends]
    refine Nat.min_eq_left (Nat.le_of_not_lt fun hmore => ?_)
    rw [hsends, Nat.min_eq_right hmore.le, offeredFor_requested] at hcovers
    exact Nat.lt_asymm hlt hcovers
  refine ⟨hreceives ▸ hcovers, ?_⟩
  -- the two pieces release no more than all at once, and the first releases all
  have hsplit : n.receives q + (n.requestedRemaining - n.receives q) = n.requestedRemaining :=
    Nat.add_sub_cancel' (receives_le n q)
  have hround := n.offeredFor_add_le (f := n.receives q)
    (g := n.requestedRemaining - n.receives q) (hsplit.le.trans n.remaining_le)
  have hcover := htrades.2.2.2
  rw [hsplit, ← offeredRemaining] at hround
  rw [hall] at hcover
  show n.offeredFor (n.requestedRemaining - n.receives q) = 0
  omega

omit h hact in
/-- As `other`, an order that does not cover its last piece is refused. -/
theorem refused_of_other (hcovers : ¬ n.Covers q) : ¬ q.Trades n := by
  intro htrades
  have hsends : q.sends n = n.requestedRemaining := by
    rw [sends, hq.offeredRemaining, Nat.min_eq_right hlt.le]
  have hcover := htrades.2.2.2
  rw [receives, hsends, hq, ← offeredRemaining] at hcover
  exact hcovers ((covers_iff_min hlt).mpr hcover)

end Last

/-! ### Whichever of the two is `self` -/

/-- The new order `n` and the resting order `q` trade when the pair `p` is visited. -/
def Deals (p : Pair) (n q : Order) : Prop := if n.pair = p then n.Trades q else q.Trades n

/-- What the new order receives. -/
def gains (p : Pair) (n q : Order) : Nat := if n.pair = p then n.receives q else q.sends n

/-- What the resting order receives. -/
def pays (p : Pair) (n q : Order) : Nat := if n.pair = p then n.sends q else q.receives n

variable (p : Pair)

/-- **A resting order that offers no more than is wanted is taken whole.** -/
theorem deals_whole (hq : q.Unfilled) (h : n.Crosses q) (hle : q.offered ≤ n.requestedRemaining) :
    Deals p n q ∧ gains p n q = q.offered ∧ pays p n q = q.requested := by
  unfold Deals gains pays
  split
  · exact whole_of_self hq h hle
  · exact whole_of_other hq h hle

/-- **The last piece is taken if it is covered.** -/
theorem deals_last (hq : q.Unfilled) (h : n.Crosses q) (hact : 0 < n.requestedRemaining)
    (hlt : n.requestedRemaining < q.offered) (hcovers : n.Covers q) :
    Deals p n q ∧ gains p n q = n.requestedRemaining := by
  unfold Deals gains
  split
  · exact last_of_self hq h hact hlt hcovers
  · exact last_of_other hq h hact hlt hcovers

/-- **If it is not covered, the order is left with something to receive and nothing to
release for it**, if it trades at all. -/
theorem deals_stranded (hq : q.Unfilled) (hlt : n.requestedRemaining < q.offered)
    (hcovers : ¬ n.Covers q) (hdeals : Deals p n q) :
    gains p n q < n.requestedRemaining ∧ (n.deduct (gains p n q)).offeredRemaining = 0 := by
  by_cases hp : n.pair = p
  · rw [Deals, if_pos hp] at hdeals
    rw [gains, if_pos hp]
    exact stranded_of_self hq hlt hcovers hdeals
  · rw [Deals, if_neg hp] at hdeals
    exact absurd hdeals (refused_of_other hq hlt hcovers)

end Order

/-! ## The turn of the pair -/

theorem MatchedHeads.eq_of_heads {p : Pair} {s s' : Progress} {orderA orderB x y : Order}
    (h : MatchedHeads p.1 p.2 s s' orderA orderB)
    (hx : (s.book.queue p).head? = some x.id) (hy : (s.book.queue p.swap).head? = some y.id)
    (hlx : s.book.orders.lookup x.id = some x) (hly : s.book.orders.lookup y.id = some y) :
    orderA = x ∧ orderB = y := by
  have hA : orderA.id = x.id := Option.some.inj (h.headA.symm.trans hx)
  have hB : orderB.id = y.id := Option.some.inj (h.headB.symm.trans hy)
  constructor
  · exact Option.some.inj (h.lookupA.symm.trans (hA ▸ hlx))
  · exact Option.some.inj (h.lookupB.symm.trans (hB ▸ hly))

/-- **The loop at two heads**: they trade and the loop goes on, or it ends. -/
theorem matchUserOrders_heads {p : Pair} {s : Progress} (hb : s.book.InStep ∅) {x y : Order}
    (hx : (s.book.queue p).head? = some x.id) (hy : (s.book.queue p.swap).head? = some y.id)
    (hlx : s.book.orders.lookup x.id = some x) (hly : s.book.orders.lookup y.id = some y)
    (hne : x.id ≠ y.id) (hpriced : s.book.bothPriced p.1 p.2 = true) :
    (¬ x.Trades y ∧ matchUserOrders p.1 p.2 s = s) ∨
    (x.Trades y ∧ ∃ s', matchUserOrders p.1 p.2 s = matchUserOrders p.1 p.2 s' ∧
      Trade (matchFills x.id y.id x y) s s') := by
  obtain hstop | ⟨s', hgo, ⟨m⟩⟩ := matchRound_cases p.1 p.2 hb
  · refine Or.inl ⟨fun htrades => ?_, ?_⟩
    · have hgo := (matchRound_of_trades hb hx hy hlx hly hne hpriced htrades).1
      rw [hstop] at hgo
      cases hgo
    · rw [matchUserOrders_of_false (by rw [hstop]), hstop]
  · have hheads := m.heads hb
    have htrade := m.trade hb
    obtain ⟨hA, hB⟩ := hheads.eq_of_heads hx hy hlx hly
    rw [hA, hB] at htrade
    refine Or.inr ⟨hA ▸ hB ▸ hheads.trades, s', ?_, htrade⟩
    rw [matchUserOrders_of_true (by rw [hgo]), hgo]

/-- **The turn of the pair `p` has come**: `n` is the only order of its direction, and
`resting` are those of the opposite one. -/
structure Turn (p : Pair) (s : Progress) (n : Order) (resting : List Order) : Prop where
  inStep : s.book.InStep ∅
  distinct : p.1 ≠ p.2
  side : n.pair = p ∨ n.pair = p.swap
  priced : s.book.bothPriced p.1 p.2 = true
  taker : s.book.queue n.pair = [n.id]
  lookup : s.book.orders.lookup n.id = some n
  makers : s.book.queue n.pair.swap = resting.map Order.id
  lookups : ∀ q ∈ resting, s.book.orders.lookup q.id = some q

namespace Turn
variable {p : Pair} {s s' : Progress} {n q : Order} {resting : List Order}

theorem pair_ne_swap (h : Turn p s n resting) : n.pair ≠ n.pair.swap := by
  intro he
  have htokens : n.pair.1 = n.pair.2 := congrArg Prod.fst he
  rcases h.side with hp | hp
  · exact h.distinct (hp ▸ htokens)
  · rw [hp] at htokens
    exact h.distinct htokens.symm

theorem lookup_head (h : Turn p s n (q :: resting)) : s.book.orders.lookup q.id = some q :=
  h.lookups q (List.mem_cons_self ..)

theorem head_pair (h : Turn p s n (q :: resting)) : q.pair = n.pair.swap :=
  h.inStep.pair_eq (h.makers ▸ List.mem_cons_self ..) h.lookup_head

theorem ids_ne (h : Turn p s n (q :: resting)) : q.id ≠ n.id := by
  intro he
  have hlookup := h.lookup_head
  rw [he, h.lookup] at hlookup
  cases hlookup
  exact h.pair_ne_swap h.head_pair

/-- **What a round does in the turn of the pair**: the two orders deal, or the loop ends. -/
theorem round (h : Turn p s n (q :: resting)) :
    (¬ Order.Deals p n q ∧ matchUserOrders p.1 p.2 s = s) ∨
    (Order.Deals p n q ∧ ∃ s' fills,
      matchUserOrders p.1 p.2 s = matchUserOrders p.1 p.2 s' ∧ Trade fills s s' ∧
      fills n.id = Order.gains p n q ∧ fills q.id = Order.pays p n q) := by
  have htaker : (s.book.queue n.pair).head? = some n.id := by
    rw [h.taker]
    rfl
  have hmaker : (s.book.queue n.pair.swap).head? = some q.id := by
    rw [h.makers]
    rfl
  by_cases hp : n.pair = p
  · rw [Order.Deals, if_pos hp, Order.gains, if_pos hp, Order.pays, if_pos hp]
    rw [hp] at htaker hmaker
    refine (matchUserOrders_heads h.inStep htaker hmaker h.lookup h.lookup_head h.ids_ne.symm
      h.priced).imp_right ?_
    rintro ⟨htrades, s', hloop, htrade⟩
    refine ⟨htrades, s', _, hloop, htrade, if_pos rfl, ?_⟩
    rw [matchFills, if_neg h.ids_ne, if_pos rfl]
  · have hswap := h.side.resolve_left hp
    rw [Order.Deals, if_neg hp, Order.gains, if_neg hp, Order.pays, if_neg hp]
    rw [hswap] at htaker
    rw [hswap, Prod.swap_swap] at hmaker
    refine (matchUserOrders_heads h.inStep hmaker htaker h.lookup_head h.lookup h.ids_ne
      h.priced).imp_right ?_
    rintro ⟨htrades, s', hloop, htrade⟩
    refine ⟨htrades, s', _, hloop, htrade, ?_, if_pos rfl⟩
    rw [matchFills, if_neg h.ids_ne.symm, if_pos rfl]

/-- When the resting order is filled and the new one is not, the next resting order is up. -/
theorem next (h : Turn p s n (q :: resting)) {fills : OrderId → Nat} (ht : Trade fills s s')
    (hq : q.requestedRemaining ≤ fills q.id) (hn : fills n.id < n.requestedRemaining) :
    Turn p s' (n.deduct (fills n.id)) resting := by
  have hmakers := h.makers
  rw [List.map_cons] at hmakers
  have hnd := h.inStep.indexed.nodup n.pair.swap
  rw [hmakers] at hnd
  -- of the resting orders only the first traded
  have hrest : ∀ o ∈ resting, fills o.id = 0 := by
    intro o ho
    have hmem : o.id ∈ s.book.queue n.pair.swap := by
      rw [hmakers]
      exact List.mem_cons_of_mem _ (List.mem_map_of_mem ho)
    refine Nat.eq_zero_of_not_pos fun hpos => ?_
    have hhead := ht.head_of_fills h.inStep hmem hpos
    rw [hmakers] at hhead
    have he : q.id = o.id := Option.some.inj hhead
    exact (List.nodup_cons.mp hnd).1 (he ▸ List.mem_map_of_mem ho)
  have hlookup : s'.book.orders.lookup n.id = some (n.deduct (fills n.id)) := by
    rw [ht.orders, h.lookup]
    rfl
  have hlookupQ : s'.book.orders.lookup q.id = some (q.deduct (fills q.id)) := by
    rw [ht.orders, h.lookup_head]
    rfl
  have hleaves : q.id ∉ s'.book.queue n.pair.swap := by
    intro hmem
    obtain ⟨o, ho, hact, -⟩ := ht.inStep.active_of_queued hmem
    cases hlookupQ.symm.trans ho
    rw [Order.isActive_iff, Order.deduct_requestedRemaining] at hact
    omega
  have hstays : n.id ∈ s'.book.queue n.pair := by
    obtain ⟨-, -, -, hnp, -⟩ := h.inStep.mem_queue.mp (h.taker ▸ List.mem_singleton_self n.id)
    refine ht.inStep.mem_queue.mpr ⟨_, hlookup, rfl, ht.parked ▸ hnp, Or.inl ?_⟩
    rw [Order.isActive_iff, Order.deduct_requestedRemaining]
    omega
  refine ⟨ht.inStep, h.distinct, h.side, ?_, ?_, hlookup, ?_, fun o ho => ?_⟩
  · rw [OrderBook.bothPriced, ht.feed]
    exact h.priced
  · have hqueue := ht.queue_eq h.inStep h.taker
    rw [if_pos hstays] at hqueue
    exact hqueue
  · have hqueue := ht.queue_eq h.inStep hmakers
    rw [if_neg hleaves] at hqueue
    exact hqueue
  · rw [ht.lookup_of_no_fill (hrest o ho)]
    exact h.lookups o (List.mem_cons_of_mem _ ho)

end Turn

/-- An order that can release nothing does not trade. -/
theorem Order.Trades.offeredRemaining_pos {x y : Order} (h : x.Trades y) :
    0 < x.offeredRemaining ∧ 0 < y.offeredRemaining := by
  refine ⟨Nat.lt_of_lt_of_le h.2.1 (Nat.min_le_left _ _), Nat.lt_of_lt_of_le h.2.2.1 ?_⟩
  exact y.offeredFor_mono (x.sends_le y) y.remaining_le

/-- **An order that can release nothing is not touched by direct matching.** -/
theorem MatchStep.lookup_of_spent {tokenA tokenB : TokenId} {s s' : Progress}
    (m : MatchStep tokenA tokenB s s') (hb : s.book.InStep ∅) {n : Order}
    (hlookup : s.book.orders.lookup n.id = some n) (hspent : n.offeredRemaining = 0) :
    s'.book.orders.lookup n.id = some n := by
  have hheads := m.heads hb
  obtain ⟨hA, hB⟩ := hheads.trades.offeredRemaining_pos
  rw [(m.trade hb).lookup_of_no_fill, hlookup]
  unfold matchFills
  rw [if_neg, if_neg]
  · intro he
    rw [he, hheads.lookupB] at hlookup
    cases hlookup
    omega
  · intro he
    rw [he, hheads.lookupA] at hlookup
    cases hlookup
    omega

theorem matchUserOrders_lookup_of_spent (tokenA tokenB : TokenId) {s : Progress}
    (hb : s.book.InStep ∅) {n : Order} (hlookup : s.book.orders.lookup n.id = some n)
    (hspent : n.offeredRemaining = 0) :
    (matchUserOrders tokenA tokenB s).book.orders.lookup n.id = some n :=
  (matchUserOrders_induct (P := fun s => s.book.orders.lookup n.id = some n)
    (fun _ _ hs m hl => m.lookup_of_spent hs hl hspent) hb hlookup).2

theorem matchUserOrders_filledIn {tokenA tokenB : TokenId} {s : Progress} (hb : s.book.InStep ∅)
    {id : OrderId} (h : FilledIn s.book id) :
    FilledIn (matchUserOrders tokenA tokenB s).book id :=
  (matchUserOrders_induct (P := fun s => FilledIn s.book id)
    (fun _ _ hs m h => h.trade (m.trade hs)) hb h).2

theorem not_filledIn_of_lookup {b : OrderBook} {n : Order} (h : b.orders.lookup n.id = some n)
    (hact : 0 < n.requestedRemaining) : ¬ FilledIn b n.id := by
  rintro ⟨o, ho, hfull⟩
  cases h.symm.trans ho
  rw [Order.isCompletelyFilled_iff] at hfull
  omega

/-- **The last order of the level decides.** -/
theorem Turn.filledIn_iff_covers {p : Pair} {s : Progress} {n q : Order} {resting : List Order}
    (h : Turn p s n (q :: resting)) (hq : q.Unfilled) (hcross : n.Crosses q)
    (hact : 0 < n.requestedRemaining) (hlt : n.requestedRemaining < q.offered) :
    FilledIn (matchUserOrders p.1 p.2 s).book n.id ↔ n.Covers q := by
  have hafter : ∀ {s' fills}, Trade fills s s' → s'.book.orders.lookup n.id =
      some (n.deduct (fills n.id)) := fun ht => by
    rw [ht.orders, h.lookup]
    rfl
  constructor
  · intro hfilled
    by_contra hcovers
    rcases h.round with ⟨-, hloop⟩ | ⟨hdeals, s', fills, hloop, ht, hgains, -⟩
    · rw [hloop] at hfilled
      exact not_filledIn_of_lookup h.lookup hact hfilled
    · -- after one more trade nothing is left to release
      obtain ⟨hless, hspent⟩ := Order.deals_stranded p hq hlt hcovers hdeals
      rw [← hgains] at hless hspent
      have hstays := matchUserOrders_lookup_of_spent p.1 p.2 ht.inStep (hafter ht) hspent
      rw [hloop] at hfilled
      refine not_filledIn_of_lookup hstays ?_ hfilled
      rw [Order.deduct_requestedRemaining]
      omega
  · intro hcovers
    obtain ⟨hdeals, hall⟩ := Order.deals_last p hq hcross hact hlt hcovers
    rcases h.round with ⟨hno, -⟩ | ⟨-, s', fills, hloop, ht, hgains, -⟩
    · exact absurd hdeals hno
    · rw [hloop]
      refine matchUserOrders_filledIn ht.inStep ⟨_, hafter ht, ?_⟩
      rw [Order.isCompletelyFilled_iff, Order.deduct_requestedRemaining, hgains, hall, Nat.sub_self]

/-- The whole of a resting order is a piece that is paid for. -/
theorem Order.Crosses.paysFor_whole {n q : Order} {rate : RateKey} (h : n.Crosses q)
    (hrate : q.HasRate rate) (hle : q.offered ≤ n.requested) :
    n.toOrderTerms.PaysFor rate q.offered := by
  have hpays := h.symm.le_offeredFor hle
  rw [n.offeredFor_eq hle] at hpays
  unfold OrderTerms.PaysFor
  rw [← hrate, Nat.mul_comm q.requested]
  exact Nat.mul_le_mul_left _ hpays

/-- **A new order against a level that holds enough is completely filled iff its last piece
is paid for.** -/
theorem Turn.filledIn_iff {p : Pair} {rate : RateKey} {rest : List Order} :
    ∀ {level : List Order} {s : Progress} {n : Order}, Turn p s n (level ++ rest) →
      0 < n.requestedRemaining →
      (∀ q ∈ level, q.Unfilled ∧ q.HasRate rate ∧ n.Crosses q) →
      n.requestedRemaining ≤ (level.map fun q => q.offered).sum →
      (FilledIn (matchUserOrders p.1 p.2 s).book n.id ↔
        n.toOrderTerms.PaysFor rate (lastPiece n.requestedRemaining (level ++ rest)))
  | [], _, n, _, hact, _, hvolume => absurd hvolume (Nat.not_le.mpr hact)
  | q :: level, s, n, h, hact, hlevel, hvolume => by
    obtain ⟨hq, hrate, hcross⟩ := hlevel q (List.mem_cons_self ..)
    rw [List.map_cons, List.sum_cons] at hvolume
    rw [List.cons_append] at h
    rw [List.cons_append, lastPiece]
    rcases Nat.lt_or_ge n.requestedRemaining q.offered with hlt | hle
    · rw [if_pos hlt.le, h.filledIn_iff_covers hq hcross hact hlt]
      exact hrate.covers_iff
    -- the resting order is taken whole
    obtain ⟨hdeals, hgains, hpays⟩ := Order.deals_whole p hq hcross hle
    rcases h.round with ⟨hno, -⟩ | ⟨-, s', fills, hloop, ht, hn, hfills⟩
    · exact absurd hdeals hno
    rw [hgains] at hn
    rw [hpays] at hfills
    rw [hloop]
    rcases Nat.eq_or_lt_of_le hle with heq | hmore
    · -- and was all that was wanted
      rw [if_pos heq.ge, ← heq]
      refine iff_of_true (matchUserOrders_filledIn ht.inStep
        ⟨n.deduct (fills n.id), ?_, ?_⟩) (hcross.paysFor_whole hrate (hle.trans n.remaining_le))
      · rw [ht.orders, h.lookup]
        rfl
      · rw [Order.isCompletelyFilled_iff, Order.deduct_requestedRemaining, hn, heq, Nat.sub_self]
    · rw [if_neg (Nat.not_le.mpr hmore)]
      have hnext := h.next ht (by rw [hfills, hq]) (by rw [hn]; exact hmore)
      rw [hn] at hnext
      exact hnext.filledIn_iff (Nat.sub_pos_of_lt hmore)
        (fun o ho => hlevel o (List.mem_cons_of_mem _ ho)) (Nat.sub_le_iff_le_add'.mpr hvolume)

/-! ## The whole run -/

theorem filledIn_congr {b b' : OrderBook} {id : OrderId}
    (h : b'.orders.lookup id = b.orders.lookup id) : FilledIn b' id ↔ FilledIn b id := by
  unfold FilledIn
  rw [h]

/-- The pairs visited before leave the turn of the pair as it was at the start. -/
theorem Turn.of_unserved {p : Pair} {b : OrderBook} {s : Progress} {n : Order}
    {resting : List Order} (h : Turn p (runStart b) n resting) (hs : s.book.InStep ∅)
    (hunserved : Unserved b p s) : Turn p s n resting := by
  have hqueues : s.book.queue n.pair = b.queue n.pair ∧
      s.book.queue n.pair.swap = b.queue n.pair.swap := by
    rcases h.side with hp | hp
    · rw [hp]
      exact ⟨hunserved.queue, hunserved.swapped⟩
    · rw [hp, Prod.swap_swap]
      exact ⟨hunserved.swapped, hunserved.queue⟩
  have hlookup : ∀ id, id ∈ b.queue n.pair ∨ id ∈ b.queue n.pair.swap →
      s.book.orders.lookup id = b.orders.lookup id := by
    intro id hid
    refine hunserved.lookup id ?_
    rcases h.side with hp | hp
    · rwa [hp] at hid
    · rw [hp, Prod.swap_swap] at hid
      exact hid.symm
  refine ⟨hs, h.distinct, h.side, ?_, hqueues.1.trans h.taker, ?_, hqueues.2.trans h.makers,
    fun q hq => ?_⟩
  · rw [OrderBook.bothPriced, hunserved.feed]
    exact h.priced
  · rw [hlookup n.id (Or.inl ?_)]
    · exact h.lookup
    · rw [show b.queue n.pair = [n.id] from h.taker]
      exact List.mem_singleton_self _
  · rw [hlookup q.id (Or.inr ?_)]
    · exact h.lookups q hq
    · rw [show b.queue n.pair.swap = resting.map Order.id from h.makers]
      exact List.mem_map_of_mem hq

/-- The pairs visited later leave the order alone. -/
theorem runDirectMatching_lookup_other (pairs : List Pair) {s : Progress} (hs : s.book.InStep ∅)
    {id : OrderId} {o : Order} (ho : s.book.orders.lookup id = some o)
    (hpairs : ∀ q ∈ pairs, o.pair ≠ q ∧ o.pair ≠ q.swap) :
    (runDirectMatching pairs s).book.orders.lookup id = some o := by
  refine (runDirectMatching_induct (P := fun s => s.book.orders.lookup id = some o)
    (fun q hq s s' hs m h => ?_) hs ho).2
  have hheads := m.heads hs
  rw [(m.trade hs).lookup_of_no_fill, h]
  unfold matchFills
  rw [if_neg, if_neg]
  · rintro rfl
    cases h.symm.trans hheads.lookupB
    exact (hpairs q hq).2 hheads.pairB
  · rintro rfl
    cases h.symm.trans hheads.lookupA
    exact (hpairs q hq).1 hheads.pairA

/-- An order stays in the book during the turn of a pair. -/
theorem matchUserOrders_lookup (tokenA tokenB : TokenId) {s : Progress} (hs : s.book.InStep ∅)
    {id : OrderId} {o : Order} (ho : s.book.orders.lookup id = some o) :
    (matchUserOrders tokenA tokenB s).book.InStep ∅ ∧
      ∃ o', (matchUserOrders tokenA tokenB s).book.orders.lookup id = some o' ∧
        o'.pair = o.pair := by
  refine matchUserOrders_induct (P := fun s => ∃ o', s.book.orders.lookup id = some o' ∧
    o'.pair = o.pair) (fun s s' hs m h => ?_) hs ⟨o, ho, rfl⟩
  obtain ⟨o', ho', hpair⟩ := h
  refine ⟨o'.deduct (matchFills m.orderA.id m.orderB.id m.orderA m.orderB id), ?_, hpair⟩
  rw [(m.trade hs).orders, ho']
  rfl

/-- A pair with orders in both directions has its turn. -/
theorem Turn.matchable {p : Pair} (hlt : p.1 < p.2) {b : OrderBook} {n : Order}
    {resting : List Order} (h : Turn p (runStart b) n resting) (hne : resting ≠ []) :
    p ∈ collectMatchablePairs b := by
  have hb : b.InStep ∅ := h.inStep
  have htaker : b.queue n.pair ≠ [] := by
    rw [show b.queue n.pair = [n.id] from h.taker]
    exact List.cons_ne_nil _ _
  have hmakers : b.queue n.pair.swap ≠ [] := by
    rw [show b.queue n.pair.swap = resting.map Order.id from h.makers]
    exact mt List.map_eq_nil_iff.mp hne
  rw [hb.mem_collectMatchablePairs]
  rcases h.side with rfl | hp
  · exact ⟨hlt, htaker, hmakers⟩
  · obtain rfl : n.pair.swap = p := by rw [hp, Prod.swap_swap]
    exact ⟨hlt, hmakers, htaker⟩

/-- **What the turn of the pair decides, the run decides.** -/
theorem Turn.run_filledIn_iff {p : Pair} (hlt : p.1 < p.2) {b : OrderBook} {n : Order}
    {resting : List Order} (h : Turn p (runStart b) n resting) {before after : List Pair}
    (hbefore : ∀ q ∈ before, q.1 < q.2 ∧ q ≠ p) (hafter : ∀ q ∈ after, q.1 < q.2 ∧ q ≠ p) :
    ∃ s, Turn p s n resting ∧
      (FilledIn (runDirectMatching (before ++ p :: after) (runStart b)).book n.id ↔
        FilledIn (matchUserOrders p.1 p.2 s).book n.id) := by
  obtain ⟨hs, hunserved⟩ := runDirectMatching_unserved h.inStep hlt hbefore
  have hturn := h.of_unserved hs hunserved
  refine ⟨_, hturn, ?_⟩
  obtain ⟨hs', o, ho, hpair⟩ := matchUserOrders_lookup p.1 p.2 hs hturn.lookup
  have hlater := runDirectMatching_lookup_other after hs' ho (fun q hq => ?_)
  · rw [runDirectMatching, List.foldl_append, List.foldl_cons]
    exact filledIn_congr (hlater.trans ho.symm)
  · -- both pairs are given smaller token first
    obtain ⟨hq, hne⟩ := hafter q hq
    rw [hpair]
    rcases h.side with hp | hp
    · rw [hp]
      refine ⟨hne.symm, ?_⟩
      rintro rfl
      exact Nat.lt_asymm hq hlt
    · rw [hp]
      refine ⟨?_, fun he => hne (Prod.swap_injective he).symm⟩
      rintro rfl
      exact Nat.lt_asymm hq hlt

/-! ## The verdict -/

namespace OrderBook
variable {b : OrderBook}

/-- **The best level is the first part of the notes of the pair**, all of one rate. -/
theorem InStep.level_of_bestLevel (h : b.InStep ∅) {x y : TokenId} {rate : RateKey} {held : Nat}
    (hbest : b.bestLevel x y = some (rate, held)) :
    ∃ level rest, b.notesForPair x y = level ++ rest ∧ held = volume level ∧
      ∀ q ∈ level, q.HasRate rate := by
  have hsame := h.bestLevel x y
  rw [hbest, topLevel] at hsame
  rw [h.notesForPair]
  cases hq : b.queue (x, y) with
  | nil =>
    rw [hq] at hsame
    exact hsame.elim
  | cons id ids =>
    rw [hq] at hsame
    obtain ⟨hkey, hheld⟩ := hsame
    refine ⟨_, ((id :: ids).dropWhile fun i =>
      compare (b.keyOf i) (b.keyOf id) = .eq).filterMap b.orders.lookup, ?_, hheld,
      fun q hq => ?_⟩
    · rw [← List.filterMap_append, List.takeWhile_append_dropWhile]
    · obtain ⟨i, hi, hlookup⟩ := List.mem_filterMap.mp hq
      have hclass := of_decide_eq_true (List.mem_takeWhile_imp hi :)
      rw [keyOf_of_lookup hlookup] at hclass
      have hrate := Std.TransCmp.eq_trans hclass (Std.OrientedCmp.eq_symm hkey)
      rw [RateKey.compare_eq, Nat.compare_eq_eq] at hrate
      exact hrate

end OrderBook

/-- The turn of the pair after a new order was placed that is alone in its direction. -/
theorem turn_of_placed {b : OrderBook} (hb : b.InStep ∅) {id : OrderId} (hid : id ∉ b.orders)
    {terms : OrderTerms} (hne : terms.offeredToken ≠ terms.requestedToken)
    (hoffered : (b.feed terms.offeredToken).isSome)
    (hrequested : (b.feed terms.requestedToken).isSome)
    (halone : b.notesForPair terms.offeredToken terms.requestedToken = []) {p : Pair}
    (hside : (Order.fresh id terms).pair = p ∨ (Order.fresh id terms).pair = p.swap) :
    Turn p (runStart (b.addUserOrder id terms)) (Order.fresh id terms)
      (b.notesForPair terms.requestedToken terms.offeredToken) := by
  obtain ⟨hstep, hfeed, hlookup, hother, hqueue⟩ := hb.placed hid terms
  have hpair : (Order.fresh id terms).pair = (terms.offeredToken, terms.requestedToken) := rfl
  have hmakers : b.queue (Order.fresh id terms).pair.swap =
      (b.notesForPair terms.requestedToken terms.offeredToken).map Order.id :=
    (hb.notesForPair_ids _ _).symm
  refine ⟨hstep, ?_, hside, ?_, ?_, hlookup, ?_, fun q hq => ?_⟩
  · rcases hside with rfl | hp
    · exact hne
    · rw [← Prod.swap_swap p, ← hp]
      exact hne.symm
  · show (b.addUserOrder id terms).bothPriced p.1 p.2 = true
    rw [OrderBook.bothPriced, hfeed, Bool.and_eq_true]
    rcases hside with rfl | hp
    · exact ⟨hoffered, hrequested⟩
    · rw [← Prod.swap_swap p, ← hp]
      exact ⟨hrequested, hoffered⟩
  · show (b.addUserOrder id terms).queue _ = _
    rw [hqueue, if_pos rfl, hpair, ← hb.notesForPair_ids, halone]
    rfl
  · show (b.addUserOrder id terms).queue _ = _
    rw [hqueue, if_neg, hmakers]
    intro he
    exact hne.symm (congrArg Prod.fst he)
  · rw [hb.notesForPair] at hq
    obtain ⟨i, -, hi⟩ := List.mem_filterMap.mp hq
    have hqi := hb.ids hi
    show (b.addUserOrder id terms).orders.lookup q.id = some q
    rw [hqi, hother, hi]
    rintro rfl
    exact hid (FiniteMap.mem_of_lookup hi)

theorem evalCanFill_some {offeredA requestedB : Nat} {best : Option OrderBook.BestLevel}
    (h : evalCanFill offeredA requestedB best = true) : ∃ level, best = some level ∧
      requestedB * level.rate.requested < offeredA * level.rate.offered ∧
      requestedB ≤ level.volume := by
  cases best with
  | none => cases h
  | some level =>
    rw [evalCanFill, Bool.and_eq_true, decide_eq_true_iff, decide_eq_true_iff] at h
    exact ⟨level, rfl, h⟩

/-- **When the swap API's verdict is right.**  On a book of unfilled orders, let the new order
be alone in its direction and the verdict be that it can fill.  Then direct matching fills it
completely iff what it releases for its last piece pays for the piece at the best rate. -/
theorem can_fill_iff_last_piece_paid {b : OrderBook} (hb : b.Reachable)
    (hfresh : ∀ id o, b.orders.lookup id = some o → o.requestedRemaining = o.requested)
    {keys : List Pair} (hkeys : b.VisitsIndex keys) {id : OrderId} (hid : id ∉ b.orders)
    {terms : OrderTerms} (hne : terms.offeredToken ≠ terms.requestedToken)
    (hoffered : (b.feed terms.offeredToken).isSome)
    (hrequested : (b.feed terms.requestedToken).isSome)
    (halone : b.notesForPair terms.offeredToken terms.requestedToken = [])
    (hcan : evalCanFill terms.offered terms.requested
      ((b.snapshotBestLevels keys).lookup (terms.requestedToken, terms.offeredToken)) = true)
    {pairs : List Pair} (hpairs : MatchablePairs (b.addUserOrder id terms) pairs) :
    FilledIn (runDirectMatching pairs (runStart (b.addUserOrder id terms))).book id ↔
      ∃ best, (b.snapshotBestLevels keys).lookup (terms.requestedToken, terms.offeredToken) =
          some best ∧
        terms.PaysFor best.rate (lastPiece terms.requested
          (b.notesForPair terms.requestedToken terms.offeredToken)) := by
  have hstep := hb.inv.inStep
  obtain ⟨best, hbest, hcross, hvolume⟩ := evalCanFill_some hcan
  rw [hbest]
  have hsnapshot := OrderBook.snapshotBestLevels_lookup hkeys
    (terms.requestedToken, terms.offeredToken)
  rw [hbest, eq_comm, Option.map_eq_some_iff] at hsnapshot
  obtain ⟨⟨rate, held⟩, hlevel, rfl⟩ := hsnapshot
  obtain ⟨level, rest, hnotes, rfl, hrate⟩ := hstep.level_of_bestLevel hlevel
  have hunfilled : ∀ q ∈ level, q.Unfilled := by
    intro q hq
    have hmem : q ∈ b.notesForPair terms.requestedToken terms.offeredToken :=
      hnotes ▸ List.mem_append_left _ hq
    rw [hstep.notesForPair] at hmem
    obtain ⟨i, -, hi⟩ := List.mem_filterMap.mp hmem
    exact hfresh i q hi
  have hlevel : ∀ q ∈ level, q.Unfilled ∧ q.HasRate rate ∧ (Order.fresh id terms).Crosses q :=
    fun q hq => ⟨hunfilled q hq, hrate q hq, (hrate q hq).crosses hcross⟩
  have henough : (Order.fresh id terms).requestedRemaining ≤
      (level.map fun q => q.offered).sum := by
    rw [OrderBook.volume_eq, List.map_congr_left fun q hq => (hunfilled q hq).offeredRemaining]
      at hvolume
    exact hvolume.trans (Nat.min_le_left _ _)
  -- the pair of the two tokens, smaller one first
  obtain ⟨p, hlt, hside⟩ : ∃ p : Pair, p.1 < p.2 ∧
      ((Order.fresh id terms).pair = p ∨ (Order.fresh id terms).pair = p.swap) := by
    rcases Nat.lt_or_gt_of_ne hne with hlt | hlt
    · exact ⟨_, hlt, Or.inl rfl⟩
    · exact ⟨(terms.requestedToken, terms.offeredToken), hlt, Or.inr rfl⟩
  have hturn := turn_of_placed hstep hid hne hoffered hrequested halone hside
  rw [hnotes] at hturn
  have hmem : p ∈ pairs := by
    refine hpairs.mem_iff.mpr (hturn.matchable hlt fun hnil => ?_)
    rw [(List.append_eq_nil_iff.mp hnil).1] at henough
    exact Nat.not_lt.mpr henough terms.requested_pos
  obtain ⟨before, after, rfl, hbefore, hafter⟩ := hpairs.split hmem
  obtain ⟨s, hs, hiff⟩ := hturn.run_filledIn_iff hlt hbefore hafter
  refine hiff.trans ((hs.filledIn_iff terms.requested_pos hlevel henough).trans ?_)
  rw [← hnotes]
  constructor
  · exact fun hpays => ⟨_, rfl, hpays⟩
  · rintro ⟨best, hsome, hpays⟩
    cases hsome
    exact hpays

/-! ### A level of two orders -/

/-- Two orders offer 2 and 4 of token 2 at a rate of 3 of token 1 for 2. -/
def levelBook : OrderBook :=
  ((OrderBook.new fun _ => some 1).addUserOrder 1
    (swapTerms 2 1 2 3)).addUserOrder 2 (swapTerms 2 1 4 6)

theorem levelBook_reachable : levelBook.Reachable :=
  ((OrderBook.Reachable.new _).addUserOrder _ _).addUserOrder _ _

theorem levelBook_unfilled : ∀ id o, levelBook.orders.lookup id = some o →
    o.requestedRemaining = o.requested := by
  intro id o ho
  have horders : levelBook.orders =
      Finmap.insert 2 (Order.fresh 2 (swapTerms 2 1 4 6))
        (Finmap.insert 1 (Order.fresh 1 (swapTerms 2 1 2 3)) ∅) := by decide
  rw [horders, FiniteMap.lookup_insert_if, FiniteMap.lookup_insert_if] at ho
  split at ho
  · cases ho
    rfl
  · split at ho
    · cases ho
      rfl
    · cases ho

/-- An order of 9 of token 1 for 4 of token 2 takes the first order and half of the second. -/
theorem levelBook_fills : FilledIn (runDirectMatching [(1, 2)] (runStart
    (levelBook.addUserOrder 3 (swapTerms 1 2 9 4)))).book 3 :=
  have hkeys : levelBook.VisitsIndex [(2, 1)] := ⟨by decide, by decide⟩
  (can_fill_iff_last_piece_paid levelBook_reachable levelBook_unfilled hkeys (by decide)
    (by decide) rfl rfl (by decide) (by decide) ⟨by decide, by decide⟩).mpr
    ⟨⟨⟨3, 2, by decide⟩, 6⟩, by decide, by decide⟩

/-- **The verdict is wrong when the last piece is not paid for.**  An order of 5 of token 1
for 3 of token 2 crosses the level, which holds 6.  It takes the whole first order; for the
1 unit it still requests it releases 1, which buys nothing of the second. -/
theorem levelBook_strands :
    levelBook.Reachable ∧ (∀ id o, levelBook.orders.lookup id = some o →
      o.requestedRemaining = o.requested) ∧
    levelBook.VisitsIndex [(2, 1)] ∧ levelBook.notesForPair 1 2 = [] ∧
    evalCanFill 5 3 ((levelBook.snapshotBestLevels [(2, 1)]).lookup (2, 1)) = true ∧
    MatchablePairs (levelBook.addUserOrder 3 (swapTerms 1 2 5 3)) [(1, 2)] ∧
    ¬ FilledIn (runDirectMatching [(1, 2)] (runStart
      (levelBook.addUserOrder 3 (swapTerms 1 2 5 3)))).book 3 := by
  refine ⟨levelBook_reachable, levelBook_unfilled, ⟨by decide, by decide⟩, by decide, by decide,
    ⟨by decide, by decide⟩, ?_⟩
  show ¬ FilledIn (matchUserOrders 1 2 _).book 3
  rw [matchUserOrders_of_true (by decide), matchUserOrders_of_false (by decide)]
  exact not_filledIn_of_lookup
    (n := (Order.fresh 3 (swapTerms 1 2 5 3)).deduct 2) (by decide) (by decide)

end PswapSolver
