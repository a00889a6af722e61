import PswapSolver.BookViews
import PswapSolver.Parking
import PswapSolver.Trades
import Mathlib.Algebra.BigOperators.Finprod
import Mathlib.Data.Rat.Defs

/-! # The book as one sorted list per pair

What the book is for can be said without its index: for a directed pair it is the list
of the active orders that are not parked, sorted by the exact rate and, within a rate,
by the time the order last entered the index (`OrderBook.listing`).

The time of entry is not stored anywhere, so `OrderBook.Logged` follows the operations
that built the book and keeps the ids in the order of their last entry.  The queues of
the index keep this order (`Logged.listed`), hence every queue is the listing of its pair
(`Listed.listing_eq`), and the views of the book are questions about the listing
(`views_agree_with_listing`).
-/
namespace PswapSolver
open StableQueue

/-! ## Rates -/

/-- The rate as a rational number. -/
def RateKey.rate (k : RateKey) : ℚ := (k.requested : ℚ) / k.offered

theorem RateKey.isLE_iff_rate_le (a b : RateKey) : (compare a b).isLE ↔ a.rate ≤ b.rate := by
  have ha : (0 : ℚ) < a.offered := by exact_mod_cast a.offered_pos
  have hb : (0 : ℚ) < b.offered := by exact_mod_cast b.offered_pos
  rw [isLE_iff, rate, rate, div_le_div_iff₀ ha hb]
  norm_cast

/-- **Keys that compare equal are equal rates.** -/
theorem RateKey.compare_eq_iff_rate_eq (a b : RateKey) :
    compare a b = .eq ↔ a.rate = b.rate := by
  constructor
  · intro h
    have hab := (isLE_iff_rate_le a b).mp (Ordering.isLE_of_eq_eq h)
    have hba := (isLE_iff_rate_le b a).mp (Ordering.isLE_of_eq_eq (Std.OrientedCmp.eq_symm h))
    exact le_antisymm hab hba
  · intro h
    exact Std.OrientedCmp.isLE_antisymm ((isLE_iff_rate_le a b).mpr (le_of_eq h))
      ((isLE_iff_rate_le b a).mpr (le_of_eq h.symm))

/-- The exact rate of an order. -/
def Order.rate (o : Order) : ℚ := o.rateKey.rate

namespace OrderBook

/-! ## The listing -/

/-- Is this an order of the pair that the engine can see? -/
def visibleAt (b : OrderBook) (p : Pair) (o : Order) : Bool :=
  decide (o.pair = p) && o.isActive && decide (o.id ∉ b.parked)

/-- **The abstract book**: the visible orders of a pair by rate, and within a rate by the
time of their last entry into the index.  `log` lists the ids by this time. -/
def listing (b : OrderBook) (log : List OrderId) (p : Pair) : List Order :=
  ((log.filterMap b.orders.lookup).filter (b.visibleAt p)).mergeSort fun o o' =>
    decide (o.rate ≤ o'.rate)

/-- **The books the solver can hold, with the log of their index.**  An id goes to the end
of the log when it enters the index: with a new order, or when it is no longer parked. -/
inductive Logged : OrderBook → List OrderId → Prop
  | new (feed : PriceFeed) : Logged (new feed) []
  | addUserOrder {b : OrderBook} {log : List OrderId} (h : Logged b log) (id : OrderId)
      (terms : OrderTerms) : Logged (b.addUserOrder id terms)
        (if id ∈ b.orders ∧ id ∉ b.parked then log else arrive id log)
  | removeOrder {b : OrderBook} {log : List OrderId} (h : Logged b log) (id : OrderId) :
      Logged (b.removeOrder id) log
  | park {b : OrderBook} {log : List OrderId} (h : Logged b log) (id : OrderId) (dex : DexId)
      {time : Nat} (monotone : ∀ e ∈ b.parkQueue, e.1 ≤ time) : Logged (b.park id dex time) log
  | unpark {b : OrderBook} {log : List OrderId} (h : Logged b log) (id : OrderId) :
      Logged (b.unpark id).2 (if id ∈ b.parked then arrive id log else log)
  | reactivate {b : OrderBook} {log : List OrderId} (h : Logged b log) (ttl time : Nat) :
      Logged (b.reactivateParkedOlderThan ttl time).2
        ((b.reactivateParkedOlderThan ttl time).1.foldl (fun log e => arrive e.1 log) log)
  | bestOrder {b : OrderBook} {log : List OrderId} (h : Logged b log) (x y : TokenId) :
      Logged (b.bestOrder x y).2 log
  | run {b : OrderBook} {log : List OrderId} (h : Logged b log) {triangular : Bool} {p : Progress}
      (run : EngineRun b triangular p) : Logged p.book log
  | clearBalances {b : OrderBook} {log : List OrderId} (h : Logged b log) :
      Logged { b with protocolBalances := ∅ } log
  | setFeed {b : OrderBook} {log : List OrderId} (h : Logged b log) (feed : PriceFeed) :
      Logged { b with feed := feed } log

variable {b b' : OrderBook} {log : List OrderId} {id : OrderId}

/-- **Every book the solver can hold has a log**, and only those have. -/
theorem reachable_iff_logged : b.Reachable ↔ ∃ log, b.Logged log := by
  constructor
  · intro h
    induction h with
    | new feed => exact ⟨_, .new feed⟩
    | addUserOrder _ id terms ih => exact ih.elim fun _ h => ⟨_, h.addUserOrder id terms⟩
    | removeOrder _ id ih => exact ih.elim fun _ h => ⟨_, h.removeOrder id⟩
    | park _ id dex hmono ih => exact ih.elim fun _ h => ⟨_, h.park id dex hmono⟩
    | unpark _ id ih => exact ih.elim fun _ h => ⟨_, h.unpark id⟩
    | reactivate _ ttl time ih => exact ih.elim fun _ h => ⟨_, h.reactivate ttl time⟩
    | bestOrder _ x y ih => exact ih.elim fun _ h => ⟨_, h.bestOrder x y⟩
    | run _ hrun ih => exact ih.elim fun _ h => ⟨_, h.run hrun⟩
    | clearBalances _ ih => exact ih.elim fun _ h => ⟨_, h.clearBalances⟩
    | setFeed _ feed ih => exact ih.elim fun _ h => ⟨_, h.setFeed feed⟩
  · rintro ⟨log, h⟩
    induction h with
    | new feed => exact .new feed
    | addUserOrder _ id terms ih => exact ih.addUserOrder id terms
    | removeOrder _ id ih => exact ih.removeOrder id
    | park _ id dex hmono ih => exact ih.park id dex hmono
    | unpark _ id ih => exact ih.unpark id
    | reactivate _ ttl time ih => exact ih.reactivate ttl time
    | bestOrder _ x y ih => exact ih.bestOrder x y
    | run _ hrun ih => exact ih.run hrun
    | clearBalances _ ih => exact ih.clearBalances
    | setFeed _ feed ih => exact ih.setFeed feed

theorem Logged.inv (h : b.Logged log) : b.Inv := (reachable_iff_logged.mpr ⟨log, h⟩).inv

/-! ## The queues keep the order of entry -/

/-- **The queues keep the order of the log.** -/
structure Listed (b : OrderBook) (log : List OrderId) : Prop where
  nodup : log.Nodup
  arrived : ∀ p, Arrived b.keyOf log (b.queue p)

/-- Queues that only lose ids keep the order. -/
theorem Listed.of_sublist (h : b.Listed log)
    (hqueue : ∀ p, (b'.queue p).Sublist (b.queue p))
    (hkey : ∀ p, ∀ i ∈ b'.queue p, b'.keyOf i = b.keyOf i) : b'.Listed log :=
  ⟨h.nodup, fun p => ((h.arrived p).of_sublist (hqueue p)).congr (hkey p)⟩

/-- An id that enters its queue goes to the end of the log. -/
theorem Listed.enqueue (h : b.Listed log) {q : Pair} (hnq : ∀ p, id ∉ b.queue p)
    (hqueue : ∀ p, b'.queue p =
      if p = q then StableQueue.enqueue b'.keyOf id (b.queue p) else b.queue p)
    (hkey : ∀ i, i ≠ id → b'.keyOf i = b.keyOf i) : b'.Listed (arrive id log) := by
  refine ⟨nodup_arrive h.nodup, fun p => ?_⟩
  have hcongr : Arrived b'.keyOf log (b.queue p) :=
    (h.arrived p).congr fun i hi => hkey i fun e => hnq p (e ▸ hi)
  rw [hqueue]
  split
  · exact hcongr.enqueue (hnq p)
  · exact hcongr.arrive (hnq p)

theorem InStep.notMem_queue_of_parked (h : b.InStep ∅) (hid : id ∈ b.parked) (p : Pair) :
    id ∉ b.queue p := by
  intro hq
  obtain ⟨-, -, -, hnp, -⟩ := h.mem_queue.mp hq
  exact hnp hid

theorem Listed.addUserOrder (h : b.Listed log) (hb : b.InStep ∅) (id : OrderId)
    (terms : OrderTerms) : (b.addUserOrder id terms).Listed
      (if id ∈ b.orders ∧ id ∉ b.parked then log else arrive id log) := by
  by_cases hold : id ∈ b.orders ∧ id ∉ b.parked
  · rw [addUserOrder_of_mem hold, if_pos hold]
    exact h
  · rw [if_neg hold]
    refine h.enqueue (fun p hp => ?_) (hb.addUserOrder hold).2 fun i hi => keyOf_congr ?_
    · obtain ⟨o, ho, -, hnp, -⟩ := hb.mem_queue.mp hp
      exact hold ⟨FiniteMap.mem_of_lookup ho, hnp⟩
    · rw [OrderBook.addUserOrder, if_neg hold]
      exact Finmap.lookup_insert_of_ne _ hi

theorem removeOrder_queue_sublist (b : OrderBook) (id : OrderId) (p : Pair) :
    ((b.removeOrder id).queue p).Sublist (b.queue p) := by
  unfold OrderBook.removeOrder
  split
  · exact List.Sublist.refl _
  · dsimp only
    split
    · exact List.Sublist.refl _
    · split
      · exact Index.queue_removeFromIndex_sublist (b.decrementCount _) ..
      · exact Index.queue_removeFromIndex_sublist b.toIndex ..

theorem removeOrder_lookup_of_ne (b : OrderBook) {i : OrderId} (hi : i ≠ id) :
    (b.removeOrder id).orders.lookup i = b.orders.lookup i := by
  unfold OrderBook.removeOrder
  split
  · rfl
  · dsimp only
    split <;> exact Finmap.lookup_erase_ne hi

theorem Listed.removeOrder (h : b.Listed log) (hb : b.Inv) (id : OrderId) :
    (b.removeOrder id).Listed log := by
  refine h.of_sublist (b.removeOrder_queue_sublist id) fun p i hi => keyOf_congr ?_
  -- a removed order is in no queue
  obtain ⟨o, ho, -⟩ := (hb.removeOrder id).inStep.mem_queue.mp hi
  refine b.removeOrder_lookup_of_ne ?_
  rintro rfl
  exact ((mem_orders_removeOrder b i).mp (FiniteMap.mem_of_lookup ho)).1 rfl

theorem park_queue_sublist (b : OrderBook) (id : OrderId) (dex : DexId) (time : Nat) (p : Pair) :
    ((b.park id dex time).queue p).Sublist (b.queue p) := by
  unfold OrderBook.park
  split
  · exact List.Sublist.refl _
  · split
    · exact List.Sublist.refl _
    · split
      · exact List.Sublist.refl _
      · exact Index.queue_removeFromIndex_sublist (b.decrementCount _) ..

theorem park_orders (b : OrderBook) (id : OrderId) (dex : DexId) (time : Nat) :
    (b.park id dex time).orders = b.orders := by
  unfold OrderBook.park
  split
  · rfl
  · split
    · rfl
    · split <;> rfl

theorem Listed.park (h : b.Listed log) (id : OrderId) (dex : DexId) (time : Nat) :
    (b.park id dex time).Listed log :=
  h.of_sublist (b.park_queue_sublist id dex time) fun _ _ _ =>
    keyOf_congr (by rw [park_orders])

theorem Listed.unpark (h : b.Listed log) (hb : b.InStep ∅) (id : OrderId) :
    (b.unpark id).2.Listed (if id ∈ b.parked then arrive id log else log) := by
  by_cases hid : id ∈ b.parked
  · obtain ⟨o, -, -, horders, -, hqueue⟩ := hb.unpark_of_parked hid
    have hkey : (b.unpark id).2.keyOf = b.keyOf := funext fun i => keyOf_congr (by rw [horders])
    rw [if_pos hid]
    refine h.enqueue (hb.notMem_queue_of_parked hid) (q := o.pair) (fun p => ?_) fun i _ => by
      rw [hkey]
    rw [hqueue, hkey, if_congr eq_comm rfl rfl]
  · rw [unpark_of_notMem hid, if_neg hid]
    exact h

/-- The sweep queues the notes it returns, one after the other. -/
theorem Listed.reactivateLoop (ttl time : Nat) {queue : List (Nat × OrderId)} (h : b.Listed log)
    (hb : b.Inv) (hq : b.parkQueue = queue) :
    (reactivateLoop ttl time queue b).2.Listed
      ((OrderBook.reactivateLoop ttl time queue b).1.foldl (fun log e => arrive e.1 log) log) := by
  induction queue generalizing b log with
  | nil => exact h
  | cons e rest ih =>
    obtain ⟨t, id⟩ := e
    by_cases hexp : satAdd64 t ttl ≤ time
    · have hpop : ({ b with parkQueue := rest } : OrderBook).Listed log := ⟨h.nodup, h.arrived⟩
      have hstep := ih (hpop.unpark (hb.inStep.of_eq rfl rfl rfl fun _ ht => ht) id)
        (hb.popPark hq) (unpark_parkQueue _ _)
      rw [reactivateLoop_cons hexp]
      refine cast (congrArg _ ?_) hstep
      rw [List.foldl_append, unpark_fst]
      cases hl : b.parked.lookup id with
      | none => rw [if_neg (Finmap.lookup_eq_none.mp hl)]; rfl
      | some v => rw [if_pos (FiniteMap.mem_of_lookup hl)]; rfl
    · rw [OrderBook.reactivateLoop, if_pos (Nat.lt_of_not_le hexp)]
      exact h

end OrderBook

/-- A phase leaves the rates alone. -/
theorem Progress.Advance.keyOf {s s' : Progress} (h : s.Advance s') (id : OrderId) :
    s'.book.keyOf id = s.book.keyOf id := by
  by_cases hid : id ∈ s.book.orders
  · obtain ⟨o, ho⟩ := Finmap.mem_iff.mp hid
    obtain ⟨o', ho'⟩ := Finmap.mem_iff.mp (h.mem_orders.mpr hid)
    rw [OrderBook.keyOf_of_lookup ho, OrderBook.keyOf_of_lookup ho', Order.rateKey, Order.rateKey]
    congr 1 <;> rw [(h.terms ho ho').1]
  · refine OrderBook.keyOf_congr ?_
    rw [Finmap.lookup_eq_none.mpr hid, Finmap.lookup_eq_none.mpr (mt h.mem_orders.mp hid)]

theorem Trades.queue_sublist {s s' : Progress} (h : Trades s s') (p : Pair) :
    (s'.book.queue p).Sublist (s.book.queue p) := by
  induction h with
  | refl => exact List.Sublist.refl _
  | tail _ htrade ih =>
    obtain ⟨fills, htrade⟩ := htrade
    exact (htrade.queue p).trans ih

namespace OrderBook
variable {b : OrderBook} {log : List OrderId}

/-- **The queues of every book the solver can hold keep the order of its log.** -/
theorem Logged.listed (h : b.Logged log) : b.Listed log := by
  induction h with
  | new feed => exact ⟨List.nodup_nil, fun p => arrived_nil⟩
  | addUserOrder hb id terms ih => exact ih.addUserOrder hb.inv.inStep id terms
  | removeOrder hb id ih => exact ih.removeOrder hb.inv id
  | park _ id dex _ ih => exact ih.park id dex _
  | unpark hb id ih => exact ih.unpark hb.inv.inStep id
  | reactivate hb ttl time ih => exact ih.reactivateLoop ttl time hb.inv rfl
  | bestOrder hb x y ih =>
    rw [hb.inv.inStep.bestOrder]
    exact ih
  | run hb hrun ih =>
    have hstep := hb.inv.inStep
    exact ih.of_sublist (hrun.trades hstep).queue_sublist fun _ i _ =>
      (hrun.advance hstep).2.keyOf i
  | clearBalances _ ih => exact ⟨ih.nodup, ih.arrived⟩
  | setFeed _ feed ih => exact ⟨ih.nodup, ih.arrived⟩

/-! ## Every queue is the listing of its pair -/

theorem filterMap_lookup_cons {id : OrderId} {o : Order} (ho : b.orders.lookup id = some o)
    (l : List OrderId) :
    (id :: l).filterMap b.orders.lookup = o :: l.filterMap b.orders.lookup := by
  simp [ho]

theorem visibleAt_iff {p : Pair} {o : Order} :
    b.visibleAt p o = true ↔ o.pair = p ∧ o.isActive = true ∧ o.id ∉ b.parked := by
  simp [visibleAt, and_assoc]

/-- The visible orders of a pair are the queued ones. -/
theorem InStep.map_id_visible (h : b.InStep ∅) (p : Pair) (l : List OrderId) :
    ((l.filterMap b.orders.lookup).filter (b.visibleAt p)).map Order.id =
      l.filter (· ∈ b.queue p) := by
  induction l with
  | nil => rfl
  | cons i l ih =>
    have hqueued : i ∈ b.queue p ↔ ∃ o, b.orders.lookup i = some o ∧ b.visibleAt p o = true := by
      rw [h.mem_queue]
      refine exists_congr fun o => and_congr_right fun ho => ?_
      rw [visibleAt_iff, h.ids ho]
      simp [and_comm]
    cases ho : b.orders.lookup i with
    | none =>
      have hdrop : (i :: l).filterMap b.orders.lookup = l.filterMap b.orders.lookup := by
        simp [ho]
      rw [hdrop, ih, List.filter_cons_of_neg]
      simp [hqueued, ho]
    | some o =>
      rw [filterMap_lookup_cons ho]
      by_cases hv : b.visibleAt p o = true
      · rw [List.filter_cons_of_pos hv, List.map_cons, ih, h.ids ho, List.filter_cons_of_pos]
        simp [hqueued, ho, hv]
      · rw [List.filter_cons_of_neg hv, ih, List.filter_cons_of_neg]
        simp [hqueued, ho, hv]

/-- Orders of the book are determined by their ids. -/
theorem filterMap_lookup_map_id {l : List Order} (h : ∀ o ∈ l, b.orders.lookup o.id = some o) :
    (l.map Order.id).filterMap b.orders.lookup = l := by
  induction l with
  | nil => rfl
  | cons o l ih =>
    rw [List.map_cons, filterMap_lookup_cons (h o (List.mem_cons_self ..)),
      ih fun o' ho' => h o' (List.mem_cons_of_mem _ ho')]

/-- **Every queue is the listing of its pair.** -/
theorem Listed.listing_eq (h : b.Listed log) (hb : b.InStep ∅) (p : Pair) :
    b.listing log p = (b.queue p).filterMap b.orders.lookup := by
  have hlookup : ∀ o ∈ (log.filterMap b.orders.lookup).filter (b.visibleAt p),
      b.orders.lookup o.id = some o := by
    intro o ho
    obtain ⟨i, -, hi⟩ := List.mem_filterMap.mp (List.mem_of_mem_filter ho)
    rw [hb.ids hi]
    exact hi
  have hids : (b.listing log p).map Order.id = b.queue p := by
    rw [listing, List.map_mergeSort (s := fun i j => (compare (b.keyOf i) (b.keyOf j)).isLE),
      hb.map_id_visible, ← (h.arrived p).eq_mergeSort h.nodup]
    intro o ho o' ho'
    rw [keyOf_of_lookup (hlookup o ho), keyOf_of_lookup (hlookup o' ho'), Bool.eq_iff_iff,
      decide_eq_true_iff]
    exact (RateKey.isLE_iff_rate_le _ _).symm
  have hmem : ∀ o ∈ b.listing log p, b.orders.lookup o.id = some o := fun o ho =>
    hlookup o ((List.mergeSort_perm ..).mem_iff.mp ho)
  rw [← hids, filterMap_lookup_map_id hmem]

/-! ## The views -/

/-- The top of a list of orders sorted by rate: the first rate, and what the orders of this
rate still offer, saturated at `u64::MAX`. -/
def levelOf : List Order → Option (ℚ × Nat)
  | [] => none
  | o :: os => some (o.rate, min (((o :: os).takeWhile fun o' => o'.rate = o.rate).map
      Order.offeredRemaining).sum u64Max)

theorem foldl_satAdd64 (l : List Order) (v : Nat) (hv : v ≤ u64Max) :
    l.foldl (fun volume o => satAdd64 volume o.offeredRemaining) v =
      min (v + (l.map Order.offeredRemaining).sum) u64Max := by
  induction l generalizing v with
  | nil => simp [hv]
  | cons o l ih =>
    have hle : satAdd64 v o.offeredRemaining ≤ u64Max := Nat.min_le_right _ _
    rw [List.foldl_cons, ih _ hle, List.map_cons, List.sum_cons, satAdd64]
    omega

theorem volume_eq (l : List Order) :
    volume l = min (l.map Order.offeredRemaining).sum u64Max := by
  rw [volume, foldl_satAdd64 l 0 (Nat.zero_le _), Nat.zero_add]

/-- Taking the first class of a list of queued ids is taking the first rate of their
orders. -/
theorem InStep.takeWhile_filterMap (h : b.InStep ∅) {p : Pair} {l : List OrderId}
    (hl : ∀ i ∈ l, i ∈ b.queue p) (o : Order) :
    (l.takeWhile fun i => compare (b.keyOf i) o.rateKey = .eq).filterMap b.orders.lookup =
      (l.filterMap b.orders.lookup).takeWhile fun o' => o'.rate = o.rate := by
  induction l with
  | nil => rfl
  | cons i l ih =>
    obtain ⟨oi, hoi, -⟩ := h.active_of_queued (hl i (List.mem_cons_self ..))
    have hiff : compare (b.keyOf i) o.rateKey = .eq ↔ oi.rate = o.rate := by
      rw [keyOf_of_lookup hoi]
      exact RateKey.compare_eq_iff_rate_eq _ _
    rw [filterMap_lookup_cons hoi]
    by_cases hrate : oi.rate = o.rate
    · rw [List.takeWhile_cons_of_pos (by simpa using hiff.mpr hrate),
        List.takeWhile_cons_of_pos (by simpa using hrate), filterMap_lookup_cons hoi,
        ih fun j hj => hl j (List.mem_cons_of_mem _ hj)]
    · rw [List.takeWhile_cons_of_neg (by simpa using mt hiff.mp hrate),
        List.takeWhile_cons_of_neg (by simpa using hrate)]
      rfl

/-- **The best level is the top of the listing.** -/
theorem InStep.bestLevel_rate (h : b.InStep ∅) (x y : TokenId) :
    (b.bestLevel x y).map (fun l => (l.1.rate, l.2)) =
      levelOf ((b.queue (x, y)).filterMap b.orders.lookup) := by
  have hsame := h.bestLevel x y
  have htop : (b.topLevel (x, y)).map (fun l => (l.1.rate, l.2)) =
      levelOf ((b.queue (x, y)).filterMap b.orders.lookup) := by
    unfold topLevel
    cases hq : b.queue (x, y) with
    | nil => rfl
    | cons id rest =>
      have hmem : ∀ i ∈ id :: rest, i ∈ b.queue (x, y) := fun i hi => hq ▸ hi
      obtain ⟨o, ho, -⟩ := h.active_of_queued (hmem id (List.mem_cons_self ..))
      have htake := h.takeWhile_filterMap hmem o
      dsimp only
      rw [keyOf_of_lookup ho, htake, volume_eq, filterMap_lookup_cons ho]
      rfl
  rw [← htop]
  generalize b.bestLevel x y = level at hsame ⊢
  generalize b.topLevel (x, y) = top at hsame ⊢
  cases level <;> cases top
  · rfl
  · exact hsame.elim
  · exact hsame.elim
  · obtain ⟨hkey, hvolume⟩ := hsame
    simp only [Option.map_some, hvolume, (RateKey.compare_eq_iff_rate_eq _ _).mp hkey]

/-- The keys of the index, each visited once. -/
def VisitsIndex (b : OrderBook) (keys : List Pair) : Prop :=
  keys.Nodup ∧ keys.toFinset = b.pairIndex.keys

theorem foldl_snapshotPair_lookup (b : OrderBook) (keys : List Pair)
    (map : FiniteMap Pair BestLevel) (p : Pair) :
    (keys.foldl b.snapshotPair map).lookup p =
      if p ∈ keys then ((b.bestLevel p.1 p.2).map fun l => ⟨l.1, l.2⟩).or (map.lookup p)
      else map.lookup p := by
  induction keys generalizing map with
  | nil => simp
  | cons q keys ih =>
    rw [List.foldl_cons, ih, snapshotPair]
    cases hq : b.bestLevel q.1 q.2 with
    | none =>
      by_cases hp : p = q
      · subst hp
        simp [hq]
      · simp [hp]
    | some level =>
      obtain ⟨rate, volume⟩ := level
      dsimp only
      rw [FiniteMap.lookup_insert_if]
      by_cases hp : p = q
      · subst hp
        simp [hq]
      · simp [hp]

/-- The snapshot holds the best level of every pair that has one. -/
theorem snapshotBestLevels_lookup {keys : List Pair} (hkeys : b.VisitsIndex keys) (p : Pair) :
    (b.snapshotBestLevels keys).lookup p =
      (b.bestLevel p.1 p.2).map fun l => ⟨l.1, l.2⟩ := by
  rw [snapshotBestLevels, foldl_snapshotPair_lookup]
  have hmem : p ∈ keys ↔ p ∈ b.pairIndex := by
    rw [← List.mem_toFinset, hkeys.2, Finmap.mem_keys]
  by_cases hp : p ∈ b.pairIndex
  · rw [if_pos (hmem.mpr hp), Finmap.lookup_empty, Option.or_none]
  · rw [if_neg (mt hmem.mp hp), Finmap.lookup_empty, bestLevel, Finmap.lookup_eq_none.mpr hp]
    rfl

/-- The counters add up to the lengths of the queues. -/
theorem InStep.activeOrderCount_eq (h : b.InStep ∅) :
    b.activeOrderCount = ∑ᶠ p, (b.queue p).length := by
  have hsupport : (Function.support fun p => (b.queue p).length) ⊆ b.activePairCount.keys := by
    intro p hp
    rw [Finset.mem_coe, Finmap.mem_keys]
    by_contra hnone
    rw [Function.mem_support, ← h.indexed.count, Finmap.lookup_eq_none.mpr hnone] at hp
    exact hp rfl
  rw [finsum_eq_sum_of_support_subset _ hsupport, Index.activeOrderCount, FiniteMap.total]
  refine Finset.sum_congr rfl fun p _ => ?_
  rw [← h.indexed.count, Option.map_id']

/-- **All views of the book agree with the listing**; the count does as long as fewer than `2 ^ 32`
orders are live, for it is a `u32` in the source. -/
theorem views_agree_with_listing (hb : b.Reachable) :
    (∃ log, b.Logged log) ∧ ∀ log, b.Logged log →
      (∀ x y, b.notesForPair x y = b.listing log (x, y)) ∧
      (∀ x y, b.bestOrder x y = ((b.listing log (x, y)).head?, b)) ∧
      (∀ x y, b.hasOrders x y = true ↔ b.listing log (x, y) ≠ []) ∧
      (∀ x y, (b.bestLevel x y).map (fun l => (l.1.rate, l.2)) =
        levelOf (b.listing log (x, y))) ∧
      (∀ keys, b.VisitsIndex keys → ∀ p,
        (p ∈ b.snapshotBestLevels keys ↔ b.listing log p ≠ []) ∧
        ((b.snapshotBestLevels keys).lookup p).map (fun l => (l.rate.rate, l.volume)) =
          levelOf (b.listing log p)) ∧
      b.activeOrderCount = ∑ᶠ p, (b.listing log p).length := by
  refine ⟨reachable_iff_logged.mp hb, fun log hlog => ?_⟩
  have h := hb.inv.inStep
  have hlisting := hlog.listed.listing_eq h
  have hids : ∀ p, (b.listing log p).map Order.id = b.queue p := fun p => by
    rw [hlisting]
    exact h.map_id_filterMap fun _ hid => hid
  have hempty : ∀ p, b.listing log p ≠ [] ↔ b.queue p ≠ [] := fun p => by
    rw [← hids p, ne_eq, ne_eq, List.map_eq_nil_iff]
  refine ⟨fun x y => ?_, fun x y => ?_, fun x y => ?_, fun x y => ?_, fun keys hkeys p => ?_, ?_⟩
  · rw [hlisting, h.notesForPair]
  · rw [h.bestOrder, hlisting]
    cases hq : b.queue (x, y) with
    | nil => rfl
    | cons i rest =>
      obtain ⟨o, ho, -⟩ := h.active_of_queued (hq ▸ List.mem_cons_self .. : i ∈ b.queue (x, y))
      rw [filterMap_lookup_cons ho]
      simp [ho]
  · rw [hempty]
    exact h.indexed.hasOrders_iff
  · rw [hlisting]
    exact h.bestLevel_rate x y
  · have hlevel : ((b.snapshotBestLevels keys).lookup p).map (fun l => (l.rate.rate, l.volume)) =
        levelOf (b.listing log p) := by
      rw [snapshotBestLevels_lookup hkeys, Option.map_map, hlisting, ← h.bestLevel_rate p.1 p.2]
      rfl
    refine ⟨?_, hlevel⟩
    rw [← Finmap.lookup_isSome, ← Option.isSome_map, hlevel]
    cases b.listing log p with
    | nil => simp [levelOf]
    | cons o os => simp [levelOf]
  · rw [h.activeOrderCount_eq]
    exact finsum_congr fun p => by rw [← hids p, List.length_map]

/-- Note 1 of the two notes of one rate was parked and came back: it is queued behind
note 2. -/
def requeuedBook : OrderBook := ((twoNoteBook.park 1 7 0).unpark 1).2

theorem requeuedBook_reachable : requeuedBook.Reachable :=
  (twoNoteBook_reachable.park 1 7 (by decide)).unpark 1

/-- The listing follows the time of the last entry, not the ids. -/
theorem requeuedBook_listing : requeuedBook.Reachable ∧
    ∃ log, requeuedBook.Logged log ∧
      (requeuedBook.listing log (1, 2)).map Order.id = [2, 1] := by
  obtain ⟨⟨log, hlog⟩, hviews⟩ := views_agree_with_listing requeuedBook_reachable
  refine ⟨requeuedBook_reachable, log, hlog, ?_⟩
  rw [← (hviews log hlog).1]
  decide

end OrderBook

end PswapSolver
