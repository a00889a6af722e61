import PswapSolver.Parking
import PswapSolver.Trades

/-! # The redundant structures of the book agree

`OrderBook.Inv` speaks about queues.  This module says in terms of the stored fields what
it means: where the index holds an id and how often, what the counters and the adjacency
maps contain, and where a parked note is found (`OrderBook.Represents`).

The counters are decremented with `saturating_sub`, which would hide a counter that has
drifted.  A counter goes down when an order is parked, removed, or cleaned up after a fill;
in each case the order is still in the index, so the counter is positive
(`InStep.count_pos`).  The fills of a match or a cycle are all made before the first cleanup,
hence the cleanups find books in which several orders are pending.
-/
namespace PswapSolver
open StableQueue

namespace OrderBook
variable {b : OrderBook} {S : Finset OrderId} {id : OrderId} {o : Order}

/-- The order `id` is in the book, active and not parked. -/
def visible (b : OrderBook) (id : OrderId) : Bool :=
  (b.orders.lookup id).any fun o => o.isActive && decide (id ∉ b.parked)

/-- How often the index holds an id, over all pairs and rates. -/
def occurrences (b : OrderBook) (id : OrderId) : Nat :=
  b.pairIndex.total fun _ levels => (items levels).count id

/-- The number of ids indexed under a pair. -/
def indexedCount (b : OrderBook) (p : Pair) : Nat :=
  (items ((b.pairIndex.lookup p).getD [])).length

/-- **The stored fields agree.** -/
structure Represents (b : OrderBook) : Prop where
  /-- An id is in the index once if it is visible, and not at all otherwise. -/
  once : ∀ id, b.occurrences id = if b.visible id then 1 else 0
  /-- It is there under its own pair and a key equal to its rate. -/
  placed : ∀ {p levels key ids id}, b.pairIndex.lookup p = some levels → (key, ids) ∈ levels →
    id ∈ ids → ∃ o, b.orders.lookup id = some o ∧ o.pair = p ∧ compare o.rateKey key = .eq
  count : ∀ p, (b.activePairCount.lookup p).getD 0 = b.indexedCount p
  /-- The adjacency maps hold the pairs with an indexed order. -/
  outgoing : ∀ x y, y ∈ b.neighbors x ↔ 0 < b.indexedCount (x, y)
  incoming : ∀ x y, x ∈ b.incomingNeighbors y ↔ 0 < b.indexedCount (x, y)
  parked : ∀ {id dex time}, b.parked.lookup id = some (dex, time) →
    (∃ o, b.orders.lookup id = some o ∧ o.isActive = true) ∧ (time, id) ∈ b.parkQueue
  parkQueue : b.parkQueue.Pairwise fun x y => x.1 ≤ y.1

theorem visible_iff : b.visible id = true ↔
    ∃ o, b.orders.lookup id = some o ∧ o.isActive = true ∧ id ∉ b.parked := by
  simp [visible, Option.any_eq_true]

theorem occurrences_eq_sum (b : OrderBook) (id : OrderId) :
    b.occurrences id = ∑ p ∈ b.pairIndex.keys, (b.queue p).count id := by
  refine Finset.sum_congr rfl fun p hp => ?_
  obtain ⟨levels, hlevels⟩ := Finmap.mem_iff.mp (Finmap.mem_keys.mp hp)
  rw [Index.queue, hlevels]
  rfl

/-- **A visible id is in the index once, any other not at all.** -/
theorem InStep.occurrences (h : b.InStep ∅) (id : OrderId) :
    b.occurrences id = if b.visible id then 1 else 0 := by
  rw [occurrences_eq_sum]
  by_cases hv : b.visible id = true
  · rw [if_pos hv]
    obtain ⟨o, ho, hact, hnp⟩ := visible_iff.mp hv
    have hmem := h.mem_queue_of_active ho hact hnp
    rw [Finset.sum_eq_single o.pair]
    · exact List.count_eq_one_of_mem (h.indexed.nodup _) hmem
    · intro p _ hp
      exact List.count_eq_zero.mpr fun hc => hp (h.pair_eq hc ho).symm
    · intro hnone
      rw [Finmap.mem_keys, ← Finmap.lookup_eq_none] at hnone
      rw [Index.queue, hnone] at hmem
      cases hmem
  · rw [if_neg hv]
    refine Finset.sum_eq_zero fun p _ => List.count_eq_zero.mpr fun hc => hv ?_
    obtain ⟨o, ho, -, hnp, hact⟩ := h.mem_queue.mp hc
    exact visible_iff.mpr ⟨o, ho, hact.resolve_right (Finset.notMem_empty _), hnp⟩

theorem queue_ne_nil_iff (b : OrderBook) (p : Pair) : b.queue p ≠ [] ↔ 0 < b.indexedCount p := by
  rw [indexedCount, ← List.length_pos_iff]
  rfl

/-- **The invariant in terms of the stored fields.** -/
theorem Inv.represents (h : b.Inv) : b.Represents where
  once := h.inStep.occurrences
  placed := fun {p levels key ids id} hp hlevel hid => by
    have hkey := (h.inStep.indexed.coherent hp).2.keyed _ hlevel id hid
    have hq : id ∈ b.queue p := by
      rw [Index.queue, hp]
      exact mem_items.mpr ⟨_, hlevel, hid⟩
    obtain ⟨o, ho, hpair, -⟩ := h.inStep.mem_queue.mp hq
    rw [keyOf_of_lookup ho] at hkey
    exact ⟨o, ho, hpair, hkey⟩
  count := h.inStep.indexed.count
  outgoing := fun x y => h.inStep.indexed.outgoing.trans (b.queue_ne_nil_iff _)
  incoming := fun x y => h.inStep.indexed.incoming.trans (b.queue_ne_nil_iff _)
  parked := fun hid => ⟨h.inStep.parked_active (FiniteMap.mem_of_lookup hid),
    h.parkQueued.queued hid⟩
  parkQueue := h.parkQueued.sorted

/-! ## No decrement is clamped -/

/-- The counter of a queued order is positive. -/
theorem InStep.count_pos (h : b.InStep S) {p : Pair} (hid : id ∈ b.queue p) :
    0 < (b.activePairCount.lookup p).getD 0 := by
  rw [h.indexed.count]
  exact List.length_pos_of_mem hid

/-- If `cleanup_if_filled` takes the order out of the index, its counter is positive. -/
def CountsDown (b : OrderBook) (id : OrderId) : Prop :=
  ∀ o, b.orders.lookup id = some o → o.isCompletelyFilled = true →
    0 < (b.activePairCount.lookup o.pair).getD 0

/-- A pending order is still counted. -/
theorem InStep.countsDown (h : b.InStep S) (hid : id ∈ S) : b.CountsDown id := by
  intro o ho hfull
  have hnp : id ∉ b.parked := by
    intro hpark
    obtain ⟨o', ho', hact⟩ := h.parked_active hpark
    cases ho.symm.trans ho'
    rw [Order.isCompletelyFilled_iff] at hfull
    rw [Order.isActive_iff, hfull] at hact
    exact Nat.lt_irrefl 0 hact
  exact h.count_pos (h.mem_queue.mpr ⟨o, ho, rfl, hnp, Or.inr hid⟩)

end OrderBook

/-- Both cleanups of a match find positive counters. -/
theorem MatchStep.countsDown {tokenA tokenB : TokenId} {s s' : Progress}
    (m : MatchStep tokenA tokenB s s') (hb : s.book.InStep ∅) :
    (s.book.tradedBook m.orderA.id m.orderB.id m.orderA m.orderB).CountsDown m.orderA.id ∧
    ((s.book.tradedBook m.orderA.id m.orderB.id m.orderA m.orderB).cleanupIfFilled
      m.orderA.id).CountsDown m.orderB.id := by
  have hm := m.heads hb
  have htraded := hb.tradedBook hm.ne hm.lookupA hm.lookupB
    (hm.pairA ▸ List.mem_of_head? hm.headA) (hm.pairB ▸ List.mem_of_head? hm.headB)
  refine ⟨htraded.countsDown (by simp), ?_⟩
  exact (htraded.cleanupIfFilled m.orderA.id (by simp)).countsDown (by simp [hm.ne.symm])

/-- The three cleanups of a cycle find positive counters. -/
theorem Legs.countsDown {b : OrderBook} {e : CycleEntry} {sim : CycleSimulation}
    (hb : b.InStep ∅) (hl : Legs b e) (h : Simulated b e sim) :
    (cycleFilled b e sim.fills h.orderAb h.orderBc h.orderCa).CountsDown e.orderAb ∧
    ((cycleFilled b e sim.fills h.orderAb h.orderBc h.orderCa).cleanupIfFilled
      e.orderAb).CountsDown e.orderCa ∧
    (((cycleFilled b e sim.fills h.orderAb h.orderBc h.orderCa).cleanupIfFilled
      e.orderAb).cleanupIfFilled e.orderCa).CountsDown e.orderBc := by
  obtain ⟨hab_bc, hab_ca, hbc_ca⟩ := hl.ne
  have hfilled := hl.cycleFilled_inStep hb h
  have hab := hfilled.cleanupIfFilled e.orderAb (by simp)
  have hca := hab.cleanupIfFilled e.orderCa (by simp [hab_ca.symm])
  exact ⟨hfilled.countsDown (by simp), hab.countsDown (by simp [hab_ca.symm]),
    hca.countsDown (by simp [hab_bc.symm, hbc_ca])⟩

/-- **The representation invariant of the order book**, in every state the operations can
reach: the stored fields agree, and no decrement of a counter is clamped, be it in `park`
or `remove_order` or in a cleanup inside a run. -/
theorem book_represents {b : OrderBook} (hb : b.Reachable) :
    b.Represents ∧
    (∀ id o, b.orders.lookup id = some o → o.isActive = true → id ∉ b.parked →
      0 < (b.activePairCount.lookup o.pair).getD 0) ∧
    (∀ s, Trades (runStart b) s → ∀ {tokenA tokenB s'} (m : MatchStep tokenA tokenB s s'),
      (s.book.tradedBook m.orderA.id m.orderB.id m.orderA m.orderB).CountsDown m.orderA.id ∧
      ((s.book.tradedBook m.orderA.id m.orderB.id m.orderA m.orderB).cleanupIfFilled
        m.orderA.id).CountsDown m.orderB.id) ∧
    (∀ pairs s, CycleReaches (runDirectMatching pairs (runStart b)) s →
      ∀ e sim, Executes s e sim → ∃ h : Simulated s.book e sim,
        (cycleFilled s.book e sim.fills h.orderAb h.orderBc h.orderCa).CountsDown e.orderAb ∧
        ((cycleFilled s.book e sim.fills h.orderAb h.orderBc h.orderCa).cleanupIfFilled
          e.orderAb).CountsDown e.orderCa ∧
        (((cycleFilled s.book e sim.fills h.orderAb h.orderBc h.orderCa).cleanupIfFilled
          e.orderAb).cleanupIfFilled e.orderCa).CountsDown e.orderBc) := by
  have hstep := hb.inv.inStep
  refine ⟨hb.inv.represents, fun id o ho hact hnp => ?_, fun s hs _ _ _ m => ?_,
    fun pairs s hs e sim hex => ?_⟩
  · exact hstep.count_pos (hstep.mem_queue_of_active ho hact hnp)
  · exact m.countsDown (hs.invariant (P := fun _ => True) ⟨hstep, trivial⟩ fun _ _ _ => trivial).1
  · have hinv := (cycleReaches_advance hstep hs).1
    obtain ⟨hsim⟩ := simulateFullCycle_some hex.simulated
    exact ⟨hsim, (hinv.legs e hex.poppable.1).countsDown hinv.inStep hsim⟩

/-- The book of the two notes after the first was parked: one id is indexed, and the counter
says so. -/
theorem twoNoteBook_represents : (twoNoteBook.park 1 7 0).Represents ∧
    (twoNoteBook.park 1 7 0).occurrences 1 = 0 ∧ (twoNoteBook.park 1 7 0).occurrences 2 = 1 := by
  have hreach : (twoNoteBook.park 1 7 0).Reachable := twoNoteBook_reachable.park 1 7 (by decide)
  have hrep := (book_represents hreach).1
  exact ⟨hrep, (hrep.once 1).trans (by decide), (hrep.once 2).trans (by decide)⟩

end PswapSolver
