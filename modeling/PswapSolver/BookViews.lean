import PswapSolver.BookInvariant

/-! # The views of the book

Every question the solver asks the book about a pair is a question about the pair's
queue: the notes of the pair are the orders of the queue, the best order is its head,
the pair has orders iff the queue is not empty, and the best level is the head's rate
together with the volume of the orders of that rate, which are the queue's first class.

Two books with the same orders and the same queues therefore look alike
(`InStep.looksAlike`).  Only the *representative* of a level's rate may differ, and
rates are compared by value.
-/
namespace PswapSolver
open StableQueue

namespace OrderBook
variable {b b' : OrderBook}

theorem InStep.active_of_queued (h : b.InStep ∅) {p : Pair} {id : OrderId} (hid : id ∈ b.queue p) :
    ∃ o, b.orders.lookup id = some o ∧ o.isActive = true ∧ o.pair = p ∧ o.id = id := by
  obtain ⟨o, ho, hp, -, hact⟩ := h.mem_queue.mp hid
  exact ⟨o, ho, hact.resolve_right (Finset.notMem_empty _), hp, h.ids ho⟩

/-- Looking up a list of queued ids loses none of them. -/
theorem InStep.map_id_filterMap (h : b.InStep ∅) {p : Pair} {l : List OrderId}
    (hl : ∀ id ∈ l, id ∈ b.queue p) : (l.filterMap b.orders.lookup).map Order.id = l := by
  induction l with
  | nil => rfl
  | cons id l ih =>
    obtain ⟨o, ho, -, -, hid⟩ := h.active_of_queued (hl id (List.mem_cons_self ..))
    simp only [List.filterMap_cons, ho, List.map_cons, hid]
    rw [ih fun i hi => hl i (List.mem_cons_of_mem _ hi)]

theorem InStep.filter_active (h : b.InStep ∅) {p : Pair} {l : List OrderId}
    (hl : ∀ id ∈ l, id ∈ b.queue p) :
    (l.filterMap b.orders.lookup).filter Order.isActive = l.filterMap b.orders.lookup := by
  refine List.filter_eq_self.mpr fun o ho => ?_
  obtain ⟨id, hid, hlookup⟩ := List.mem_filterMap.mp ho
  obtain ⟨o', ho', hact, -⟩ := h.active_of_queued (hl id hid)
  rw [hlookup] at ho'
  cases ho'
  exact hact

/-- **`notes_for_pair` lists the orders of the queue.** -/
theorem InStep.notesForPair (h : b.InStep ∅) (x y : TokenId) :
    b.notesForPair x y = (b.queue (x, y)).filterMap b.orders.lookup :=
  h.filter_active fun _ hid => hid

theorem InStep.notesForPair_ids (h : b.InStep ∅) (x y : TokenId) :
    (b.notesForPair x y).map Order.id = b.queue (x, y) := by
  rw [h.notesForPair]
  exact h.map_id_filterMap fun _ hid => hid

/-! ## The best level -/

/-- The volume of a list of orders, saturated at `u64::MAX`. -/
def volume (orders : List Order) : Nat :=
  orders.foldl (fun volume o => satAdd64 volume o.offeredRemaining) 0

/-- The best level in terms of the queue: the head's rate, and the volume of the first
class. -/
def topLevel (b : OrderBook) (p : Pair) : Option (RateKey × Nat) :=
  match b.queue p with
  | [] => none
  | id :: rest => some (b.keyOf id, volume
      (((id :: rest).takeWhile fun i => compare (b.keyOf i) (b.keyOf id) = .eq).filterMap
        b.orders.lookup))

/-- Two top levels with the same rate, by value, and the same volume. -/
def SameLevel : Option (RateKey × Nat) → Option (RateKey × Nat) → Prop
  | none, none => True
  | some (k, v), some (k', v') => compare k k' = .eq ∧ v = v'
  | _, _ => False

theorem SameLevel.trans_symm {x y z : Option (RateKey × Nat)} (h : SameLevel x y)
    (h' : SameLevel z y) : SameLevel x z := by
  cases x <;> cases y <;> cases z <;> try trivial
  obtain ⟨hk, hv⟩ := h
  obtain ⟨hk', hv'⟩ := h'
  exact ⟨Std.TransCmp.eq_trans hk (Std.OrientedCmp.eq_symm hk'), hv.trans hv'.symm⟩

/-- The first level of coherent levels is the first class of the queue. -/
theorem takeWhile_items {key : OrderId → RateKey} {k : RateKey} {id : OrderId} {ids : List OrderId}
    {L : List (RateKey × List OrderId)} (h : Coherent key ((k, id :: ids) :: L)) :
    (items ((k, id :: ids) :: L)).takeWhile (fun i => compare (key i) (key id) = .eq) =
      id :: ids := by
  have hkeyed : ∀ i ∈ id :: ids, compare (key i) k = .eq := h.keyed _ (List.mem_cons_self ..)
  have hhead : compare k (key id) = .eq :=
    Std.OrientedCmp.eq_symm (hkeyed id (List.mem_cons_self ..))
  rw [items_cons, List.takeWhile_append_of_pos]
  · refine (List.append_right_eq_self ..).mpr ?_
    cases hL : items L with
    | nil => rfl
    | cons j rest =>
      have hj : compare k (key j) = .lt := h.lt_of_mem_tail (hL ▸ List.mem_cons_self ..)
      have hgt : ¬ compare (key j) (key id) = .eq := by
        intro he
        have := Std.TransCmp.eq_trans hhead (Std.OrientedCmp.eq_symm he)
        rw [hj] at this
        cases this
      rw [List.takeWhile_cons_of_neg (by simpa using hgt)]
  · intro i hi
    simpa using Std.TransCmp.eq_trans (hkeyed i hi) hhead

/-- **`best_level` is the top of the queue.** -/
theorem InStep.bestLevel (h : b.InStep ∅) (x y : TokenId) :
    SameLevel (b.bestLevel x y) (b.topLevel (x, y)) := by
  unfold OrderBook.bestLevel topLevel
  cases hp : b.pairIndex.lookup (x, y) with
  | none =>
    rw [Index.queue, hp]
    trivial
  | some L =>
    obtain ⟨hne, hco⟩ := h.indexed.coherent hp
    have hqueue : b.queue (x, y) = items L := by rw [Index.queue, hp]; rfl
    cases L with
    | nil => exact absurd rfl hne
    | cons lvl L =>
      obtain ⟨k, ids⟩ := lvl
      cases ids with
      | nil => exact absurd rfl (hco.nonempty _ (List.mem_cons_self ..))
      | cons id ids =>
        have hmem : ∀ i ∈ id :: ids, i ∈ b.queue (x, y) := fun i hi => by
          rw [hqueue]
          exact List.mem_append_left _ hi
        obtain ⟨o, ho, -⟩ := h.active_of_queued (hmem id (List.mem_cons_self ..))
        have htake := takeWhile_items hco
        rw [hqueue]
        show SameLevel (bestLevelOf b.orders ((k, id :: ids) :: L)) _
        rw [bestLevelOf, h.filter_active hmem, if_neg (by simp [ho])]
        rw [items_cons, List.cons_append] at htake ⊢
        dsimp only
        rw [htake]
        exact ⟨Std.OrientedCmp.eq_symm (hco.keyed _ (List.mem_cons_self ..) id
          (List.mem_cons_self ..)), rfl⟩

/-! ## Books that look alike -/

/-- The observable state of the book: the parked notes, and for every pair the notes, the
best order, the best level and whether there are orders. -/
structure LooksAlike (b b' : OrderBook) : Prop where
  parked : b'.parked = b.parked
  notes : ∀ x y, b'.notesForPair x y = b.notesForPair x y
  best : ∀ x y, (b'.bestOrder x y).1 = (b.bestOrder x y).1
  level : ∀ x y, SameLevel (b'.bestLevel x y) (b.bestLevel x y)
  hasOrders : ∀ x y, b'.hasOrders x y = b.hasOrders x y

/-- **Same orders, same parked notes and same queues look alike**, and conversely the
queues can be read off the notes of the pairs. -/
theorem InStep.looksAlike_iff (h : b.InStep ∅) (h' : b'.InStep ∅) (horders : b'.orders = b.orders)
    (hparked : b'.parked = b.parked) :
    b.LooksAlike b' ↔ ∀ p, b'.queue p = b.queue p := by
  constructor
  · intro hl p
    rw [← h.notesForPair_ids p.1 p.2, ← h'.notesForPair_ids p.1 p.2, hl.notes]
  · intro hq
    have hkey : b'.keyOf = b.keyOf := funext fun i => keyOf_congr (by rw [horders])
    refine ⟨hparked, ?_, ?_, ?_, ?_⟩
    · intro x y
      rw [h.notesForPair, h'.notesForPair, hq, horders]
    · intro x y
      rw [h.bestOrder, h'.bestOrder, hq, horders]
    · intro x y
      refine (h'.bestLevel x y).trans_symm ?_
      rw [topLevel, hq, horders, hkey]
      exact h.bestLevel x y
    · intro x y
      have hiff := h.indexed.hasOrders_iff (a := x) (b := y)
      have hiff' := h'.indexed.hasOrders_iff (a := x) (b := y)
      rw [hq, ← hiff] at hiff'
      exact Bool.eq_iff_iff.mpr hiff'

end OrderBook

end PswapSolver
