import PswapSolver.BookIndex

/-! # The representation invariant of the order book

`OrderBook.InStep` ties the orders to the index and to the parked notes: an id is
queued, under its own pair and rate, exactly when its order is active and not
parked; parked notes are active.  `ParkQueued` adds that every parked note has its
entry in the park queue, which is sorted by time.  `Inv` is both.

The `pending` of `InStep` are the orders that have been filled and not yet cleaned
up: between `fill` and `cleanup_if_filled` an order may be queued although nothing
of it is left.

Two lemmas carry all the others: an order enters its queue (`InStep.enqueue`) or
leaves it (`InStep.dequeue`), and each function of the book preserves the
invariant because it does one of the two.
-/
namespace PswapSolver
open StableQueue

namespace OrderBook

/-- The rate of the order stored under an id. -/
def keyOf (b : OrderBook) (id : OrderId) : RateKey :=
  ((b.orders.lookup id).map Order.rateKey).getD ⟨0, 1, Nat.one_pos⟩

theorem keyOf_of_lookup {b : OrderBook} {id : OrderId} {o : Order}
    (h : b.orders.lookup id = some o) : b.keyOf id = o.rateKey := by
  rw [keyOf, h]
  rfl

theorem keyOf_congr {b b' : OrderBook} {id : OrderId}
    (h : b'.orders.lookup id = b.orders.lookup id) : b'.keyOf id = b.keyOf id := by
  rw [keyOf, keyOf, h]

/-- The orders, the index and the parked notes are in step, up to the orders
`pending` that have been filled and not yet cleaned up. -/
structure InStep (b : OrderBook) (pending : Finset OrderId) : Prop where
  ids : ∀ {id o}, b.orders.lookup id = some o → o.id = id
  indexed : b.Indexed b.keyOf
  mem_queue : ∀ {p id}, id ∈ b.queue p ↔ ∃ o, b.orders.lookup id = some o ∧ o.pair = p ∧
    id ∉ b.parked ∧ (o.isActive = true ∨ id ∈ pending)
  parked_active : ∀ {id}, id ∈ b.parked → ∃ o, b.orders.lookup id = some o ∧ o.isActive = true
  tokens : ∀ {id o}, b.orders.lookup id = some o →
    o.offeredToken ∈ b.tokens ∧ o.requestedToken ∈ b.tokens

/-- Every parked note has its entry in the park queue, which is sorted by time. -/
structure ParkQueued (b : OrderBook) : Prop where
  queued : ∀ {id dex t}, b.parked.lookup id = some (dex, t) → (t, id) ∈ b.parkQueue
  sorted : b.parkQueue.Pairwise fun x y => x.1 ≤ y.1

/-- **The representation invariant.** -/
structure Inv (b : OrderBook) : Prop where
  inStep : b.InStep ∅
  parkQueued : b.ParkQueued

variable {b b' : OrderBook} {S : Finset OrderId} {id : OrderId} {o : Order}

theorem inv_new (feed : PriceFeed) : (new feed).Inv where
  inStep :=
    { ids := fun h => by cases h
      indexed :=
        { coherent := fun h => by cases h
          nodup := fun _ => List.nodup_nil
          count := fun _ => rfl
          outgoing := by simp [Index.neighbors, Index.queue, new]
          incoming := by simp [Index.incomingNeighbors, Index.queue, new] }
      mem_queue := by simp [Index.queue, new]
      parked_active := fun h => absurd h Finmap.notMem_empty
      tokens := fun h => by cases h }
  parkQueued := ⟨nofun, List.Pairwise.nil⟩

/-- An id is queued under its own pair only. -/
theorem InStep.pair_eq (h : b.InStep S) {p : Pair} (hid : id ∈ b.queue p)
    (ho : b.orders.lookup id = some o) : o.pair = p := by
  obtain ⟨o', ho', hp, -⟩ := h.mem_queue.mp hid
  rw [ho] at ho'
  cases ho'
  exact hp

/-- An active order that is not parked is queued. -/
theorem InStep.mem_queue_of_active (h : b.InStep S) (ho : b.orders.lookup id = some o)
    (hact : o.isActive = true) (hpark : id ∉ b.parked) : id ∈ b.queue o.pair :=
  h.mem_queue.mpr ⟨o, ho, rfl, hpark, Or.inl hact⟩

/-- The fields outside the index, the orders and the parked notes do not matter. -/
theorem InStep.of_eq (h : b.InStep S) (hix : b'.toIndex = b.toIndex)
    (hord : b'.orders = b.orders) (hpark : b'.parked = b.parked) (htok : b.tokens ⊆ b'.tokens) :
    b'.InStep S := by
  refine ⟨?_, ?_, ?_, ?_, ?_⟩
  · intro i o ho
    exact h.ids (hord ▸ ho)
  · rw [hix]
    exact h.indexed.congr fun _ i _ => keyOf_congr (by rw [hord])
  · intro p i
    rw [hix, hord, hpark, h.mem_queue]
  · intro i hi
    rw [hord]
    exact h.parked_active (hpark ▸ hi)
  · intro i o ho
    obtain ⟨h1, h2⟩ := h.tokens (hord ▸ ho)
    exact ⟨htok h1, htok h2⟩

/-! ### Changing one order

Every operation on the book changes it at one order: the others keep their places. -/

/-- What the invariant says of one order. -/
structure InStepAt (b : OrderBook) (pending : Finset OrderId) (id : OrderId) : Prop where
  ids : ∀ {o}, b.orders.lookup id = some o → o.id = id
  mem_queue : ∀ {p}, id ∈ b.queue p ↔ ∃ o, b.orders.lookup id = some o ∧ o.pair = p ∧
    id ∉ b.parked ∧ (o.isActive = true ∨ id ∈ pending)
  parked_active : id ∈ b.parked → ∃ o, b.orders.lookup id = some o ∧ o.isActive = true
  tokens : ∀ {o}, b.orders.lookup id = some o →
    o.offeredToken ∈ b.tokens ∧ o.requestedToken ∈ b.tokens

/-- **Only one order changes**: if the index is in order and that order is in step, all are. -/
theorem InStep.change {S' : Finset OrderId} (h : b.InStep S) (hix : b'.Indexed b'.keyOf)
    (hother : ∀ i, i ≠ id → b'.orders.lookup i = b.orders.lookup i ∧
      (i ∈ b'.parked ↔ i ∈ b.parked) ∧ (∀ p, i ∈ b'.queue p ↔ i ∈ b.queue p) ∧ (i ∈ S' ↔ i ∈ S))
    (htok : b.tokens ⊆ b'.tokens) (hself : b'.InStepAt S' id) : b'.InStep S' := by
  have hall : ∀ i, b'.InStepAt S' i := by
    intro i
    by_cases hi : i = id
    · exact hi ▸ hself
    · obtain ⟨hord, hpark, hqueue, hpending⟩ := hother i hi
      refine ⟨fun ho => h.ids (hord ▸ ho), fun {p} => ?_, fun hmem => ?_, fun ho => ?_⟩
      · rw [hqueue, h.mem_queue, hord, hpark, hpending]
      · rw [hord]
        exact h.parked_active (hpark.mp hmem)
      · obtain ⟨hoffered, hrequested⟩ := h.tokens (hord ▸ ho)
        exact ⟨htok hoffered, htok hrequested⟩
  exact ⟨(hall _).ids, hix, (hall _).mem_queue, (hall _).parked_active, (hall _).tokens⟩

/-! ### Queueing an order -/

/-- **An order that was not queued enters the queue of its pair.**  `b'` holds `o`
under `id`, unparked, and is otherwise `b`. -/
theorem InStep.enqueue (h : b.InStep S) (hid : o.id = id) (hact : o.isActive = true)
    (hnq : ∀ p, id ∉ b.queue p)
    (hix : b'.toIndex = b.indexInsert id o.offeredToken o.requestedToken o.rateKey)
    (hord : ∀ i, b'.orders.lookup i = if i = id then some o else b.orders.lookup i)
    (hpark : b'.parked = b.parked.erase id)
    (htok : b.tokens ⊆ b'.tokens ∧ o.offeredToken ∈ b'.tokens ∧ o.requestedToken ∈ b'.tokens) :
    b'.InStep S ∧ ∀ p, b'.queue p =
      if p = o.pair then StableQueue.enqueue b'.keyOf id (b.queue p) else b.queue p := by
  have hself : b'.orders.lookup id = some o := by rw [hord, if_pos rfl]
  have hother : ∀ {i}, i ≠ id → b'.orders.lookup i = b.orders.lookup i := fun {i} hi => by
    rw [hord, if_neg hi]
  have hparked : ∀ i, i ∈ b'.parked ↔ i ≠ id ∧ i ∈ b.parked := fun i => by
    rw [hpark, Finmap.mem_erase]
  have hixed : b.Indexed b'.keyOf := h.indexed.congr fun p i hi =>
    keyOf_congr (hother fun e => hnq p (e ▸ hi))
  rw [← keyOf_of_lookup hself] at hix
  have hqueue : ∀ p, b'.queue p =
      if p = o.pair then StableQueue.enqueue b'.keyOf id (b.queue p) else b.queue p := by
    intro p
    rw [hix]
    exact Index.queue_indexInsert hixed id o.offeredToken o.requestedToken p
  have hsame : ∀ {o'}, b'.orders.lookup id = some o' → o = o' := fun ho' =>
    Option.some.inj (hself.symm.trans ho')
  refine ⟨h.change ?_ (fun i hi => ⟨hother hi, ?_, fun p => ?_, Iff.rfl⟩) htok.1 ⟨?_, ?_, ?_, ?_⟩,
    hqueue⟩
  · rw [hix]
    exact hixed.indexInsert (hnq _)
  · exact (hparked i).trans (and_iff_right hi)
  · rw [hqueue]
    split
    · rw [mem_enqueue]
      simp [hi]
    · rfl
  · intro o' ho'
    exact hsame ho' ▸ hid
  · intro p
    rw [hqueue, hself]
    constructor
    · intro hmem
      split at hmem
      · rename_i hp
        exact ⟨o, rfl, hp.symm, fun hc => ((hparked id).mp hc).1 rfl, Or.inl hact⟩
      · exact absurd hmem (hnq p)
    · rintro ⟨o', ho', rfl, -⟩
      cases ho'
      rw [if_pos rfl]
      exact mem_enqueue.mpr (Or.inl rfl)
  · exact fun hc => absurd rfl ((hparked id).mp hc).1
  · intro o' ho'
    exact hsame ho' ▸ htok.2

/-! ### Taking an order out of its queue -/

/-- **A queued order leaves the queue.**  In `b'` the order is gone, or parked, or
filled and no longer pending; the rest of the book is as in `b`. -/
theorem InStep.dequeue (h : b.InStep S) (ho : b.orders.lookup id = some o)
    (hq : id ∈ b.queue o.pair)
    (hix : b'.toIndex = (b.decrementCount o.pair).removeFromIndex o.pair o.rateKey id)
    (hother : ∀ i, i ≠ id → b'.orders.lookup i = b.orders.lookup i ∧
      (i ∈ b'.parked ↔ i ∈ b.parked))
    (hself : (b'.orders.lookup id = none ∧ id ∉ b'.parked) ∨ (b'.orders.lookup id = some o ∧
      (id ∈ b'.parked ↔ o.isActive = true)))
    (htok : b'.tokens = b.tokens) :
    b'.InStep (S.erase id) ∧ ∀ p, b'.queue p =
      if p = o.pair then (b.queue p).erase id else b.queue p := by
  have hself' : ∀ {o'}, b'.orders.lookup id = some o' → o' = o := fun {o'} ho' => by
    rcases hself with ⟨hnone, -⟩ | ⟨hsome, -⟩
    · rw [hnone] at ho'
      cases ho'
    · rw [hsome] at ho'
      exact (Option.some.inj ho').symm
  rw [← keyOf_of_lookup ho] at hix
  have hqueue : ∀ p, b'.queue p = if p = o.pair then (b.queue p).erase id else b.queue p := by
    intro p
    rw [hix]
    exact h.indexed.queue_dequeue o.pair id p
  have hgone : ∀ p, id ∉ b'.queue p := by
    intro p hp
    rw [hqueue] at hp
    split at hp
    · exact (h.indexed.nodup p).not_mem_erase hp
    · rename_i hne
      exact hne (h.pair_eq hp ho).symm
  refine ⟨h.change ?_ (fun i hi => ⟨(hother i hi).1, (hother i hi).2, fun p => ?_, ?_⟩)
    (htok ▸ Finset.Subset.refl _) ⟨?_, ?_, ?_, ?_⟩, hqueue⟩
  · have hixed := h.indexed.dequeue hq
    rw [← hix] at hixed
    exact hixed.congr fun p i hi => keyOf_congr (hother i fun e => hgone p (e ▸ hi)).1
  · rw [hqueue]
    split
    · exact List.mem_erase_of_ne hi
    · rfl
  · exact Finset.mem_erase.trans (and_iff_right hi)
  · intro o' ho'
    rw [hself' ho']
    exact h.ids ho
  · intro p
    refine ⟨fun hmem => absurd hmem (hgone p), ?_⟩
    rintro ⟨o', ho', -, hnp, hact⟩
    have hact : o'.isActive = true := hact.resolve_right (Finset.notMem_erase id S)
    rcases hself with ⟨hnone, -⟩ | ⟨-, hparked⟩
    · rw [hnone] at ho'
      cases ho'
    · exact absurd (hparked.mpr (hself' ho' ▸ hact)) hnp
  · intro hpark
    rcases hself with ⟨-, hnp⟩ | ⟨hsome, hparked⟩
    · exact absurd hpark hnp
    · exact ⟨o, hsome, hparked.mp hpark⟩
  · intro o' ho'
    rw [htok, hself' ho']
    exact h.tokens ho

/-! ### The operations -/

/-- **A new order is queued**, as is a parked one that is added again. -/
theorem InStep.addUserOrder (h : b.InStep ∅) {terms : OrderTerms}
    (hnew : ¬(id ∈ b.orders ∧ id ∉ b.parked)) :
    (b.addUserOrder id terms).InStep ∅ ∧ ∀ p, (b.addUserOrder id terms).queue p =
      if p = (Order.fresh id terms).pair then
        StableQueue.enqueue (b.addUserOrder id terms).keyOf id (b.queue p)
      else b.queue p := by
  have hnq : ∀ p, id ∉ b.queue p := by
    intro p hp
    obtain ⟨o, ho, -, hpark, -⟩ := h.mem_queue.mp hp
    exact hnew ⟨FiniteMap.mem_of_lookup ho, hpark⟩
  have hact : (Order.fresh id terms).isActive = true := by
    rw [Order.isActive_iff]
    exact terms.requested_pos
  unfold OrderBook.addUserOrder
  rw [if_neg hnew]
  refine h.enqueue (o := Order.fresh id terms) rfl hact hnq rfl
    (fun i => FiniteMap.lookup_insert_if ..) rfl ⟨?_, ?_, ?_⟩
  · exact fun t ht => Finset.mem_insert_of_mem (Finset.mem_insert_of_mem ht)
  · exact Finset.mem_insert_of_mem (Finset.mem_insert_self ..)
  · exact Finset.mem_insert_self ..

theorem addUserOrder_of_mem {terms : OrderTerms} (hold : id ∈ b.orders ∧ id ∉ b.parked) :
    b.addUserOrder id terms = b := if_pos hold

theorem Inv.addUserOrder (h : b.Inv) (id : OrderId) (terms : OrderTerms) :
    (b.addUserOrder id terms).Inv := by
  by_cases hold : id ∈ b.orders ∧ id ∉ b.parked
  · rw [addUserOrder_of_mem hold]
    exact h
  · refine ⟨(h.inStep.addUserOrder hold).1, ?_⟩
    unfold OrderBook.addUserOrder
    rw [if_neg hold]
    refine ⟨fun {i dex t} hi => ?_, h.parkQueued.sorted⟩
    rw [FiniteMap.lookup_erase_if] at hi
    split at hi
    · cases hi
    · exact h.parkQueued.queued hi

/-- Taking notes out of `parked` leaves the park queue's invariant alone. -/
theorem ParkQueued.of_erase (h : b.ParkQueued) (hpark : b'.parked = b.parked.erase id)
    (hqueue : b'.parkQueue = b.parkQueue) : b'.ParkQueued := by
  refine ⟨fun {i dex t} hi => ?_, hqueue ▸ h.sorted⟩
  rw [hpark, FiniteMap.lookup_erase_if] at hi
  split at hi
  · cases hi
  · exact hqueue ▸ h.queued hi

theorem ParkQueued.of_eq (h : b.ParkQueued) (hpark : b'.parked = b.parked)
    (hqueue : b'.parkQueue = b.parkQueue) : b'.ParkQueued :=
  ⟨fun hi => hqueue ▸ h.queued (hpark ▸ hi), hqueue ▸ h.sorted⟩

/-- An order that is not queued can be dropped without touching the index. -/
theorem InStep.forget (h : b.InStep S) (hnq : ∀ p, id ∉ b.queue p)
    (hix : b'.toIndex = b.toIndex)
    (hother : ∀ i, i ≠ id → b'.orders.lookup i = b.orders.lookup i ∧
      (i ∈ b'.parked ↔ i ∈ b.parked))
    (hself : b'.orders.lookup id = none ∧ id ∉ b'.parked) (htok : b'.tokens = b.tokens) :
    b'.InStep S := by
  have hgone : ∀ {o}, b'.orders.lookup id ≠ some o := by
    rw [hself.1]
    exact nofun
  refine h.change ?_ (fun i hi => ⟨(hother i hi).1, (hother i hi).2, fun p => ?_, Iff.rfl⟩)
    (htok ▸ Finset.Subset.refl _) ⟨fun ho => absurd ho hgone, fun {p} => ?_,
      fun hpark => absurd hpark hself.2, fun ho => absurd ho hgone⟩
  · rw [hix]
    exact h.indexed.congr fun p i hi => keyOf_congr (hother i fun e => hnq p (e ▸ hi)).1
  · rw [hix]
  · rw [hix]
    refine ⟨fun hmem => absurd hmem (hnq p), ?_⟩
    rintro ⟨o, ho, -⟩
    exact absurd ho hgone

theorem Inv.removeOrder (h : b.Inv) (id : OrderId) : (b.removeOrder id).Inv := by
  unfold OrderBook.removeOrder
  cases ho : b.orders.lookup id with
  | none => exact h
  | some o =>
    dsimp only
    have hself : (b.orders.erase id).lookup id = none := Finmap.lookup_erase ..
    have hother : ∀ i, i ≠ id → (b.orders.erase id).lookup i = b.orders.lookup i := fun i hi =>
      Finmap.lookup_erase_ne hi
    by_cases hpark : id ∈ b.parked
    · -- a parked note is not queued
      rw [if_pos hpark]
      have hnq : ∀ p, id ∉ b.queue p := by
        intro p hp
        obtain ⟨-, -, -, hnp, -⟩ := h.inStep.mem_queue.mp hp
        exact hnp hpark
      refine ⟨h.inStep.forget hnq ?_ ?_ ?_ ?_, h.parkQueued.of_erase rfl rfl⟩
      · rfl
      · intro i hi
        exact ⟨hother i hi, by simp [Finmap.mem_erase, hi]⟩
      · exact ⟨hself, by simp [Finmap.mem_erase]⟩
      · rfl
    rw [if_neg hpark]
    by_cases hact : o.isActive = true
    · rw [if_pos hact]
      refine ⟨(h.inStep.dequeue ho (h.inStep.mem_queue_of_active ho hact hpark) ?_ ?_ ?_ ?_).1,
        h.parkQueued.of_eq rfl rfl⟩
      · rfl
      · intro i hi
        exact ⟨hother i hi, Iff.rfl⟩
      · exact Or.inl ⟨hself, hpark⟩
      · rfl
    · -- a filled order left the index when it was cleaned up
      have hnq : ∀ p, id ∉ b.queue p := by
        intro p hp
        obtain ⟨o', ho', -, -, hact'⟩ := h.inStep.mem_queue.mp hp
        rw [ho] at ho'
        cases ho'
        exact hact (hact'.resolve_right (Finset.notMem_empty _))
      rw [if_neg hact]
      refine ⟨h.inStep.forget hnq ?_ (fun i hi => ⟨hother i hi, Iff.rfl⟩) ⟨hself, hpark⟩ rfl,
        h.parkQueued.of_eq rfl rfl⟩
      exact h.inStep.indexed.removeFromIndex_of_notMem (hnq o.pair) o.rateKey

/-- Parking keeps the invariant when the clock does not run backwards. -/
theorem Inv.park (h : b.Inv) {time : Nat} (htime : ∀ e ∈ b.parkQueue, e.1 ≤ time) (id : OrderId)
    (dex : DexId) : (b.park id dex time).Inv := by
  unfold OrderBook.park
  by_cases hpark : id ∈ b.parked
  · rw [if_pos hpark]
    exact h
  rw [if_neg hpark]
  cases ho : b.orders.lookup id with
  | none => exact h
  | some o =>
    dsimp only
    by_cases hact : o.isActive = true
    · rw [hact]
      refine ⟨(h.inStep.dequeue ho (h.inStep.mem_queue_of_active ho hact hpark) ?_ ?_ ?_ ?_).1,
        ?_, ?_⟩
      · rfl
      · intro i hi
        exact ⟨rfl, Finmap.mem_insert.trans (or_iff_right hi)⟩
      · exact Or.inr ⟨ho, iff_of_true (Finmap.mem_insert.mpr (Or.inl rfl)) hact⟩
      · rfl
      · intro i dex' t hi
        change (b.parked.insert id (dex, time)).lookup i = _ at hi
        rw [FiniteMap.lookup_insert_if] at hi
        refine List.mem_append.mpr ?_
        split at hi
        · rename_i hid
          cases hi
          exact Or.inr (by rw [hid]; exact List.mem_singleton.mpr rfl)
        · exact Or.inl (h.parkQueued.queued hi)
      · refine List.pairwise_append.mpr ⟨h.parkQueued.sorted, List.pairwise_singleton _ _, ?_⟩
        intro e he e' he'
        rw [List.mem_singleton.mp he']
        exact htime e he
    · rw [Bool.not_eq_true] at hact
      rw [hact]
      exact h

/-- What `unpark` does to a parked note: it is queued again, behind the orders of
its rate, and its order is as before. -/
theorem InStep.unpark (h : b.InStep S) {dex : DexId} {t : Nat}
    (hpark : b.parked.lookup id = some (dex, t)) :
    ∃ o, b.orders.lookup id = some o ∧ o.isActive = true ∧
      b.unpark id = (some dex,
        { b with
          parked := b.parked.erase id
          toIndex := b.indexInsert id o.offeredToken o.requestedToken o.rateKey }) ∧
      (b.unpark id).2.InStep S := by
  have hmem : id ∈ b.parked := FiniteMap.mem_of_lookup hpark
  obtain ⟨o, ho, hact⟩ := h.parked_active hmem
  have heq : b.unpark id = (some dex,
      { b with
        parked := b.parked.erase id
        toIndex := b.indexInsert id o.offeredToken o.requestedToken o.rateKey }) := by
    unfold OrderBook.unpark OrderBook.reindex
    rw [hpark]
    dsimp only
    rw [ho]
    dsimp only
    rw [hact]
    rfl
  refine ⟨o, ho, hact, heq, ?_⟩
  have hnq : ∀ p, id ∉ b.queue p := by
    intro p hp
    obtain ⟨-, -, -, hnp, -⟩ := h.mem_queue.mp hp
    exact hnp hmem
  rw [heq]
  refine (h.enqueue (h.ids ho) hact hnq ?_ ?_ ?_ ?_).1
  · rfl
  · intro i
    split
    · rename_i hi
      rw [hi]
      exact ho
    · rfl
  · rfl
  · exact ⟨fun _ ht => ht, h.tokens ho⟩

theorem unpark_of_notMem (hpark : id ∉ b.parked) : b.unpark id = (none, b) := by
  rw [OrderBook.unpark, Finmap.lookup_eq_none.mpr hpark]

theorem Inv.unpark (h : b.Inv) (id : OrderId) : (b.unpark id).2.Inv := by
  by_cases hpark : id ∈ b.parked
  · obtain ⟨⟨dex, t⟩, hlookup⟩ := Finmap.mem_iff.mp hpark
    obtain ⟨o, -, -, heq, hstep⟩ := h.inStep.unpark hlookup
    refine ⟨hstep, ?_⟩
    rw [heq]
    exact h.parkQueued.of_erase rfl rfl
  · rw [unpark_of_notMem hpark]
    exact h

/-- One round of the sweep: the front entry goes, and with it the park it names. -/
theorem Inv.popPark (h : b.Inv) {t : Nat} {rest : List (Nat × OrderId)}
    (hq : b.parkQueue = (t, id) :: rest) : (({ b with parkQueue := rest }).unpark id).2.Inv := by
  have hstep : ({ b with parkQueue := rest } : OrderBook).InStep ∅ :=
    h.inStep.of_eq rfl rfl rfl fun _ ht => ht
  have hsorted := h.parkQueued.sorted
  rw [hq] at hsorted
  have hrest : rest.Pairwise fun x y => x.1 ≤ y.1 := (List.pairwise_cons.mp hsorted).2
  have hentry : ∀ {i dex t'}, b.parked.lookup i = some (dex, t') → i ≠ id → (t', i) ∈ rest := by
    intro i dex t' hi hne
    have := h.parkQueued.queued hi
    rw [hq, List.mem_cons] at this
    exact this.resolve_left fun e => hne (Prod.mk.inj e).2
  by_cases hpark : id ∈ b.parked
  · obtain ⟨⟨dex, t'⟩, hlookup⟩ := Finmap.mem_iff.mp hpark
    obtain ⟨o, -, -, heq, hstep⟩ := hstep.unpark hlookup
    refine ⟨hstep, ?_⟩
    rw [heq]
    refine ⟨fun {i dex' t''} hi => ?_, hrest⟩
    change (b.parked.erase id).lookup i = _ at hi
    rw [FiniteMap.lookup_erase_if] at hi
    split at hi
    · cases hi
    · exact hentry hi ‹_›
  · have heq : ({ b with parkQueue := rest } : OrderBook).unpark id = (none, _) :=
      unpark_of_notMem hpark
    rw [heq]
    refine ⟨hstep, fun {i dex t'} hi => hentry hi ?_, hrest⟩
    rintro rfl
    exact hpark (FiniteMap.mem_of_lookup hi)

theorem unpark_parkQueue (b : OrderBook) (id : OrderId) :
    (b.unpark id).2.parkQueue = b.parkQueue := by
  unfold OrderBook.unpark OrderBook.reindex
  split
  · rfl
  · dsimp only
    split
    · rfl
    · split <;> rfl

/-- The round of the sweep whose front entry has expired. -/
theorem reactivateLoop_cons {ttl time t : Nat} {rest : List (Nat × OrderId)}
    (hexp : satAdd64 t ttl ≤ time) (b : OrderBook) :
    reactivateLoop ttl time ((t, id) :: rest) b =
      ((({ b with parkQueue := rest }).unpark id).1.toList.map (fun dex => (id, dex)) ++
        (reactivateLoop ttl time rest (({ b with parkQueue := rest }).unpark id).2).1,
        (reactivateLoop ttl time rest (({ b with parkQueue := rest }).unpark id).2).2) := by
  rw [reactivateLoop, if_neg (Nat.not_lt.mpr hexp)]
  cases hu : ({ b with parkQueue := rest }).unpark id with
  | mk dex b' => cases dex <;> rfl

theorem Inv.reactivateLoop (ttl time : Nat) {queue : List (Nat × OrderId)} (h : b.Inv)
    (hq : b.parkQueue = queue) : (reactivateLoop ttl time queue b).2.Inv := by
  induction queue generalizing b with
  | nil => exact h
  | cons e rest ih =>
    obtain ⟨t, id⟩ := e
    by_cases hexp : satAdd64 t ttl ≤ time
    · rw [reactivateLoop_cons hexp]
      exact ih (h.popPark hq) (unpark_parkQueue _ _)
    · rw [OrderBook.reactivateLoop, if_pos (Nat.lt_of_not_le hexp)]
      exact h

theorem Inv.reactivateParkedOlderThan (h : b.Inv) (ttl time : Nat) :
    (b.reactivateParkedOlderThan ttl time).2.Inv :=
  h.reactivateLoop ttl time rfl

/-! ### Fills -/

/-- Writing back an order of unchanged terms makes it pending. -/
theorem InStep.setOrder (h : b.InStep S) (ho : b.orders.lookup id = some o)
    (hq : id ∈ b.queue o.pair) {o' : Order} (hterms : o'.toOrderTerms = o.toOrderTerms)
    (hid : o'.id = o.id) : ({ b with orders := b.orders.insert id o' }).InStep (insert id S) := by
  have hpair : o'.pair = o.pair := by
    rw [Order.pair, Order.pair, hterms]
  have hkey : o'.rateKey = o.rateKey := by
    rw [Order.rateKey, Order.rateKey]
    congr 1 <;> rw [hterms]
  have hnp : id ∉ b.parked := by
    obtain ⟨-, -, -, hnp, -⟩ := h.mem_queue.mp hq
    exact hnp
  have hkeyOf : ∀ i, ({ b with orders := b.orders.insert id o' } : OrderBook).keyOf i =
      b.keyOf i := by
    intro i
    by_cases hi : i = id
    · subst hi
      rw [keyOf_of_lookup ho, ← hkey]
      exact keyOf_of_lookup (Finmap.lookup_insert _)
    · exact keyOf_congr (Finmap.lookup_insert_of_ne _ hi)
  have hself : (b.orders.insert id o').lookup id = some o' := Finmap.lookup_insert _
  refine h.change (h.indexed.congr fun _ i _ => hkeyOf i) (fun i hi =>
    ⟨Finmap.lookup_insert_of_ne _ hi, Iff.rfl, fun p => Iff.rfl, ?_⟩) (Finset.Subset.refl _)
    ⟨fun ho₁ => ?_, fun {p} => ?_, fun hpark => absurd hpark hnp, fun ho₁ => ?_⟩
  · exact Finset.mem_insert.trans (or_iff_right hi)
  · cases hself.symm.trans ho₁
    rw [hid, h.ids ho]
  · constructor
    · intro hmem
      exact ⟨o', hself, hpair.trans (h.pair_eq hmem ho), hnp, Or.inr (Finset.mem_insert_self ..)⟩
    · rintro ⟨o₁, ho₁, rfl, -⟩
      cases hself.symm.trans ho₁
      exact hpair.symm ▸ hq
  · cases hself.symm.trans ho₁
    rw [hterms]
    exact h.tokens ho

/-- Cleaning up settles a pending order. -/
theorem InStep.cleanupIfFilled (h : b.InStep S) (id : OrderId) (hid : id ∈ S) :
    (b.cleanupIfFilled id).InStep (S.erase id) := by
  have hsettled : (∀ o, b.orders.lookup id = some o → o.isActive = true) →
      b.InStep (S.erase id) := by
    intro hact
    refine ⟨h.ids, h.indexed, ?_, h.parked_active, h.tokens⟩
    intro p i
    rw [h.mem_queue]
    refine exists_congr fun o => and_congr_right fun ho => and_congr_right fun _ =>
      and_congr_right fun _ => ?_
    by_cases hi : i = id
    · subst hi
      simp [hact o ho]
    · simp [hi]
  unfold OrderBook.cleanupIfFilled
  cases ho : b.orders.lookup id with
  | none => exact hsettled fun o ho' => by rw [ho] at ho'; cases ho'
  | some o =>
    dsimp only
    by_cases hfull : o.isCompletelyFilled = true
    · rw [hfull]
      rw [Order.isCompletelyFilled_iff, ← Order.isActive_eq_false_iff] at hfull
      have hnp : id ∉ b.parked := by
        intro hpark
        obtain ⟨o', ho', hact⟩ := h.parked_active hpark
        rw [ho] at ho'
        cases ho'
        rw [hfull] at hact
        cases hact
      refine (h.dequeue ho (h.mem_queue.mpr ⟨o, ho, rfl, hnp, Or.inr hid⟩) ?_ ?_ ?_ ?_).1
      · rfl
      · exact fun i _ => ⟨rfl, Iff.rfl⟩
      · exact Or.inr ⟨ho, iff_of_false hnp (by rw [hfull]; decide)⟩
      · rfl
    · have hactive : o.isActive = true := by
        rw [Order.isCompletelyFilled_iff] at hfull
        rw [Order.isActive_iff]
        omega
      rw [Bool.not_eq_true] at hfull
      rw [hfull]
      refine hsettled fun o' ho' => ?_
      rw [ho] at ho'
      cases ho'
      exact hactive

/-- A cleanup rewrites the index and nothing else. -/
theorem cleanupIfFilled_eq (b : OrderBook) (id : OrderId) :
    ∃ ix, b.cleanupIfFilled id = { b with toIndex := ix } := by
  unfold OrderBook.cleanupIfFilled
  split
  · exact ⟨b.toIndex, rfl⟩
  · split
    · exact ⟨b.toIndex, rfl⟩
    · exact ⟨_, rfl⟩

theorem cleanupIfFilled_queue_sublist (b : OrderBook) (id : OrderId) (p : Pair) :
    ((b.cleanupIfFilled id).queue p).Sublist (b.queue p) := by
  unfold cleanupIfFilled
  split
  · exact List.Sublist.refl _
  · split
    · exact List.Sublist.refl _
    · exact Index.queue_removeFromIndex_sublist (b.decrementCount _) _ p _ _

section CleanupFrame
variable (b : OrderBook) (id : OrderId)

@[simp] theorem cleanupIfFilled_orders : (b.cleanupIfFilled id).orders = b.orders := by
  obtain ⟨ix, h⟩ := b.cleanupIfFilled_eq id
  rw [h]

@[simp] theorem cleanupIfFilled_parked : (b.cleanupIfFilled id).parked = b.parked := by
  obtain ⟨ix, h⟩ := b.cleanupIfFilled_eq id
  rw [h]

@[simp] theorem cleanupIfFilled_parkQueue : (b.cleanupIfFilled id).parkQueue = b.parkQueue := by
  obtain ⟨ix, h⟩ := b.cleanupIfFilled_eq id
  rw [h]

@[simp] theorem cleanupIfFilled_protocolBalances :
    (b.cleanupIfFilled id).protocolBalances = b.protocolBalances := by
  obtain ⟨ix, h⟩ := b.cleanupIfFilled_eq id
  rw [h]

@[simp] theorem cleanupIfFilled_feed : (b.cleanupIfFilled id).feed = b.feed := by
  obtain ⟨ix, h⟩ := b.cleanupIfFilled_eq id
  rw [h]

end CleanupFrame

/-- The protocol's balance of a token. -/
def balance (b : OrderBook) (token : TokenId) : Nat := (b.protocolBalances.lookup token).getD 0

/-- A credit rewrites the balances and the token set and nothing else. -/
theorem addProtocolBalance_eq (b : OrderBook) (token : TokenId) (amount : Nat) :
    ∃ m t, b.addProtocolBalance token amount = { b with protocolBalances := m, tokens := t } := by
  unfold OrderBook.addProtocolBalance
  split
  · exact ⟨b.protocolBalances, b.tokens, rfl⟩
  · exact ⟨_, _, rfl⟩

section BalanceFrame
variable (b : OrderBook) (token : TokenId) (amount : Nat)

@[simp] theorem addProtocolBalance_toIndex :
    (b.addProtocolBalance token amount).toIndex = b.toIndex := by
  obtain ⟨m, t, h⟩ := b.addProtocolBalance_eq token amount
  rw [h]

@[simp] theorem addProtocolBalance_orders :
    (b.addProtocolBalance token amount).orders = b.orders := by
  obtain ⟨m, t, h⟩ := b.addProtocolBalance_eq token amount
  rw [h]

@[simp] theorem addProtocolBalance_parked :
    (b.addProtocolBalance token amount).parked = b.parked := by
  obtain ⟨m, t, h⟩ := b.addProtocolBalance_eq token amount
  rw [h]

@[simp] theorem addProtocolBalance_parkQueue :
    (b.addProtocolBalance token amount).parkQueue = b.parkQueue := by
  obtain ⟨m, t, h⟩ := b.addProtocolBalance_eq token amount
  rw [h]

@[simp] theorem addProtocolBalance_feed :
    (b.addProtocolBalance token amount).feed = b.feed := by
  obtain ⟨m, t, h⟩ := b.addProtocolBalance_eq token amount
  rw [h]

@[simp] theorem balance_addProtocolBalance (t : TokenId) :
    (b.addProtocolBalance token amount).balance t =
      b.balance t + if t = token then amount else 0 := by
  unfold OrderBook.addProtocolBalance
  split
  · rename_i h0
    simp [h0]
  · rw [balance, FiniteMap.lookup_insert_if]
    by_cases ht : t = token
    · subst ht
      simp [balance]
    · simp [ht, balance]

@[simp] theorem balance_cleanupIfFilled (id : OrderId) (t : TokenId) :
    (b.cleanupIfFilled id).balance t = b.balance t := by
  rw [balance, cleanupIfFilled_protocolBalances, balance]

end BalanceFrame

theorem InStep.addProtocolBalance (h : b.InStep S) (token : TokenId) (amount : Nat) :
    (b.addProtocolBalance token amount).InStep S := by
  unfold OrderBook.addProtocolBalance
  split
  · exact h
  · exact h.of_eq rfl rfl rfl fun _ ht => Finset.mem_insert_of_mem ht

/-! ### The best order -/

/-- No queued order is stale, so nothing is pruned. -/
theorem pruneLevels_of_live {orders : FiniteMap OrderId Order} {key : OrderId → RateKey}
    {L : List (RateKey × List OrderId)} (hco : Coherent key L)
    (hlive : ∀ i ∈ items L, isStale orders i = false) :
    pruneLevels orders L = ((items L).head?.bind orders.lookup, L) := by
  cases L with
  | nil => rfl
  | cons x L =>
    obtain ⟨k, ids⟩ := x
    cases ids with
    | nil => exact absurd rfl (hco.nonempty _ (List.mem_cons_self ..))
    | cons i ids =>
      have hi : isStale orders i = false := hlive i (List.mem_append_left _ (List.mem_cons_self ..))
      rw [pruneLevels, List.dropWhile_cons_of_neg (by rw [hi]; decide)]
      rfl

/-- **`best_order` returns the head of the queue** and leaves the book alone. -/
theorem InStep.bestOrder (h : b.InStep ∅) (x y : TokenId) :
    b.bestOrder x y = ((b.queue (x, y)).head?.bind b.orders.lookup, b) := by
  unfold OrderBook.bestOrder
  cases hp : b.pairIndex.lookup (x, y) with
  | none => simp [Index.queue, hp]
  | some L =>
    have hlive : ∀ i ∈ items L, isStale b.orders i = false := by
      intro i hi
      have hi : i ∈ b.queue (x, y) := by rwa [Index.queue, hp]
      obtain ⟨o, ho, -, -, hact⟩ := h.mem_queue.mp hi
      rw [isStale, ho]
      simpa using hact
    dsimp only
    rw [pruneLevels_of_live (h.indexed.coherent hp).2 hlive]
    dsimp only
    rw [FiniteMap.insert_of_lookup hp, Index.queue, hp]
    rfl

/-- The best order stands first. -/
theorem InStep.bestOrder_head (h : b.InStep ∅) {x y : TokenId} (ho : (b.bestOrder x y).1 = some o) :
    (b.queue (x, y)).head? = some o.id := by
  rw [h.bestOrder] at ho
  obtain ⟨i, hi, hlookup⟩ := Option.bind_eq_some_iff.mp ho
  rw [hi, h.ids hlookup]

/-- The best order is a queued one of the pair. -/
theorem InStep.bestOrder_some (h : b.InStep ∅) {x y : TokenId} (ho : (b.bestOrder x y).1 = some o) :
    b.orders.lookup o.id = some o ∧ o.id ∈ b.queue (x, y) ∧ o.offeredToken = x ∧
      o.requestedToken = y := by
  rw [h.bestOrder] at ho
  obtain ⟨i, hi, hlookup⟩ := Option.bind_eq_some_iff.mp ho
  have hmem : i ∈ b.queue (x, y) := List.mem_of_head? hi
  have hpair := h.pair_eq hmem hlookup
  rw [h.ids hlookup]
  exact ⟨hlookup, hmem, congrArg Prod.fst hpair, congrArg Prod.snd hpair⟩

end OrderBook

end PswapSolver
