import PswapSolver.OrderBook

/-! # The index of the order book

The index stores one fact in several places: the levels of each pair, a counter
per pair, and the adjacency of tokens in both directions.  `Index.Indexed` says
that they are in step: the levels represent a queue (`Coherent`), no id is queued
twice, the counter of a pair is the length of its queue, and a token pair is in
the adjacency maps exactly when its queue is not empty.

Every update of the index is one of two queue operations: `indexInsert` enqueues
(`Indexed.indexInsert`), and a decrement followed by `removeFromIndex` erases
(`Indexed.dequeue`).  The order book is reasoned about through these two and never
through the maps.
-/
namespace PswapSolver
open StableQueue

namespace Index

/-- The index is in step with itself, for orders of rates `key`. -/
structure Indexed (ix : Index) (key : OrderId → RateKey) : Prop where
  coherent : ∀ {p L}, ix.pairIndex.lookup p = some L → L ≠ [] ∧ Coherent key L
  nodup : ∀ p, (ix.queue p).Nodup
  count : ∀ p, (ix.activePairCount.lookup p).getD 0 = (ix.queue p).length
  outgoing : ∀ {a b}, b ∈ ix.neighbors a ↔ ix.queue (a, b) ≠ []
  incoming : ∀ {a b}, a ∈ ix.incomingNeighbors b ↔ ix.queue (a, b) ≠ []

variable {ix : Index} {key : OrderId → RateKey}

theorem Indexed.coherent_getD (h : ix.Indexed key) (p : Pair) :
    Coherent key ((ix.pairIndex.lookup p).getD []) := by
  cases hp : ix.pairIndex.lookup p with
  | none => exact coherent_nil
  | some L => exact (h.coherent hp).2

theorem Indexed.sorted (h : ix.Indexed key) (p : Pair) : Sorted key (ix.queue p) :=
  (h.coherent_getD p).sorted

/-- The index reads the rates of the queued ids and no others. -/
theorem Indexed.congr {key' : OrderId → RateKey} (h : ix.Indexed key)
    (heq : ∀ p, ∀ id ∈ ix.queue p, key' id = key id) : ix.Indexed key' where
  coherent := fun {p L} hp => by
    obtain ⟨hne, hco⟩ := h.coherent hp
    refine ⟨hne, hco.congr fun id hid => heq p id ?_⟩
    rwa [queue, hp]
  nodup := h.nodup
  count := h.count
  outgoing := h.outgoing
  incoming := h.incoming

theorem Indexed.hasOrders_iff (h : ix.Indexed key) {a b : TokenId} :
    ix.hasOrders a b = true ↔ ix.queue (a, b) ≠ [] := by
  have hc := h.count (a, b)
  rw [← List.length_pos_iff, ← hc, hasOrders]
  cases ix.activePairCount.lookup (a, b) with
  | none => simp
  | some c => simp

/-! ## The adjacency maps -/

theorem mem_link {adj : FiniteMap TokenId (Finset TokenId)} {k v k' v' : TokenId} :
    v' ∈ ((link adj k v).lookup k').getD ∅ ↔
      (k' = k ∧ v' = v) ∨ v' ∈ (adj.lookup k').getD ∅ := by
  rw [link, FiniteMap.lookup_insert_if]
  by_cases hk : k' = k
  · subst hk
    simp
  · simp [hk]

theorem mem_unlink {adj : FiniteMap TokenId (Finset TokenId)} {k v k' v' : TokenId} :
    v' ∈ ((unlink adj k v).lookup k').getD ∅ ↔
      ¬(k' = k ∧ v' = v) ∧ v' ∈ (adj.lookup k').getD ∅ := by
  unfold unlink
  cases hk : adj.lookup k with
  | none =>
    simp only [not_and]
    refine ⟨fun h => ⟨?_, h⟩, fun h => h.2⟩
    rintro rfl
    simp [hk] at h
  | some s =>
    by_cases hkk : k' = k
    · subst hkk
      simp only [true_and, hk, Option.getD_some]
      split
      · rename_i hempty
        rw [Finmap.lookup_erase, ← Finset.mem_erase, hempty]
        rfl
      · rw [Finmap.lookup_insert, ← Finset.mem_erase]
        rfl
    · simp only [hkk, false_and, not_false_eq_true, true_and]
      split
      · rw [Finmap.lookup_erase_ne hkk]
      · rw [Finmap.lookup_insert_of_ne _ hkk]

/-! ## Queueing and removing an id -/

theorem queue_of_lookup_insert {ix : Index} {m : FiniteMap Pair (List (RateKey × List OrderId))}
    {p : Pair} {L : List (RateKey × List OrderId)} (h : ix.pairIndex = m.insert p L) (p' : Pair) :
    ix.queue p' = if p' = p then items L else items ((m.lookup p').getD []) := by
  rw [queue, h, FiniteMap.lookup_insert_if]
  split <;> rfl

theorem queue_indexInsert (h : ix.Indexed key) (id : OrderId) (a b : TokenId) (p : Pair) :
    (ix.indexInsert id a b (key id)).queue p =
      if p = (a, b) then enqueue key id (ix.queue p) else ix.queue p := by
  rw [queue_of_lookup_insert rfl, ((h.coherent_getD (a, b)).pushBack id).2]
  split
  · rename_i hp
    rw [hp]
    rfl
  · rfl

/-- After `index_insert` a pair has a queue iff it is the new one or had a queue. -/
theorem queue_indexInsert_ne_nil (h : ix.Indexed key) (id : OrderId) (a b a' b' : TokenId) :
    (ix.indexInsert id a b (key id)).queue (a', b') ≠ [] ↔
      (a' = a ∧ b' = b) ∨ ix.queue (a', b') ≠ [] := by
  rw [queue_indexInsert h]
  by_cases hp : (a', b') = (a, b)
  · rw [if_pos hp]
    exact iff_of_true (fun hnil => enqueue_ne_nil hnil) (Or.inl (Prod.mk.inj hp))
  · rw [if_neg hp, or_iff_right fun heq => hp (Prod.ext heq.1 heq.2)]

/-- **`index_insert` queues the id** behind the orders of its pair that have a rate
at least as good. -/
theorem Indexed.indexInsert (h : ix.Indexed key) {id : OrderId} {a b : TokenId}
    (hid : id ∉ ix.queue (a, b)) : (ix.indexInsert id a b (key id)).Indexed key where
  coherent := fun {p L} hp => by
    rw [Index.indexInsert, FiniteMap.lookup_insert_if] at hp
    split at hp
    · cases hp
      obtain ⟨hco, hitems⟩ := (h.coherent_getD (a, b)).pushBack id
      refine ⟨fun hnil => ?_, hco⟩
      rw [hnil] at hitems
      exact enqueue_ne_nil hitems.symm
    · exact h.coherent hp
  nodup := fun p => by
    rw [queue_indexInsert h]
    split
    · rename_i hp
      subst hp
      exact nodup_enqueue hid (h.nodup _)
    · exact h.nodup p
  count := fun p => by
    rw [queue_indexInsert h, Index.indexInsert, FiniteMap.lookup_insert_if]
    split
    · rename_i hp
      rw [length_enqueue, ← h.count, hp]
      rfl
    · exact h.count p
  outgoing := fun {a' b'} => by
    rw [queue_indexInsert_ne_nil h, ← h.outgoing, neighbors, Index.indexInsert, mem_link]
    rfl
  incoming := fun {a' b'} => by
    rw [queue_indexInsert_ne_nil h, ← h.incoming, incomingNeighbors, Index.indexInsert, mem_link,
      and_comm]
    rfl

/-- `remove_from_index` on a pair that has levels. -/
theorem removeFromIndex_of_lookup {p : Pair} {L : List (RateKey × List OrderId)}
    (hp : ix.pairIndex.lookup p = some L) (k : RateKey) (id : OrderId) :
    ix.removeFromIndex p k id =
      if remove k id L = [] then
        { ix with
          pairIndex := ix.pairIndex.erase p
          userAdjacency := unlink ix.userAdjacency p.1 p.2
          incomingAdjacency := unlink ix.incomingAdjacency p.2 p.1 }
      else { ix with pairIndex := ix.pairIndex.insert p (remove k id L) } := by
  rw [removeFromIndex, hp]

theorem removeFromIndex_of_lookup_none {p : Pair} (hp : ix.pairIndex.lookup p = none)
    (k : RateKey) (id : OrderId) : ix.removeFromIndex p k id = ix := by
  rw [removeFromIndex, hp]

/-- The levels a removal leaves: no pair keeps an empty list of them. -/
theorem lookup_removeFromIndex (ix : Index) (p p' : Pair) (k : RateKey) (id : OrderId) :
    (ix.removeFromIndex p k id).pairIndex.lookup p' =
      if p' = p then ((ix.pairIndex.lookup p).map (remove k id)).filter (· ≠ [])
      else ix.pairIndex.lookup p' := by
  cases hp : ix.pairIndex.lookup p with
  | none =>
    rw [removeFromIndex_of_lookup_none hp]
    split
    · rename_i hpp
      rw [hpp, hp]
      rfl
    · rfl
  | some L =>
    rw [removeFromIndex_of_lookup hp]
    by_cases hnil : remove k id L = []
    · rw [if_pos hnil, FiniteMap.lookup_erase_if]
      simp [hnil, Option.filter]
    · rw [if_neg hnil, FiniteMap.lookup_insert_if]
      simp [hnil, Option.filter]

theorem queue_removeFromIndex (ix : Index) {p : Pair} {id : OrderId}
    (hco : Coherent key ((ix.pairIndex.lookup p).getD [])) (p' : Pair) :
    (ix.removeFromIndex p (key id) id).queue p' =
      if p' = p then (ix.queue p').erase id else ix.queue p' := by
  rw [queue, lookup_removeFromIndex]
  split
  · rename_i hp
    rw [queue, hp, ← (hco.remove id).2]
    cases ix.pairIndex.lookup p with
    | none => rfl
    | some L =>
      by_cases hnil : remove (key id) id L = [] <;> simp [hnil, Option.filter]
  · rfl

/-- A removal only takes ids out of the queues. -/
theorem queue_removeFromIndex_sublist (ix : Index) (p p' : Pair) (k : RateKey) (id : OrderId) :
    ((ix.removeFromIndex p k id).queue p').Sublist (ix.queue p') := by
  have hitems : ∀ L : List (RateKey × List OrderId), (items (remove k id L)).Sublist (items L) := by
    intro L
    induction L with
    | nil => exact List.Sublist.refl _
    | cons x L ih =>
      rw [remove]
      split
      · split
        · exact List.sublist_append_right _ _
        · exact List.Sublist.append (List.erase_sublist) (List.Sublist.refl _)
      · exact List.Sublist.append (List.Sublist.refl _) ih
  rw [queue, lookup_removeFromIndex]
  split
  · rename_i hp
    rw [queue, hp]
    cases ix.pairIndex.lookup p with
    | none => exact List.Sublist.refl _
    | some L =>
      by_cases hnil : remove k id L = []
      · simp [hnil, Option.filter]
      · simpa [hnil, Option.filter] using hitems L
  · exact List.Sublist.refl _

/-- Removing an id that is not queued changes nothing. -/
theorem Indexed.removeFromIndex_of_notMem (h : ix.Indexed key) {p : Pair} {id : OrderId}
    (hid : id ∉ ix.queue p) (k : RateKey) : ix.removeFromIndex p k id = ix := by
  cases hp : ix.pairIndex.lookup p with
  | none => exact removeFromIndex_of_lookup_none hp k id
  | some L =>
    obtain ⟨hne, hco⟩ := h.coherent hp
    rw [queue, hp] at hid
    rw [removeFromIndex_of_lookup hp, hco.remove_of_notMem k hid, if_neg hne,
      FiniteMap.insert_of_lookup hp]

/-- A removal takes exactly the pairs whose queue it empties out of the adjacency
maps. -/
theorem mem_neighbors_removeFromIndex (ix : Index) {p : Pair} {id : OrderId}
    (hco : Coherent key ((ix.pairIndex.lookup p).getD [])) (hid : id ∈ ix.queue p)
    (a b : TokenId) :
    (b ∈ (ix.removeFromIndex p (key id) id).neighbors a ↔
      b ∈ ix.neighbors a ∧ ¬((a, b) = p ∧ (ix.queue p).erase id = [])) ∧
    (a ∈ (ix.removeFromIndex p (key id) id).incomingNeighbors b ↔
      a ∈ ix.incomingNeighbors b ∧ ¬((a, b) = p ∧ (ix.queue p).erase id = [])) := by
  cases hp : ix.pairIndex.lookup p with
  | none =>
    rw [queue, hp] at hid
    cases hid
  | some L =>
    rw [hp, Option.getD_some] at hco
    obtain ⟨hco', hitems⟩ := hco.remove id
    have hempty : (ix.queue p).erase id = [] ↔ remove (key id) id L = [] := by
      rw [queue, hp, Option.getD_some, ← hitems, hco'.items_eq_nil_iff]
    rw [removeFromIndex_of_lookup hp]
    by_cases hnil : remove (key id) id L = []
    · rw [if_pos hnil, neighbors, mem_unlink, incomingNeighbors, mem_unlink]
      simp only [hempty, hnil, and_true, Prod.ext_iff]
      exact ⟨and_comm, by rw [and_comm, and_comm (a := b = p.2)]; rfl⟩
    · rw [if_neg hnil]
      simp only [hempty, hnil, and_false, not_false_eq_true, and_true]
      exact ⟨Iff.rfl, Iff.rfl⟩

theorem activePairCount_removeFromIndex (ix : Index) (p : Pair) (k : RateKey) (id : OrderId) :
    (ix.removeFromIndex p k id).activePairCount = ix.activePairCount := by
  unfold removeFromIndex
  split
  · rfl
  · dsimp only
    split <;> rfl

theorem Indexed.queue_dequeue (h : ix.Indexed key) (p : Pair) (id : OrderId) (p' : Pair) :
    ((ix.decrementCount p).removeFromIndex p (key id) id).queue p' =
      if p' = p then (ix.queue p').erase id else ix.queue p' :=
  queue_removeFromIndex (ix.decrementCount p) (h.coherent_getD p) p'

/-- A pair keeps a queue unless the last id is taken out of it. -/
theorem Indexed.queue_dequeue_ne_nil (h : ix.Indexed key) {p : Pair} {id : OrderId}
    (hid : id ∈ ix.queue p) (p' : Pair) :
    ((ix.decrementCount p).removeFromIndex p (key id) id).queue p' ≠ [] ↔
      ix.queue p' ≠ [] ∧ ¬ (p' = p ∧ (ix.queue p).erase id = []) := by
  rw [h.queue_dequeue]
  split
  · rename_i hp
    subst hp
    simp only [true_and]
    exact ⟨fun hne => ⟨List.ne_nil_of_mem hid, hne⟩, fun hne => hne.2⟩
  · rename_i hp
    simp only [hp, false_and, not_false_eq_true, and_true]

/-- **`remove_from_index` after the count went down takes the id out of its queue.**
No subtraction is clamped. -/
theorem Indexed.dequeue (h : ix.Indexed key) {p : Pair} {id : OrderId}
    (hid : id ∈ ix.queue p) :
    ((ix.decrementCount p).removeFromIndex p (key id) id).Indexed key where
  coherent := fun {p' L} hp => by
    rw [lookup_removeFromIndex] at hp
    split at hp
    · obtain ⟨hL, hne⟩ := Option.filter_eq_some_iff.mp hp
      obtain ⟨L₀, hL₀, rfl⟩ := Option.map_eq_some_iff.mp hL
      exact ⟨by simpa using hne, ((h.coherent hL₀).2.remove id).1⟩
    · exact h.coherent hp
  nodup := fun p' => by
    rw [h.queue_dequeue p id]
    split
    · exact (h.nodup p').erase id
    · exact h.nodup p'
  count := fun p' => by
    rw [h.queue_dequeue p id, activePairCount_removeFromIndex,
      decrementCount, FiniteMap.lookup_modify]
    have hcount := h.count p'
    split
    · rename_i hp
      subst hp
      rw [List.length_erase_of_mem hid]
      show _ = (ix.queue p').length - 1
      rw [← hcount]
      cases ix.activePairCount.lookup p' <;> rfl
    · exact hcount
  outgoing := fun {a b} => by
    rw [h.queue_dequeue_ne_nil hid, ← h.outgoing]
    exact (mem_neighbors_removeFromIndex (ix.decrementCount p) (h.coherent_getD p) hid a b).1
  incoming := fun {a b} => by
    rw [h.queue_dequeue_ne_nil hid, ← h.incoming]
    exact (mem_neighbors_removeFromIndex (ix.decrementCount p) (h.coherent_getD p) hid a b).2

end Index

end PswapSolver
