import PswapSolver.BookInvariant

/-! # Parked notes and the sweep

A parked note is exclusive to the DEX it was handed to until it is consumed or its
in-flight window ends.  The window is tracked twice: `parked` stores when the current
park was made, `parkQueue` holds an entry for every park ever made, in time order.  The
sweep reads the queue only, and an entry of a park that was undone is still there.

`reactivateLoop_spec` says what the sweep does, and `Inv.returnsExpired_iff` when that is
what the stored times say.  The first half of the module lists what the operations of
the book do to its orders, its parked notes and the queue.
-/
namespace PswapSolver
open StableQueue

namespace OrderBook
variable {b : OrderBook} {id i : OrderId}

/-! ## Orders, parked notes and the queue under each operation -/

section Frame
variable (b : OrderBook) (id : OrderId) (terms : OrderTerms)

@[simp] theorem mem_orders_addUserOrder :
    i ∈ (b.addUserOrder id terms).orders ↔ i = id ∨ i ∈ b.orders := by
  unfold addUserOrder
  split
  · rename_i h
    refine ⟨Or.inr, ?_⟩
    rintro (rfl | hi)
    · exact h.1
    · exact hi
  · exact Finmap.mem_insert

theorem addUserOrder_parked_of_ne (h : i ≠ id) :
    (b.addUserOrder id terms).parked.lookup i = b.parked.lookup i := by
  unfold addUserOrder
  split
  · rfl
  · exact Finmap.lookup_erase_ne h

@[simp] theorem addUserOrder_parkQueue : (b.addUserOrder id terms).parkQueue = b.parkQueue := by
  unfold addUserOrder
  split <;> rfl

@[simp] theorem mem_orders_removeOrder :
    i ∈ (b.removeOrder id).orders ↔ i ≠ id ∧ i ∈ b.orders := by
  unfold removeOrder
  cases ho : b.orders.lookup id with
  | none =>
    refine ⟨fun hi => ⟨?_, hi⟩, And.right⟩
    rintro rfl
    exact Finmap.lookup_eq_none.mp ho hi
  | some o =>
    dsimp only
    split <;> exact Finmap.mem_erase

theorem removeOrder_parked_of_ne (h : i ≠ id) :
    (b.removeOrder id).parked.lookup i = b.parked.lookup i := by
  unfold removeOrder
  split
  · rfl
  · dsimp only
    split
    · exact Finmap.lookup_erase_ne h
    · rfl

@[simp] theorem removeOrder_parkQueue : (b.removeOrder id).parkQueue = b.parkQueue := by
  unfold removeOrder
  split
  · rfl
  · dsimp only
    split <;> rfl

/-- A park adds at most its own entry to the queue. -/
theorem mem_parkQueue_park {dex : DexId} {time : Nat} {e : Nat × OrderId}
    (h : e ∈ (b.park id dex time).parkQueue) : e ∈ b.parkQueue ∨ e = (time, id) := by
  unfold park at h
  split at h
  · exact Or.inl h
  · split at h
    · exact Or.inl h
    · split at h
      · exact Or.inl h
      · simpa using h

@[simp] theorem unpark_orders : (b.unpark id).2.orders = b.orders := by
  unfold unpark reindex
  split
  · rfl
  · dsimp only
    split
    · rfl
    · split <;> rfl

@[simp] theorem unpark_parked : (b.unpark id).2.parked = b.parked.erase id := by
  unfold unpark reindex
  split
  · rename_i h
    refine Finmap.ext_lookup fun k => ?_
    rw [FiniteMap.lookup_erase_if]
    split
    · rename_i hk
      rw [hk, h]
    · rfl
  · dsimp only
    split
    · rfl
    · split <;> rfl

theorem unpark_fst : (b.unpark id).1 = (b.parked.lookup id).map Prod.fst := by
  unfold unpark
  split
  · rename_i h
    rw [h]
    rfl
  · rename_i h
    rw [h]
    rfl

end Frame

/-- Unparking a parked note enqueues it again. -/
theorem InStep.unpark_of_parked (hb : b.InStep ∅) (hid : id ∈ b.parked) :
    ∃ o, b.orders.lookup id = some o ∧ (b.unpark id).2.InStep ∅ ∧
      (b.unpark id).2.orders = b.orders ∧ (b.unpark id).2.parked = b.parked.erase id ∧
      ∀ p, (b.unpark id).2.queue p =
        if o.pair = p then StableQueue.enqueue b.keyOf id (b.queue p) else b.queue p := by
  obtain ⟨⟨dex, t⟩, hlookup⟩ := Finmap.mem_iff.mp hid
  obtain ⟨o, ho, -, heq, hstep⟩ := hb.unpark hlookup
  refine ⟨o, ho, hstep, by rw [heq], by rw [heq], fun p => ?_⟩
  rw [heq]
  show (b.indexInsert id o.offeredToken o.requestedToken o.rateKey).queue p = _
  rw [← keyOf_of_lookup ho, Index.queue_indexInsert hb.indexed]
  simp only [eq_comm (a := p)]
  rfl

/-! ## The sweep -/

/-- Some entry of `id` in the queue is older than `ttl`. -/
def Expired (ttl time : Nat) (queue : List (Nat × OrderId)) (id : OrderId) : Prop :=
  ∃ e ∈ queue, e.2 = id ∧ satAdd64 e.1 ttl ≤ time

instance (ttl time : Nat) (queue : List (Nat × OrderId)) (id : OrderId) :
    Decidable (Expired ttl time queue id) :=
  inferInstanceAs (Decidable (∃ e ∈ queue, e.2 = id ∧ satAdd64 e.1 ttl ≤ time))

theorem satAdd64_le_satAdd64 {a b : Nat} (h : a ≤ b) (ttl : Nat) :
    satAdd64 a ttl ≤ satAdd64 b ttl := by
  unfold satAdd64
  omega

/-- In a sorted queue nothing behind an entry that is not expired is expired. -/
theorem not_expired_of_head {ttl time t : Nat} {rest : List (Nat × OrderId)}
    (hsorted : ((t, id) :: rest).Pairwise fun x y => x.1 ≤ y.1) (h : time < satAdd64 t ttl) :
    ¬ Expired ttl time ((t, id) :: rest) i := by
  rintro ⟨e, he, -, hexp⟩
  rcases List.mem_cons.mp he with rfl | he
  · exact absurd hexp (Nat.not_le.mpr h)
  · have := satAdd64_le_satAdd64 ((List.pairwise_cons.mp hsorted).1 e he) ttl
    exact absurd hexp (Nat.not_le.mpr (Nat.lt_of_lt_of_le h this))

theorem expired_cons {ttl time t : Nat} {rest : List (Nat × OrderId)}
    (h : satAdd64 t ttl ≤ time) :
    Expired ttl time ((t, id) :: rest) i ↔ i = id ∨ Expired ttl time rest i := by
  simp [Expired, h, eq_comm]

/-- **What the sweep does**: a parked note is reactivated and returned if some entry of it
is expired, the other parks stay, and the orders are not touched. -/
theorem reactivateLoop_spec (ttl time : Nat) {queue : List (Nat × OrderId)} {b : OrderBook}
    (hb : b.Inv) (hq : b.parkQueue = queue) :
    (∀ i dex, (i, dex) ∈ (reactivateLoop ttl time queue b).1 ↔
      (∃ since, b.parked.lookup i = some (dex, since)) ∧ Expired ttl time queue i) ∧
    (∀ i, (reactivateLoop ttl time queue b).2.parked.lookup i =
      if Expired ttl time queue i then none else b.parked.lookup i) ∧
    (reactivateLoop ttl time queue b).2.orders = b.orders ∧
    (reactivateLoop ttl time queue b).2.parkQueue ⊆ queue := by
  induction queue generalizing b with
  | nil => simp [reactivateLoop, Expired, hq]
  | cons e rest ih =>
    obtain ⟨t, id⟩ := e
    by_cases hexp : satAdd64 t ttl ≤ time
    · -- the front entry goes, and with it whatever park its note is in
      obtain ⟨hret, hpark, horders, hqueue⟩ := ih (hb.popPark hq) (unpark_parkQueue _ _)
      rw [reactivateLoop_cons hexp]
      simp only [unpark_parked, unpark_fst, unpark_orders, FiniteMap.lookup_erase_if] at *
      refine ⟨fun i dex => ?_, fun i => ?_, horders, fun e he => List.mem_cons_of_mem _ (hqueue he)⟩
      · rw [List.mem_append, hret, expired_cons hexp]
        by_cases hi : i = id
        · subst hi
          cases hl : b.parked.lookup i with
          | none => simp
          | some v => simp [Prod.ext_iff, eq_comm]
        · simp [hi]
          grind
      · rw [hpark, if_congr (expired_cons hexp) rfl rfl]
        by_cases hi : i = id <;> simp [hi]
    · have hsorted := hb.parkQueued.sorted
      rw [hq] at hsorted
      have hnone : ∀ i, ¬ Expired ttl time ((t, id) :: rest) i := fun i =>
        not_expired_of_head hsorted (Nat.lt_of_not_le hexp)
      rw [reactivateLoop, if_pos (Nat.lt_of_not_le hexp)]
      simp [hnone, hq]

/-- The sweep returns the notes whose own park is over, and no others. -/
def ReturnsExpired (b : OrderBook) (ttl time : Nat) : Prop :=
  ∀ id dex, (id, dex) ∈ (b.reactivateParkedOlderThan ttl time).1 ↔
    ∃ since, b.parked.lookup id = some (dex, since) ∧ since + ttl ≤ time

/-- No parked note whose window is still open has an expired entry in the queue, left by an
earlier park of it. -/
def NoExpiredTombstone (b : OrderBook) (ttl time : Nat) : Prop :=
  ∀ id dex since, b.parked.lookup id = some (dex, since) → Expired ttl time b.parkQueue id →
    since + ttl ≤ time

/-- **When the sweep keeps to the stored times.** -/
theorem Inv.returnsExpired_iff (hb : b.Inv) (ttl time : Nat) :
    b.ReturnsExpired ttl time ↔ b.NoExpiredTombstone ttl time := by
  obtain ⟨hret, -⟩ := reactivateLoop_spec ttl time hb rfl
  constructor
  · intro h id dex since hlookup hexp
    obtain ⟨since', hlookup', hle⟩ := (h id dex).mp ((hret id dex).mpr ⟨⟨since, hlookup⟩, hexp⟩)
    cases hlookup.symm.trans hlookup'
    exact hle
  · intro h id dex
    refine (hret id dex).trans ⟨?_, ?_⟩
    · rintro ⟨⟨since, hlookup⟩, hexp⟩
      exact ⟨since, hlookup, h id dex since hlookup hexp⟩
    · rintro ⟨since, hlookup, hle⟩
      refine ⟨⟨since, hlookup⟩, (since, id), hb.parkQueued.queued hlookup, rfl, ?_⟩
      exact (Nat.min_le_left _ _).trans hle

end OrderBook

end PswapSolver
