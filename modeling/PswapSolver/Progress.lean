import PswapSolver.BookInvariant

/-! # What a matching phase may do to the book

Both phases of the engine fill orders and credit the protocol, and record the ids
of the orders they filled.  `Advance` is what they have in common, and what the rest
of the solver relies on: no order appears or disappears, its terms stay and what is
left of it never grows, an order that is not recorded is untouched, a recorded one
was visible to the engine, and the parked notes, the park queue and the price feed
are as they were.  It is a preorder, so a run inherits it from its steps.
-/
namespace PswapSolver

/-- Where a matching phase stands.  The list `matched` of the direct matches made
so far is not in the source; it is what the accounting refers to. -/
structure Progress where
  book : OrderBook
  filledOrders : Finset OrderId
  cycles : Nat
  matched : List (OrderId × OrderId)

namespace Progress

/-- **A phase got from `s` to `s'`.** -/
structure Advance (s s' : Progress) : Prop where
  mem_orders : ∀ {id}, id ∈ s'.book.orders ↔ id ∈ s.book.orders
  terms : ∀ {id o o'}, s.book.orders.lookup id = some o → s'.book.orders.lookup id = some o' →
    o'.toOrderTerms = o.toOrderTerms ∧ o'.requestedRemaining ≤ o.requestedRemaining
  untouched : ∀ {id}, id ∉ s'.filledOrders →
    s'.book.orders.lookup id = s.book.orders.lookup id
  filled_subset : s.filledOrders ⊆ s'.filledOrders
  filled_visible : ∀ {id}, id ∈ s'.filledOrders → id ∉ s.filledOrders →
    id ∈ s.book.orders ∧ id ∉ s.book.parked
  parked : s'.book.parked = s.book.parked
  parkQueue : s'.book.parkQueue = s.book.parkQueue
  feed : s'.book.feed = s.book.feed

variable {s s' s'' : Progress}

theorem Advance.refl (s : Progress) : s.Advance s where
  mem_orders := Iff.rfl
  terms := fun h h' => by
    rw [h] at h'
    cases h'
    exact ⟨rfl, Nat.le_refl _⟩
  untouched := fun _ => rfl
  filled_subset := fun _ h => h
  filled_visible := fun h hn => absurd h hn
  parked := rfl
  parkQueue := rfl
  feed := rfl

theorem Advance.trans (h : s.Advance s') (h' : s'.Advance s'') : s.Advance s'' where
  mem_orders := h'.mem_orders.trans h.mem_orders
  terms := fun {id o o''} ho ho'' => by
    obtain ⟨o', ho'⟩ := Finmap.mem_iff.mp (h'.mem_orders.mp (FiniteMap.mem_of_lookup ho''))
    obtain ⟨ht, hr⟩ := h.terms ho ho'
    obtain ⟨ht', hr'⟩ := h'.terms ho' ho''
    exact ⟨ht'.trans ht, hr'.trans hr⟩
  untouched := fun {id} hid =>
    (h'.untouched hid).trans (h.untouched fun hc => hid (h'.filled_subset hc))
  filled_subset := fun _ hid => h'.filled_subset (h.filled_subset hid)
  filled_visible := fun {id} hid hn => by
    by_cases hmid : id ∈ s'.filledOrders
    · exact h.filled_visible hmid hn
    · obtain ⟨horders, hparked⟩ := h'.filled_visible hid hmid
      exact ⟨h.mem_orders.mp horders, h.parked ▸ hparked⟩
  parked := h'.parked.trans h.parked
  parkQueue := h'.parkQueue.trans h.parkQueue
  feed := h'.feed.trans h.feed

/-- Filling a visible order and recording it is an advance. -/
theorem Advance.fill {id : OrderId} {o o' : Order} (ho : s.book.orders.lookup id = some o)
    (hnp : id ∉ s.book.parked) (hterms : o'.toOrderTerms = o.toOrderTerms)
    (hle : o'.requestedRemaining ≤ o.requestedRemaining) :
    s.Advance { s with
      book := { s.book with orders := s.book.orders.insert id o' }
      filledOrders := insert id s.filledOrders } := by
  have hmem : id ∈ s.book.orders := FiniteMap.mem_of_lookup ho
  refine ⟨?_, ?_, ?_, Finset.subset_insert _ _, ?_, rfl, rfl, rfl⟩
  · intro i
    rw [Finmap.mem_insert]
    refine ⟨?_, Or.inr⟩
    rintro (rfl | hi)
    · exact hmem
    · exact hi
  · intro i o₁ o₂ h₁ h₂
    rw [FiniteMap.lookup_insert_if] at h₂
    split at h₂
    · rename_i hi
      rw [hi, ho] at h₁
      cases h₁
      cases h₂
      exact ⟨hterms, hle⟩
    · rw [h₁] at h₂
      cases h₂
      exact ⟨rfl, Nat.le_refl _⟩
  · intro i hi
    rw [Finset.mem_insert, not_or] at hi
    exact Finmap.lookup_insert_of_ne _ hi.1
  · intro i hi hn
    rcases Finset.mem_insert.mp hi with rfl | hi
    · exact ⟨hmem, hnp⟩
    · exact absurd hi hn

/-- Index, balances and counters are not part of the frame. -/
theorem Advance.of_eq (horders : s'.book.orders = s.book.orders)
    (hfilled : s'.filledOrders = s.filledOrders) (hparked : s'.book.parked = s.book.parked)
    (hqueue : s'.book.parkQueue = s.book.parkQueue) (hfeed : s'.book.feed = s.book.feed) :
    s.Advance s' where
  mem_orders := by rw [horders]
  terms := fun h h' => by
    rw [horders, h] at h'
    cases h'
    exact ⟨rfl, Nat.le_refl _⟩
  untouched := fun _ => by rw [horders]
  filled_subset := fun _ h => hfilled ▸ h
  filled_visible := fun h hn => absurd (hfilled ▸ h) hn
  parked := hparked
  parkQueue := hqueue
  feed := hfeed

/-- The park queue's invariant survives a phase. -/
theorem Advance.parkQueued (h : s.Advance s') (hq : s.book.ParkQueued) : s'.book.ParkQueued :=
  hq.of_eq h.parked h.parkQueue

end Progress

end PswapSolver
