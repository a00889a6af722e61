import PswapSolver.Progress
import Mathlib.Data.Finset.Prod

/-! # Direct matching

The model of `matching/direct_matching.rs`: for each pair of tokens with orders in
both directions, the best two orders are matched until one side runs out, a price
is missing, or the best two no longer cross.

The loop of `match_user_orders` ends because every match uses up some of the
remaining amounts (`matchRound_remaining_lt`), which is also its termination
argument here.  The hash set of pairs is visited in an order the source does not
fix, so `runDirectMatching` takes the list of pairs as an argument and the results
hold for every enumeration of them (`MatchablePairs`).

What a run does to the book is said once, for one match (`Matches`), and every
property of a run follows from it by `runDirectMatching_induct`.
-/
namespace PswapSolver
open StableQueue

namespace OrderBook

/-- What is left to fill over all orders. -/
def remaining (b : OrderBook) : Nat := b.orders.total fun _ o => o.requestedRemaining

/-- Are both tokens of a pair priced? -/
def bothPriced (b : OrderBook) (tokenA tokenB : TokenId) : Bool :=
  (b.feed tokenA).isSome && (b.feed tokenB).isSome

end OrderBook

/-- One round of the loop in `match_user_orders`; the flag says whether the loop
goes on. -/
def matchRound (tokenA tokenB : TokenId) (s : Progress) : Bool × Progress :=
  -- orderA offers tokenA and requests tokenB
  match s.book.bestOrder tokenA tokenB with
  | (none, book) => (false, { s with book := book })
  | (some orderA, book) =>
    -- orderB offers tokenB and requests tokenA
    match book.bestOrder tokenB tokenA with
    | (none, book) => (false, { s with book := book })
    | (some orderB, book) =>
      if !book.bothPriced tokenA tokenB then (false, { s with book := book })
      else
        match book.applyMatch orderA.id orderB.id with
        | none => (false, { s with book := book })
        | some (_, book) =>
          (true,
            { book := book
              filledOrders := insert orderB.id (insert orderA.id s.filledOrders)
              cycles := s.cycles + 1
              matched := s.matched ++ [(orderA.id, orderB.id)] })

/-! ## One match -/

/-- **What one match does.**  Orders `x` and `y` trade: `x` receives `receives` and
`y` receives `sends`, both positive and within what was left; the protocol is
credited exactly what the two releases exceed that by; nothing else changes. -/
structure Matches (b : OrderBook) (x y : OrderId) (b' : OrderBook) where
  orderX : Order
  orderY : Order
  sends : Nat
  receives : Nat
  surplusX : Nat
  surplusY : Nat
  ne : x ≠ y
  lookup_x : b.orders.lookup x = some orderX
  lookup_y : b.orders.lookup y = some orderY
  sends_pos : 0 < sends
  sends_le : sends ≤ orderY.requestedRemaining
  receives_pos : 0 < receives
  receives_le : receives ≤ orderX.requestedRemaining
  release_x : surplusX + sends = orderX.offeredFor receives
  release_y : surplusY + receives = orderY.offeredFor sends
  orders : b'.orders = (b.orders.insert x (orderX.deduct receives)).insert y (orderY.deduct sends)
  balance : ∀ t, b'.balance t = b.balance t + (if t = orderX.offeredToken then surplusX else 0)
    + (if t = orderY.offeredToken then surplusY else 0)
  parked : b'.parked = b.parked
  parkQueue : b'.parkQueue = b.parkQueue
  feed : b'.feed = b.feed

namespace OrderBook
variable {b b' : OrderBook} {x y : OrderId} {r : MatchResult}

/-- The steps of a successful `apply_match`. -/
theorem applyMatch_eq_some (h : b.applyMatch x y = some (r, b')) : ∃ oX oY oX' oY',
    x ≠ y ∧ b.orders.lookup x = some oX ∧ b.orders.lookup y = some oY ∧
    oX.Matched oY r oX' oY' ∧
    b' = (((({ b with orders := (b.orders.insert x oX').insert y oY' }).addProtocolBalance
      oX'.offeredToken r.surplusOffered).addProtocolBalance oY'.offeredToken
      r.surplusRequested).cleanupIfFilled x).cleanupIfFilled y := by
  unfold applyMatch at h
  split at h
  · cases h
  rename_i hne
  split at h
  · rename_i oX oY hx hy
    split at h
    · cases h
    · rename_i result oX' oY' hmatch
      obtain ⟨rfl, rfl⟩ := Prod.mk.inj (Option.some.inj h)
      exact ⟨oX, oY, oX', oY', hne, hx, hy, Order.matchWith_some hmatch, rfl⟩
  · cases h

/-- The book after two orders traded, before they are cleaned up. -/
def tradedBook (b : OrderBook) (x y : OrderId) (oX oY : Order) : OrderBook :=
  (({ b with
      orders := (b.orders.insert x (oX.deduct (oX.receives oY))).insert y
        (oY.deduct (oX.sends oY)) }).addProtocolBalance
    oX.offeredToken (oX.offeredFor (oX.receives oY) - oX.sends oY)).addProtocolBalance
    oY.offeredToken (oY.offeredFor (oX.sends oY) - oX.receives oY)

/-- The book after two orders traded. -/
def afterMatch (b : OrderBook) (x y : OrderId) (oX oY : Order) : OrderBook :=
  ((b.tradedBook x y oX oY).cleanupIfFilled x).cleanupIfFilled y

/-- **`apply_match` on two orders of the book.** -/
theorem applyMatch_of_lookup {oX oY : Order} (hne : x ≠ y) (hx : b.orders.lookup x = some oX)
    (hy : b.orders.lookup y = some oY) :
    b.applyMatch x y =
      if oX.Trades oY then
        some (⟨oX.offeredFor (oX.receives oY) - oX.sends oY,
          oY.offeredFor (oX.sends oY) - oX.receives oY⟩, b.afterMatch x y oX oY)
      else none := by
  unfold applyMatch
  rw [if_neg hne, hx, hy]
  dsimp only
  by_cases ht : oX.Trades oY
  · rw [Order.matchWith_of_trades ht, if_pos ht]
    rfl
  · have hnone := Order.matchWith_of_not_trades ht
    rw [if_neg ht]
    generalize oX.matchWith oY = res at hnone
    obtain ⟨r, oX', oY'⟩ := res
    cases hnone
    rfl

/-- **A successful `apply_match` is a match.** -/
theorem applyMatch_matches (h : b.applyMatch x y = some (r, b')) :
    Nonempty (Matches b x y b') := by
  obtain ⟨oX, oY, oX', oY', hne, hx, hy, hm, rfl⟩ := applyMatch_eq_some h
  obtain ⟨sends, receives, h1, h2, h3, h4, rfl, rfl, h5, h6⟩ := hm
  exact ⟨{
    orderX := oX, orderY := oY, sends := sends, receives := receives
    surplusX := r.surplusOffered, surplusY := r.surplusRequested
    ne := hne, lookup_x := hx, lookup_y := hy
    sends_pos := h1, sends_le := h2, receives_pos := h3, receives_le := h4
    release_x := h5, release_y := h6
    orders := by simp
    balance := fun t => by
      simp only [balance_cleanupIfFilled, balance_addProtocolBalance, Order.deduct_offeredToken]
      rfl
    parked := by simp
    parkQueue := by simp
    feed := by simp }⟩

/-- The two orders of a match are pending until they are cleaned up. -/
theorem InStep.tradedBook (hb : b.InStep ∅) {oX oY : Order} (hne : x ≠ y)
    (hx : b.orders.lookup x = some oX) (hy : b.orders.lookup y = some oY)
    (hqx : x ∈ b.queue oX.pair) (hqy : y ∈ b.queue oY.pair) :
    (b.tradedBook x y oX oY).InStep {y, x} := by
  have h₁ := hb.setOrder hx hqx (oX.deduct_toOrderTerms (oX.receives oY)) (oX.deduct_id _)
  have hy' : (b.orders.insert x (oX.deduct (oX.receives oY))).lookup y = some oY := by
    rw [Finmap.lookup_insert_of_ne _ hne.symm, hy]
  have h₂ := h₁.setOrder hy' hqy (oY.deduct_toOrderTerms (oX.sends oY)) (oY.deduct_id _)
  exact (h₂.addProtocolBalance ..).addProtocolBalance ..

/-- A match of two queued orders leaves the book in step. -/
theorem InStep.applyMatch (hb : b.InStep ∅) (h : b.applyMatch x y = some (r, b'))
    {p q : Pair} (hx : x ∈ b.queue p) (hy : y ∈ b.queue q) : b'.InStep ∅ := by
  obtain ⟨oX, oY, -, -, hne, hlx, hly, -, -⟩ := applyMatch_eq_some h
  rw [← hb.pair_eq hx hlx] at hx
  rw [← hb.pair_eq hy hly] at hy
  rw [applyMatch_of_lookup hne hlx hly] at h
  split at h
  · cases h
    have htraded := hb.tradedBook hne hlx hly hx hy
    refine cast (congrArg (InStep _) ?_)
      ((htraded.cleanupIfFilled x (by simp)).cleanupIfFilled y (by simp [hne.symm]))
    ext i
    simp only [Finset.mem_erase, Finset.mem_insert, Finset.mem_singleton, Finset.notMem_empty,
      iff_false]
    tauto
  · cases h

theorem bestOrder_orders (b : OrderBook) (x y : TokenId) :
    (b.bestOrder x y).2.orders = b.orders := by
  unfold bestOrder
  split <;> rfl

end OrderBook

/-- A match uses up some of what was left. -/
theorem Matches.remaining_lt {b b' : OrderBook} {x y : OrderId} (m : Matches b x y b') :
    b'.remaining < b.remaining := by
  have hy : (b.orders.insert x (m.orderX.deduct m.receives)).lookup y = some m.orderY := by
    rw [Finmap.lookup_insert_of_ne _ m.ne.symm, m.lookup_y]
  have h₁ := FiniteMap.total_insert_of_lookup m.lookup_x (m.orderX.deduct m.receives)
    fun _ o => o.requestedRemaining
  have h₂ := FiniteMap.total_insert_of_lookup hy (m.orderY.deduct m.sends)
    fun _ o => o.requestedRemaining
  simp only [Order.deduct_requestedRemaining] at h₁ h₂
  have := m.sends_pos
  have := m.sends_le
  have := m.receives_pos
  have := m.receives_le
  rw [OrderBook.remaining, OrderBook.remaining, m.orders]
  omega

/-! ## The loop -/

theorem matchRound_remaining_lt {tokenA tokenB : TokenId} {s s' : Progress}
    (h : matchRound tokenA tokenB s = (true, s')) : s'.book.remaining < s.book.remaining := by
  unfold matchRound at h
  split at h
  · cases h
  rename_i orderA book₁ hA
  split at h
  · cases h
  rename_i orderB book₂ hB
  split at h
  · cases h
  split at h
  · cases h
  rename_i r book₃ hmatch
  cases h
  obtain ⟨m⟩ := OrderBook.applyMatch_matches hmatch
  have horders : book₂.orders = s.book.orders := by
    have h₁ := s.book.bestOrder_orders tokenA tokenB
    have h₂ := book₁.bestOrder_orders tokenB tokenA
    rw [hA] at h₁
    rw [hB] at h₂
    exact h₂.trans h₁
  have := m.remaining_lt
  rwa [OrderBook.remaining, OrderBook.remaining, horders] at this

/-- User-to-user matching for a pair. -/
def matchUserOrders (tokenA tokenB : TokenId) (s : Progress) : Progress :=
  match h : matchRound tokenA tokenB s with
  | (true, s') =>
    have : s'.book.remaining < s.book.remaining := matchRound_remaining_lt h
    matchUserOrders tokenA tokenB s'
  | (false, s') => s'
termination_by s.book.remaining

theorem matchUserOrders_of_true {tokenA tokenB : TokenId} {s : Progress}
    (h : (matchRound tokenA tokenB s).1 = true) :
    matchUserOrders tokenA tokenB s =
      matchUserOrders tokenA tokenB (matchRound tokenA tokenB s).2 := by
  rw [matchUserOrders]
  split
  · rename_i s' hs
    exact congrArg (fun r => matchUserOrders tokenA tokenB r.2) hs.symm
  · rename_i s' hs
    rw [hs] at h
    cases h

theorem matchUserOrders_of_false {tokenA tokenB : TokenId} {s : Progress}
    (h : (matchRound tokenA tokenB s).1 = false) :
    matchUserOrders tokenA tokenB s = (matchRound tokenA tokenB s).2 := by
  rw [matchUserOrders]
  split
  · rename_i s' hs
    rw [hs] at h
    cases h
  · rename_i s' hs
    rw [hs]

/-- Direct matching over the pairs, in the order given. -/
def runDirectMatching (pairs : List Pair) (s : Progress) : Progress :=
  pairs.foldl (fun s p => matchUserOrders p.1 p.2 s) s

/-- All token pairs, smaller token first, where orders exist in both directions. -/
def collectMatchablePairs (b : OrderBook) : Finset Pair :=
  (b.tokens ×ˢ b.tokens).filter fun p =>
    p.1 < p.2 ∧ b.hasOrders p.1 p.2 = true ∧ b.hasOrders p.2 p.1 = true

/-- The matchable pairs are those with queued orders in both directions, smaller token first. -/
theorem OrderBook.InStep.mem_collectMatchablePairs {b : OrderBook} (hb : b.InStep ∅) {p : Pair} :
    p ∈ collectMatchablePairs b ↔ p.1 < p.2 ∧ b.queue p ≠ [] ∧ b.queue p.swap ≠ [] := by
  rw [collectMatchablePairs, Finset.mem_filter, Finset.mem_product, hb.indexed.hasOrders_iff,
    hb.indexed.hasOrders_iff]
  refine ⟨fun h => h.2, fun h => ⟨?_, h⟩⟩
  obtain ⟨id, hid⟩ := List.exists_mem_of_ne_nil _ h.2.1
  obtain ⟨o, ho, rfl, -⟩ := hb.mem_queue.mp hid
  exact hb.tokens ho

/-- The pairs in an order in which they may be visited. -/
def MatchablePairs (b : OrderBook) (pairs : List Pair) : Prop :=
  pairs.Nodup ∧ pairs.toFinset = collectMatchablePairs b

theorem MatchablePairs.mem_iff {b : OrderBook} {pairs : List Pair} (h : MatchablePairs b pairs)
    {p : Pair} : p ∈ pairs ↔ p ∈ collectMatchablePairs b := by
  rw [← h.2, List.mem_toFinset]

theorem lt_of_mem_collectMatchablePairs {b : OrderBook} {p : Pair}
    (h : p ∈ collectMatchablePairs b) : p.1 < p.2 := (Finset.mem_filter.mp h).2.1

/-- **One match of the loop**: the best orders of the two directions, both tokens
being priced, are matched and recorded. -/
structure MatchStep (tokenA tokenB : TokenId) (s s' : Progress) where
  orderA : Order
  orderB : Order
  result : MatchResult
  bestA : (s.book.bestOrder tokenA tokenB).1 = some orderA
  bestB : (s.book.bestOrder tokenB tokenA).1 = some orderB
  priced : s.book.bothPriced tokenA tokenB = true
  applied : s.book.applyMatch orderA.id orderB.id = some (result, s'.book)
  filledOrders : s'.filledOrders = insert orderB.id (insert orderA.id s.filledOrders)
  cycles : s'.cycles = s.cycles + 1
  matched : s'.matched = s.matched ++ [(orderA.id, orderB.id)]

theorem MatchStep.inStep {tokenA tokenB : TokenId} {s s' : Progress}
    (m : MatchStep tokenA tokenB s s') (hb : s.book.InStep ∅) : s'.book.InStep ∅ :=
  hb.applyMatch m.applied (hb.bestOrder_some m.bestA).2.1 (hb.bestOrder_some m.bestB).2.1

/-- A match is an advance. -/
theorem MatchStep.advance {tokenA tokenB : TokenId} {s s' : Progress}
    (m : MatchStep tokenA tokenB s s') (hb : s.book.InStep ∅) : s.Advance s' := by
  obtain ⟨-, hqA, -⟩ := hb.bestOrder_some m.bestA
  obtain ⟨-, hqB, -⟩ := hb.bestOrder_some m.bestB
  obtain ⟨mm⟩ := OrderBook.applyMatch_matches m.applied
  have hvisible : ∀ {i p}, i ∈ s.book.queue p → i ∉ s.book.parked := by
    intro i p hi
    obtain ⟨-, -, -, hnp, -⟩ := hb.mem_queue.mp hi
    exact hnp
  -- two fills, and then the index and the balances
  have h₁ := Progress.Advance.fill mm.lookup_x (hvisible hqA)
    (mm.orderX.deduct_toOrderTerms mm.receives) (Nat.sub_le _ _)
  have hlookup : (s.book.orders.insert m.orderA.id (mm.orderX.deduct mm.receives)).lookup
      m.orderB.id = some mm.orderY := by
    rw [Finmap.lookup_insert_of_ne _ mm.ne.symm, mm.lookup_y]
  have h₂ := h₁.trans (.fill hlookup (hvisible hqB) (mm.orderY.deduct_toOrderTerms mm.sends)
    (Nat.sub_le _ _))
  exact h₂.trans (.of_eq mm.orders m.filledOrders mm.parked mm.parkQueue mm.feed)

/-- **What a round does to a book in step**: it stops and changes nothing, or it
matches the best two orders. -/
theorem matchRound_cases (tokenA tokenB : TokenId) {s : Progress} (hb : s.book.InStep ∅) :
    matchRound tokenA tokenB s = (false, s) ∨
    ∃ s', matchRound tokenA tokenB s = (true, s') ∧
      Nonempty (MatchStep tokenA tokenB s s') := by
  have hA := congrArg Prod.fst (hb.bestOrder tokenA tokenB)
  have hB := congrArg Prod.fst (hb.bestOrder tokenB tokenA)
  unfold matchRound
  rw [hb.bestOrder tokenA tokenB]
  cases hheadA : (s.book.queue (tokenA, tokenB)).head?.bind s.book.orders.lookup with
  | none => exact Or.inl rfl
  | some orderA =>
    dsimp only
    rw [hb.bestOrder tokenB tokenA]
    cases hheadB : (s.book.queue (tokenB, tokenA)).head?.bind s.book.orders.lookup with
    | none => exact Or.inl rfl
    | some orderB =>
      dsimp only
      cases hpriced : s.book.bothPriced tokenA tokenB with
      | false => exact Or.inl rfl
      | true =>
        cases hmatch : s.book.applyMatch orderA.id orderB.id with
        | none => exact Or.inl rfl
        | some res =>
          exact Or.inr ⟨_, rfl, ⟨{
            orderA := orderA, orderB := orderB, result := res.1
            bestA := hA.trans hheadA, bestB := hB.trans hheadB
            priced := hpriced, applied := hmatch
            filledOrders := rfl, cycles := rfl, matched := rfl }⟩⟩

/-- What every match preserves, the loop for one pair preserves. -/
theorem matchUserOrders_induct {P : Progress → Prop} {tokenA tokenB : TokenId}
    (hP : ∀ s s', s.book.InStep ∅ → MatchStep tokenA tokenB s s' → P s → P s')
    {s : Progress} (hb : s.book.InStep ∅) (hs : P s) :
    (matchUserOrders tokenA tokenB s).book.InStep ∅ ∧ P (matchUserOrders tokenA tokenB s) := by
  -- on what is left to fill, as the loop itself
  induction hn : s.book.remaining using Nat.strong_induction_on generalizing s with
  | _ n ih =>
    rw [matchUserOrders]
    split
    · rename_i s' hround
      obtain hstop | ⟨s'', hgo, ⟨m⟩⟩ := matchRound_cases tokenA tokenB hb
      · rw [hstop] at hround
        cases hround
      · rw [hgo] at hround
        cases hround
        exact ih _ (hn ▸ matchRound_remaining_lt hgo) (m.inStep hb) (hP s s' hb m hs) rfl
    · rename_i s' hround
      obtain hstop | ⟨s'', hgo, -⟩ := matchRound_cases tokenA tokenB hb
      · rw [hstop] at hround
        cases hround
        exact ⟨hb, hs⟩
      · rw [hgo] at hround
        cases hround

/-- **What every match preserves, direct matching preserves.** -/
theorem runDirectMatching_induct {P : Progress → Prop} {pairs : List Pair}
    (hP : ∀ p ∈ pairs, ∀ s s', s.book.InStep ∅ → MatchStep p.1 p.2 s s' → P s → P s')
    {s : Progress} (hb : s.book.InStep ∅) (hs : P s) :
    (runDirectMatching pairs s).book.InStep ∅ ∧ P (runDirectMatching pairs s) := by
  induction pairs generalizing s with
  | nil => exact ⟨hb, hs⟩
  | cons p pairs ih =>
    obtain ⟨hb', hs'⟩ := matchUserOrders_induct (hP p (List.mem_cons_self ..)) hb hs
    exact ih (fun q hq => hP q (List.mem_cons_of_mem _ hq)) hb' hs'

/-- **Direct matching is an advance** and keeps the book in step. -/
theorem runDirectMatching_advance (pairs : List Pair) {s : Progress} (hb : s.book.InStep ∅) :
    (runDirectMatching pairs s).book.InStep ∅ ∧ s.Advance (runDirectMatching pairs s) :=
  runDirectMatching_induct (fun _ _ _ _ hs m h => h.trans (m.advance hs)) hb (.refl s)

end PswapSolver
