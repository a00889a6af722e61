import PswapSolver.CycleInvariant

/-! # The matching engine

The model of `matching/engine.rs`.  A run is direct matching, followed by triangular
matching when it is enabled.  Which run happens depends on hash iteration orders and
on ties in the heap, so `EngineRun` is the relation between a book and the outcomes
it may lead to.

`OrderBook.Reachable` closes the picture: the books the solver can hold are those it
builds from `new` by the functions of the book and by engine runs, and all of them
satisfy the representation invariant (`OrderBook.Reachable.inv`).
-/
namespace PswapSolver

/-- The engine's state before its first match. -/
def runStart (b : OrderBook) : Progress := ⟨b, ∅, 0, []⟩

/-- **The outcomes of `MatchingEngine::run`** on a book. -/
inductive EngineRun (b : OrderBook) : Bool → Progress → Prop
  | direct {pairs : List Pair} (pairs_of : MatchablePairs b pairs) :
      EngineRun b false (runDirectMatching pairs (runStart b))
  | triangular {pairs : List Pair} {s : CycleState} (pairs_of : MatchablePairs b pairs)
      (reaches : CycleReaches (runDirectMatching pairs (runStart b)) s) (done : s.heap = []) :
      EngineRun b true s.toProgress

/-- Every state inside a run is an advance on the book the run started with. -/
theorem cycleReaches_advance {b : OrderBook} (hb : b.InStep ∅) {pairs : List Pair}
    {s : CycleState} (h : CycleReaches (runDirectMatching pairs (runStart b)) s) :
    CycleInv (runDirectMatching pairs (runStart b)) s ∧ (runStart b).Advance s.toProgress := by
  obtain ⟨hstep, hadv⟩ := runDirectMatching_advance pairs (s := runStart b) hb
  have hinv := cycleInv_of_reaches hstep h
  exact ⟨hinv, hadv.trans hinv.advance⟩

/-- **An engine run keeps the book in step and is an advance.** -/
theorem EngineRun.advance {b : OrderBook} {triangular : Bool} {p : Progress} (hb : b.InStep ∅)
    (h : EngineRun b triangular p) : p.book.InStep ∅ ∧ (runStart b).Advance p := by
  cases h with
  | direct => exact runDirectMatching_advance _ hb
  | triangular _ hreach _ =>
    obtain ⟨hinv, hadv⟩ := cycleReaches_advance hb hreach
    exact ⟨hinv.inStep, hadv⟩

theorem EngineRun.inv {b : OrderBook} {triangular : Bool} {p : Progress} (hb : b.Inv)
    (h : EngineRun b triangular p) : p.book.Inv := by
  obtain ⟨hstep, hadv⟩ := h.advance hb.inStep
  exact ⟨hstep, hadv.parkQueued hb.parkQueued⟩

namespace OrderBook

/-- **The books the solver can hold.**  Parking happens at a time not earlier than
the parks before it. -/
inductive Reachable : OrderBook → Prop
  | new (feed : PriceFeed) : Reachable (new feed)
  | addUserOrder {b : OrderBook} (h : Reachable b) (id : OrderId) (terms : OrderTerms) :
      Reachable (b.addUserOrder id terms)
  | removeOrder {b : OrderBook} (h : Reachable b) (id : OrderId) : Reachable (b.removeOrder id)
  | park {b : OrderBook} (h : Reachable b) (id : OrderId) (dex : DexId) {time : Nat}
      (monotone : ∀ e ∈ b.parkQueue, e.1 ≤ time) : Reachable (b.park id dex time)
  | unpark {b : OrderBook} (h : Reachable b) (id : OrderId) : Reachable (b.unpark id).2
  | reactivate {b : OrderBook} (h : Reachable b) (ttl time : Nat) :
      Reachable (b.reactivateParkedOlderThan ttl time).2
  | bestOrder {b : OrderBook} (h : Reachable b) (x y : TokenId) : Reachable (b.bestOrder x y).2
  | run {b : OrderBook} (h : Reachable b) {triangular : Bool} {p : Progress}
      (run : EngineRun b triangular p) : Reachable p.book
  | clearBalances {b : OrderBook} (h : Reachable b) : Reachable { b with protocolBalances := ∅ }
  | setFeed {b : OrderBook} (h : Reachable b) (feed : PriceFeed) :
      Reachable { b with feed := feed }

/-- **Every reachable book satisfies the representation invariant.** -/
theorem Reachable.inv {b : OrderBook} (h : b.Reachable) : b.Inv := by
  induction h with
  | new feed => exact inv_new feed
  | addUserOrder _ id terms ih => exact ih.addUserOrder id terms
  | removeOrder _ id ih => exact ih.removeOrder id
  | park _ id dex hmono ih => exact ih.park hmono id dex
  | unpark _ id ih => exact ih.unpark id
  | reactivate _ ttl time ih => exact ih.reactivateParkedOlderThan ttl time
  | bestOrder _ x y ih =>
    rw [ih.inStep.bestOrder]
    exact ih
  | run _ hrun ih => exact hrun.inv ih
  | clearBalances _ ih =>
    exact ⟨ih.inStep.of_eq rfl rfl rfl fun _ ht => ht, ih.parkQueued.of_eq rfl rfl⟩
  | setFeed _ feed ih =>
    exact ⟨ih.inStep.of_eq rfl rfl rfl fun _ ht => ht, ih.parkQueued.of_eq rfl rfl⟩

end OrderBook

/-! ### Two books of two notes -/

/-- A note that offers `n` units of token 1 for as many of token 2. -/
def parTerms (n : Nat) : OrderTerms := swapTerms 1 2 n n

/-- Notes 1 and 2 offer token 1 for token 2 at the same rate, 10 and 20 units. -/
def twoNoteBook : OrderBook :=
  ((OrderBook.new fun _ => none).addUserOrder 1 (parTerms 10)).addUserOrder 2 (parTerms 20)

theorem twoNoteBook_reachable : twoNoteBook.Reachable :=
  ((OrderBook.Reachable.new _).addUserOrder _ _).addUserOrder _ _

/-- The two orders of `crossingTerms`. -/
def crossingBook : OrderBook :=
  ((OrderBook.new fun _ => some 1).addUserOrder 1
    (crossingTerms 1)).addUserOrder 2 (crossingTerms 2)

theorem crossingBook_reachable : crossingBook.Reachable :=
  ((OrderBook.Reachable.new _).addUserOrder _ _).addUserOrder _ _

/-- The orders of the crossing book are those of `crossingTerms`. -/
theorem crossingBook_lookup {id : OrderId} {o : Order}
    (h : crossingBook.orders.lookup id = some o) :
    (id = 1 ∨ id = 2) ∧ o = Order.fresh id (crossingTerms id) := by
  have horders : crossingBook.orders = Finmap.insert 2 (Order.fresh 2 (crossingTerms 2))
      (Finmap.insert 1 (Order.fresh 1 (crossingTerms 1)) ∅) := by decide
  rw [horders, FiniteMap.lookup_insert_if, FiniteMap.lookup_insert_if] at h
  split at h
  · rename_i hid
    cases h
    exact ⟨Or.inr hid, hid ▸ rfl⟩
  · split at h
    · rename_i hid
      cases h
      exact ⟨Or.inl hid, hid ▸ rfl⟩
    · cases h

theorem crossingBook_run :
    EngineRun crossingBook false (runDirectMatching [(1, 2)] (runStart crossingBook)) :=
  .direct ⟨by decide, by decide⟩

/-- The two orders fill each other. -/
theorem crossingBook_filled :
    (runDirectMatching [(1, 2)] (runStart crossingBook)).filledOrders = {1, 2} := by
  show (matchUserOrders 1 2 _).filledOrders = _
  rw [matchUserOrders_of_true (by decide), matchUserOrders_of_false (by decide)]
  decide

end PswapSolver
