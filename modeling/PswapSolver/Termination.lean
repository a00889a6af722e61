import PswapSolver.Trades
import Mathlib.Data.Finset.Max

/-! # Every run of the engine ends

Direct matching ends because a match uses up some of what is left to fill.  The heap loop
of triangular matching pushes entries while it pops them, and its measure has two parts.
An execution exhausts the bottleneck order, which could still release something and can
not any more, and no order recovers (`Trade.liquid_ssubset`).  Between two executions the
book does not change: an entry that is replaced or pushed again was out of date, and what is
pushed for it is up to date (`stale_lt`).

Hence no choice of the heap and of the hash sets makes the loop run for ever, and since a
heap that is not empty always has an entry to pop, the loop ends with an empty heap.
-/
namespace PswapSolver

/-! ## Relations that descend where they lead -/

section Descent
variable {α β : Type} {r : α → α → Prop} {lt : β → β → Prop}

/-- If every step from a state reached from `a` descends, no infinite sequence of steps
starts in `a`. -/
theorem acc_of_descends {a : α} (measure : α → β) (hwf : WellFounded lt)
    (hdesc : ∀ s s', Relation.ReflTransGen r a s → r s s' → lt (measure s') (measure s)) :
    Acc (fun s' s => r s s') a := by
  have hall : ∀ m s, Relation.ReflTransGen r a s → measure s = m →
      Acc (fun s' s => r s s') s := by
    intro m
    induction m using hwf.induction with
    | _ m ih =>
      rintro s hs rfl
      exact .intro s fun s' hstep => ih _ (hdesc s s' hs hstep) s' (hs.tail hstep) rfl
  exact hall _ a .refl rfl

/-- Steps that cannot go on for ever, and can go on as long as `goal` is not reached, reach
it. -/
theorem exists_reaches_of_acc (goal : α → Prop) {a : α} (hacc : Acc (fun s' s => r s s') a)
    (hstep : ∀ s, Relation.ReflTransGen r a s → ¬ goal s → ∃ s', r s s') :
    ∃ s, Relation.ReflTransGen r a s ∧ goal s := by
  induction hacc with
  | intro a _ ih =>
    by_cases hgoal : goal a
    · exact ⟨a, .refl, hgoal⟩
    · obtain ⟨s', hs'⟩ := hstep a .refl hgoal
      obtain ⟨s, hreach, hs⟩ := ih s' hs' fun t ht => hstep t (.head hs' ht)
      exact ⟨s, .head hs' hreach, hs⟩

end Descent

/-! ## A trade exhausts an order -/

/-- The orders that can still release something. -/
def OrderBook.liquid (b : OrderBook) : Finset OrderId :=
  b.orders.keys.filter fun id => 0 < ((b.orders.lookup id).map Order.offeredRemaining).getD 0

theorem OrderBook.mem_liquid {b : OrderBook} {id : OrderId} :
    id ∈ b.liquid ↔ ∃ o, b.orders.lookup id = some o ∧ 0 < o.offeredRemaining := by
  rw [liquid, Finset.mem_filter, Finmap.mem_keys]
  constructor
  · rintro ⟨hid, hpos⟩
    obtain ⟨o, ho⟩ := Finmap.mem_iff.mp hid
    rw [ho] at hpos
    exact ⟨o, ho, hpos⟩
  · rintro ⟨o, ho, hpos⟩
    rw [ho]
    exact ⟨FiniteMap.mem_of_lookup ho, hpos⟩

theorem Order.offeredRemaining_deduct_le (o : Order) (n : Nat) :
    (o.deduct n).offeredRemaining ≤ o.offeredRemaining :=
  o.offeredFor_mono (Nat.sub_le _ _) o.remaining_le

/-- **No order recovers, and one is exhausted.** -/
theorem Trade.liquid_ssubset {fills : OrderId → Nat} {s s' : Progress} (ht : Trade fills s s') :
    s'.book.liquid ⊂ s.book.liquid := by
  refine Finset.ssubset_iff_subset_ne.mpr ⟨fun id hid => ?_, fun heq => ?_⟩
  · obtain ⟨o', ho', hpos⟩ := OrderBook.mem_liquid.mp hid
    rw [ht.orders] at ho'
    obtain ⟨o, ho, rfl⟩ := Option.map_eq_some_iff.mp ho'
    exact OrderBook.mem_liquid.mpr
      ⟨o, ho, Nat.lt_of_lt_of_le hpos (o.offeredRemaining_deduct_le _)⟩
  · obtain ⟨id, o, ho, hpos, hzero⟩ := ht.exhausts
    have hid : id ∈ s'.book.liquid := by
      rw [heq]
      exact OrderBook.mem_liquid.mpr ⟨o, ho, hpos⟩
    obtain ⟨o', ho', hpos'⟩ := OrderBook.mem_liquid.mp hid
    rw [ht.orders, ho] at ho'
    cases ho'
    rw [hzero] at hpos'
    exact Nat.lt_irrefl 0 hpos'

/-! ## Entries that are out of date -/

/-- Does the entry hold the surplus its orders yield at present? -/
def upToDate (b : OrderBook) (e : CycleEntry) : Bool :=
  (simulateFullCycle b e.orderAb e.orderBc e.orderCa).any fun sim =>
    sim.surplusUsd = e.surplusUsd

theorem UpToDate.upToDate {b : OrderBook} {e : CycleEntry} (h : UpToDate b e) :
    upToDate b e = true := by
  obtain ⟨sim, hsim, heq⟩ := h
  rw [PswapSolver.upToDate, hsim]
  exact decide_eq_true heq

/-- The entries of the heap that are out of date. -/
def stale (s : CycleState) : Nat := s.heap.countP fun e => !upToDate s.book e

/-- Replacing an entry that is out of date by entries that are not. -/
theorem stale_replace {s : CycleState} {e : CycleEntry} (he : e ∈ s.heap)
    (hold : upToDate s.book e = false) {pushed : List CycleEntry}
    (hnew : ∀ e' ∈ pushed, upToDate s.book e' = true) :
    stale { s with heap := pushed ++ s.heap.erase e } < stale s := by
  have hpushed : pushed.countP (fun e => !upToDate s.book e) = 0 :=
    List.countP_eq_zero.mpr fun e' he' => by rw [hnew e' he']; decide
  have hpos : 0 < s.heap.countP fun e => !upToDate s.book e :=
    List.countP_pos_iff.mpr ⟨e, he, by rw [hold]; rfl⟩
  show (pushed ++ s.heap.erase e).countP (fun e => !upToDate s.book e) < stale s
  rw [stale, List.countP_append, hpushed, List.countP_erase, if_pos ⟨he, by rw [hold]; rfl⟩]
  omega

section Step
variable {s₀ : Progress} {s : CycleState} {e : CycleEntry}

/-- **A round executes a cycle or brings the heap up to date.** -/
theorem processEntry_descends (affected : List Triangle) (hinv : CycleInv s₀ s)
    (hfronts : ∀ e ∈ s.heap, Fronts s.book e) (he : e ∈ s.heap) :
    (∃ fills, Trade fills s.toProgress (processEntry affected s e).toProgress) ∨
    (processEntry affected s e).toProgress = s.toProgress ∧
      stale (processEntry affected s e) < stale s := by
  have hl := hinv.legs e he
  rcases processEntry_cases hinv.inStep hl affected with
    ⟨hsim, hround⟩ | ⟨sim, hsim, hne, hround⟩ | ⟨sim, hsimd, -, -, hround⟩
  all_goals rw [hround]
  · refine Or.inr ⟨rfl, stale_replace he ?_ fun e' he' => ?_⟩
    · rw [upToDate, hsim]
      rfl
    · exact ((tryBuildEntry_built hinv.inStep e.triangle).2 e'
        (Option.mem_toList.mp he')).current.upToDate
  · refine Or.inr ⟨rfl, stale_replace he ?_ fun e' he' => ?_⟩
    · rw [upToDate, hsim]
      exact decide_eq_false hne
    · split at he'
      · obtain rfl := List.mem_singleton.mp he'
        exact UpToDate.upToDate ⟨sim, hsim, rfl⟩
      · cases he'
  · exact Or.inl ⟨_, executed_trade hinv.inStep hl (hfronts e he) hsimd⟩

end Step

/-- The measure of the heap loop: the orders that can still release something, and the
entries that are out of date. -/
def cycleMeasure (s : CycleState) : Nat × Nat := (s.book.liquid.card, stale s)

/-- **Every round of the heap loop descends.** -/
theorem CycleStep.descends {s₀ : Progress} (hb : s₀.book.InStep ∅) {order : Enumeration}
    (hof : order.Of s₀.book) {s s' : CycleState}
    (hreach : Relation.ReflTransGen (CycleStep (enumerateTriangles order s₀.book).trianglesByPair)
      (cycleStart order s₀) s)
    (hstep : CycleStep (enumerateTriangles order s₀.book).trianglesByPair s s') :
    Prod.Lex (· < ·) (· < ·) (cycleMeasure s') (cycleMeasure s) := by
  have hreach : CycleReaches s₀ s := ⟨order, hof, hreach⟩
  cases hstep with
  | @pop e affected hpop _ _ =>
    rcases processEntry_descends affected (cycleInv_of_reaches hb hreach)
      (hreach.fronts hb) hpop.1 with ⟨fills, ht⟩ | ⟨heq, hlt⟩
    · exact .left _ _ (Finset.card_lt_card ht.liquid_ssubset)
    · have hbook : (processEntry affected s e).book = s.book := congrArg Progress.book heq
      rw [cycleMeasure, cycleMeasure, hbook]
      exact .right _ hlt

/-- **A heap that is not empty has an entry to pop.** -/
theorem exists_cycleStep (byPair : FiniteMap Pair (List Triangle)) {s : CycleState}
    (hs : s.heap ≠ []) : ∃ s', CycleStep byPair s s' := by
  obtain ⟨e, he, hmax⟩ := Finset.exists_max_image s.heap.toFinset CycleEntry.surplusUsd
    (List.toFinset_nonempty_iff _ |>.mpr hs)
  have hpop : Poppable s e :=
    ⟨List.mem_toFinset.mp he, fun e' he' => hmax e' (List.mem_toFinset.mpr he')⟩
  exact ⟨_, .pop hpop (Finset.nodup_toList (affectedTriangles byPair e.triangle))
    (Finset.toList_toFinset _)⟩

/-- The sets of a book can be visited. -/
theorem exists_enumeration (b : OrderBook) : ∃ order : Enumeration, order.Of b :=
  ⟨⟨b.tokens.toList, fun t => (b.incomingNeighbors t).toList, fun t => (b.neighbors t).toList⟩,
    ⟨Finset.nodup_toList _, Finset.toList_toFinset _⟩,
    fun _ _ => ⟨Finset.nodup_toList _, Finset.toList_toFinset _⟩,
    fun _ _ => ⟨Finset.nodup_toList _, Finset.toList_toFinset _⟩⟩

section Ends
variable {s₀ : Progress} {order : Enumeration} {s : CycleState}

/-- From no state it reaches can the loop run for ever. -/
theorem cycleStep_acc (hb : s₀.book.InStep ∅) (hof : order.Of s₀.book)
    (hreach : Relation.ReflTransGen (CycleStep (enumerateTriangles order s₀.book).trianglesByPair)
      (cycleStart order s₀) s) :
    Acc (fun s' s => CycleStep (enumerateTriangles order s₀.book).trianglesByPair s s') s :=
  acc_of_descends cycleMeasure (Prod.lex Nat.lt_wfRel Nat.lt_wfRel).wf
    fun _ _ hs hstep => hstep.descends hb hof (hreach.trans hs)

/-- From every state it reaches the loop comes to its end. -/
theorem exists_cycle_end (hb : s₀.book.InStep ∅) (hof : order.Of s₀.book)
    (hreach : Relation.ReflTransGen (CycleStep (enumerateTriangles order s₀.book).trianglesByPair)
      (cycleStart order s₀) s) :
    ∃ s', Relation.ReflTransGen (CycleStep (enumerateTriangles order s₀.book).trianglesByPair)
      s s' ∧ s'.heap = [] :=
  exists_reaches_of_acc (fun s => s.heap = []) (cycleStep_acc hb hof hreach)
    fun _ _ hs => exists_cycleStep _ hs

end Ends

/-- **Every run of the engine ends.**  No pair can be matched for ever; whatever the order
in which triangles are enumerated, no sequence of rounds of the heap loop is infinite; the
loop can stop only with an empty heap; and so every book has an outcome. -/
theorem engine_terminates {b : OrderBook} (hb : b.Reachable) {pairs : List Pair}
    (hpairs : MatchablePairs b pairs) :
    (∀ tokenA tokenB, WellFounded fun s' s => matchRound tokenA tokenB s = (true, s')) ∧
    (∀ order, order.Of (runDirectMatching pairs (runStart b)).book →
      Acc (fun s' s => CycleStep (enumerateTriangles order
          (runDirectMatching pairs (runStart b)).book).trianglesByPair s s')
        (cycleStart order (runDirectMatching pairs (runStart b)))) ∧
    (∀ byPair (s : CycleState), s.heap ≠ [] → ∃ s', CycleStep byPair s s') ∧
    ∀ triangular, ∃ p, EngineRun b triangular p := by
  have hdirect := (runDirectMatching_advance pairs (s := runStart b) hb.inv.inStep).1
  refine ⟨fun tokenA tokenB => ?_, fun order hof => cycleStep_acc hdirect hof .refl,
    fun byPair s hs => exists_cycleStep byPair hs, fun triangular => ?_⟩
  · exact Subrelation.wf (fun h => matchRound_remaining_lt h)
      (InvImage.wf (fun s : Progress => s.book.remaining) Nat.lt_wfRel.wf)
  · cases triangular with
    | false => exact ⟨_, .direct hpairs⟩
    | true =>
      obtain ⟨order, hof⟩ := exists_enumeration (runDirectMatching pairs (runStart b)).book
      obtain ⟨s, hreach, hdone⟩ := exists_cycle_end hdirect hof .refl
      exact ⟨_, .triangular hpairs ⟨order, hof, hreach⟩ hdone⟩

/-- The engine comes to an end on a book with a profitable triangle. -/
theorem closedLoop_terminates : closedLoopBook.Reachable ∧ MatchablePairs closedLoopBook [] ∧
    ∃ p, EngineRun closedLoopBook true p := by
  have hreach : closedLoopBook.Reachable := triangleBook_reachable _ _ _
  have hpairs : MatchablePairs closedLoopBook [] := ⟨by decide, by decide⟩
  exact ⟨hreach, hpairs, (engine_terminates hreach hpairs).2.2.2 true⟩

end PswapSolver
