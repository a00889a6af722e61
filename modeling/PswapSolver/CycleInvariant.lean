import PswapSolver.ThreeEdgeCycle

/-! # The invariant of triangular matching

Every entry on the heap names three orders of the book, one for each pair of its
triangle, visible to the engine; the three pairs are different, hence so are the
orders (`Legs`).  The entry may be out of date, but the orders it names stay: no
order leaves the book during a run.  So an entry whose simulation succeeds names
three *queued* orders, executing it keeps the book in step, and each round of the
loop is an `Advance`.
-/
namespace PswapSolver

/-- The order `id` is of pair `p` and visible to the engine. -/
def VisibleAs (b : OrderBook) (id : OrderId) (p : Pair) : Prop :=
  ∃ o, b.orders.lookup id = some o ∧ o.pair = p ∧ id ∉ b.parked

/-- **What an entry names**: three visible orders, one of each pair of the triangle,
and three different pairs. -/
structure Legs (b : OrderBook) (e : CycleEntry) : Prop where
  pairs_nodup : e.triangle.pairs.Nodup
  ab : VisibleAs b e.orderAb (e.triangle.a, e.triangle.b)
  bc : VisibleAs b e.orderBc (e.triangle.b, e.triangle.c)
  ca : VisibleAs b e.orderCa (e.triangle.c, e.triangle.a)

theorem VisibleAs.advance {s s' : Progress} (h : s.Advance s') {id : OrderId} {p : Pair}
    (hv : VisibleAs s.book id p) : VisibleAs s'.book id p := by
  obtain ⟨o, ho, hp, hnp⟩ := hv
  obtain ⟨o', ho'⟩ := Finmap.mem_iff.mp (h.mem_orders.mpr (FiniteMap.mem_of_lookup ho))
  refine ⟨o', ho', ?_, h.parked ▸ hnp⟩
  rw [← hp, Order.pair, Order.pair, (h.terms ho ho').1]

theorem Legs.advance {s s' : Progress} (h : s.Advance s') {e : CycleEntry}
    (hl : Legs s.book e) : Legs s'.book e :=
  ⟨hl.pairs_nodup, hl.ab.advance h, hl.bc.advance h, hl.ca.advance h⟩

theorem VisibleAs.ne {b : OrderBook} {i j : OrderId} {p q : Pair} (hi : VisibleAs b i p)
    (hj : VisibleAs b j q) (hpq : p ≠ q) : i ≠ j := by
  rintro rfl
  obtain ⟨o, ho, rfl, -⟩ := hi
  obtain ⟨o', ho', rfl, -⟩ := hj
  rw [ho] at ho'
  cases ho'
  exact hpq rfl

/-! ## Building entries -/

section Build
variable {b : OrderBook}

/-- The first order of a queue is a visible order of its pair. -/
theorem visibleAs_of_head (hb : b.InStep ∅) {id : OrderId} {p : Pair}
    (hhead : (b.queue p).head? = some id) : VisibleAs b id p := by
  obtain ⟨o, ho, hp, hnp, -⟩ := hb.mem_queue.mp (List.mem_of_head? hhead)
  exact ⟨o, ho, hp, hnp⟩

/-- The entry is what the simulation of the orders it names yields at present. -/
def UpToDate (b : OrderBook) (e : CycleEntry) : Prop :=
  ∃ sim, simulateFullCycle b e.orderAb e.orderBc e.orderCa = some sim ∧
    sim.surplusUsd = e.surplusUsd

/-- **An entry just built** names the first orders of the three queues and is current. -/
structure Built (b : OrderBook) (t : Triangle) (e : CycleEntry) : Prop where
  triangle : e.triangle = t
  headAb : (b.queue (t.a, t.b)).head? = some e.orderAb
  headBc : (b.queue (t.b, t.c)).head? = some e.orderBc
  headCa : (b.queue (t.c, t.a)).head? = some e.orderCa
  current : UpToDate b e

/-- Building an entry leaves a book in step alone. -/
theorem tryBuildEntry_built (hb : b.InStep ∅) (t : Triangle) :
    (tryBuildEntry b t).2 = b ∧ ∀ e, (tryBuildEntry b t).1 = some e → Built b t e := by
  have hab := congrArg Prod.fst (hb.bestOrder t.a t.b)
  have hbc := congrArg Prod.fst (hb.bestOrder t.b t.c)
  have hca := congrArg Prod.fst (hb.bestOrder t.c t.a)
  unfold tryBuildEntry
  rw [hb.bestOrder t.a t.b]
  cases h₁ : (b.queue (t.a, t.b)).head?.bind b.orders.lookup with
  | none => exact ⟨rfl, nofun⟩
  | some orderAb =>
    dsimp only
    rw [hb.bestOrder t.b t.c]
    cases h₂ : (b.queue (t.b, t.c)).head?.bind b.orders.lookup with
    | none => exact ⟨rfl, nofun⟩
    | some orderBc =>
      dsimp only
      rw [hb.bestOrder t.c t.a]
      cases h₃ : (b.queue (t.c, t.a)).head?.bind b.orders.lookup with
      | none => exact ⟨rfl, nofun⟩
      | some orderCa =>
        dsimp only
        split
        · exact ⟨rfl, nofun⟩
        split
        · exact ⟨rfl, nofun⟩
        rename_i simulation hsim
        split
        · exact ⟨rfl, nofun⟩
        refine ⟨rfl, fun e he => ?_⟩
        cases he
        exact ⟨rfl, hb.bestOrder_head (hab.trans h₁), hb.bestOrder_head (hbc.trans h₂),
          hb.bestOrder_head (hca.trans h₃), simulation, hsim, rfl⟩

theorem tryBuildEntry_spec (hb : b.InStep ∅) {t : Triangle} (ht : t.pairs.Nodup) :
    (tryBuildEntry b t).2 = b ∧
      ∀ e, (tryBuildEntry b t).1 = some e → e.triangle = t ∧ Legs b e := by
  obtain ⟨hbook, hbuilt⟩ := tryBuildEntry_built hb t
  refine ⟨hbook, fun e he => ?_⟩
  obtain ⟨rfl, hab, hbc, hca, -⟩ := hbuilt e he
  exact ⟨rfl, ht, visibleAs_of_head hb hab, visibleAs_of_head hb hbc, visibleAs_of_head hb hca⟩

theorem pairs_canonical_nodup {x y z : TokenId} (hx : z ≠ x) (hy : z ≠ y) :
    (Triangle.canonical x y z).pairs.Nodup := by
  unfold Triangle.canonical
  split
  · simp [Triangle.pairs, hx, hx.symm, hy.symm]
  · split <;> simp [Triangle.pairs, hx, hy, hx.symm, hy.symm]

/-! ## Enumeration -/

/-- What the enumeration has collected from a book in step. -/
structure EnumeratedFrom (b : OrderBook) (st : Enumerated) : Prop where
  book : st.book = b
  entries : ∀ e ∈ st.entries, Legs b e
  registered : ∀ p, ∀ t ∈ (st.trianglesByPair.lookup p).getD [], t.pairs.Nodup

/-- Registering a triangle under one more pair. -/
theorem mem_registerTriangle {t t' : Triangle} {byPair : FiniteMap Pair (List Triangle)}
    {p q : Pair} : t' ∈ ((registerTriangle t byPair p).lookup q).getD [] ↔
      t' ∈ (byPair.lookup q).getD [] ∨ t' = t ∧ q = p := by
  rw [registerTriangle, FiniteMap.lookup_insert_if]
  by_cases hq : q = p
  · rw [if_pos hq, Option.getD_some, List.mem_append, List.mem_singleton, hq]
    simp
  · rw [if_neg hq]
    simp [hq]

theorem mem_foldl_registerTriangle {t t' : Triangle} {ps : List Pair}
    {byPair : FiniteMap Pair (List Triangle)} {q : Pair} :
    t' ∈ ((ps.foldl (registerTriangle t) byPair).lookup q).getD [] ↔
      t' ∈ (byPair.lookup q).getD [] ∨ t' = t ∧ q ∈ ps := by
  induction ps generalizing byPair with
  | nil => simp
  | cons p ps ih =>
    rw [List.foldl_cons, ih, mem_registerTriangle, List.mem_cons]
    tauto

/-- What the enumeration remembers of a triangle met for the first time. -/
def Enumerated.record (st : Enumerated) (t : Triangle) : Option CycleEntry → Enumerated
  | none => { st with seen := insert t st.seen }
  | some entry =>
    { st with
      seen := insert t st.seen
      entries := st.entries ++ [entry]
      trianglesByPair := t.pairs.foldl (registerTriangle t) st.trianglesByPair }

@[simp] theorem Enumerated.record_book (st : Enumerated) (t : Triangle) (e : Option CycleEntry) :
    (st.record t e).book = st.book := by
  cases e <;> rfl

@[simp] theorem Enumerated.record_seen (st : Enumerated) (t : Triangle) (e : Option CycleEntry) :
    (st.record t e).seen = insert t st.seen := by
  cases e <;> rfl

/-- **The body of the triple loop** on a book in step. -/
theorem visitTriangle_eq (hb : b.InStep ∅) {st : Enumerated} (hbook : st.book = b)
    (x y z : TokenId) :
    visitTriangle x y z st =
      if z = x ∨ z = y ∨ b.hasOrders z x = false ∨ Triangle.canonical x y z ∈ st.seen then st
      else st.record (Triangle.canonical x y z) (tryBuildEntry b (Triangle.canonical x y z)).1 := by
  subst hbook
  by_cases hz : z = x ∨ z = y
  · rw [visitTriangle, if_pos hz, if_pos (by tauto)]
  by_cases ho : st.book.hasOrders z x = false
  · rw [visitTriangle, if_neg hz, if_pos (by rw [ho]; rfl), if_pos (by tauto)]
  by_cases hseen : Triangle.canonical x y z ∈ st.seen
  · rw [visitTriangle, if_neg hz, if_neg (by simp [ho])]
    dsimp only
    rw [if_pos hseen, if_pos (by tauto)]
  rw [visitTriangle, if_neg hz, if_neg (by simp [ho])]
  dsimp only
  rw [if_neg hseen, if_neg (by tauto)]
  obtain ⟨hbook, -⟩ := tryBuildEntry_built hb (Triangle.canonical x y z)
  cases hbuild : tryBuildEntry st.book (Triangle.canonical x y z) with
  | mk entry book =>
    rw [hbuild] at hbook
    obtain rfl : book = st.book := hbook
    cases entry <;> rfl

/-- The triples of tokens in the order in which they are visited. -/
def Enumeration.triples (order : Enumeration) : List (TokenId × TokenId × TokenId) :=
  order.tokens.flatMap fun tokenB => (order.incoming tokenB).flatMap fun tokenA =>
    (order.outgoing tokenB).map fun tokenC => (tokenA, tokenB, tokenC)

/-- The three loops are one pass over the triples. -/
theorem enumerateTriangles_eq_foldl (order : Enumeration) (b : OrderBook) :
    enumerateTriangles order b =
      order.triples.foldl (fun st t => visitTriangle t.1 t.2.1 t.2.2 st) ⟨b, ∅, [], ∅⟩ := by
  simp only [enumerateTriangles, Enumeration.triples, List.foldl_flatMap, List.foldl_map]

/-- **The enumeration, by induction**: what every visit preserves holds at the end. -/
theorem enumerateTriangles_induct {P : Enumerated → Prop} {b : OrderBook} (order : Enumeration)
    (start : P ⟨b, ∅, [], ∅⟩)
    (visit : ∀ {st} tokenA tokenB tokenC, P st → P (visitTriangle tokenA tokenB tokenC st)) :
    P (enumerateTriangles order b) := by
  rw [enumerateTriangles_eq_foldl]
  exact List.foldlRecOn _ _ start fun st hst t _ => visit t.1 t.2.1 t.2.2 hst

theorem EnumeratedFrom.visit {st : Enumerated} (hb : b.InStep ∅) (h : EnumeratedFrom b st)
    (x y z : TokenId) : EnumeratedFrom b (visitTriangle x y z st) := by
  rw [visitTriangle_eq hb h.book]
  split
  · exact h
  rename_i hne
  rw [not_or, not_or] at hne
  have ht := pairs_canonical_nodup hne.1 hne.2.1
  obtain ⟨-, hentry⟩ := tryBuildEntry_spec hb ht
  cases hbuild : (tryBuildEntry b (Triangle.canonical x y z)).1 with
  | none => exact ⟨h.book, h.entries, h.registered⟩
  | some entry =>
    refine ⟨h.book, fun e he => ?_, fun p t ht' => ?_⟩
    · rcases List.mem_append.mp he with he | he
      · exact h.entries e he
      · rw [List.mem_singleton.mp he]
        exact (hentry entry hbuild).2
    · rcases mem_foldl_registerTriangle.mp ht' with hmem | ⟨rfl, -⟩
      · exact h.registered p t hmem
      · exact ht

theorem enumerateTriangles_spec (hb : b.InStep ∅) (order : Enumeration) :
    EnumeratedFrom b (enumerateTriangles order b) :=
  enumerateTriangles_induct order ⟨rfl, by simp, fun _ _ h => by cases h⟩
    fun tokenA tokenB tokenC h => h.visit hb tokenA tokenB tokenC

/-- **Every enumerated entry was built from the book of the phase.** -/
theorem enumerateTriangles_built (hb : b.InStep ∅) (order : Enumeration) :
    ∀ e ∈ (enumerateTriangles order b).entries, Built b e.triangle e := by
  refine (enumerateTriangles_induct (P := fun st => st.book = b ∧
    ∀ e ∈ st.entries, Built b e.triangle e) order ⟨rfl, by simp⟩ ?_).2
  rintro st x y z ⟨hbook, hbuilt⟩
  rw [visitTriangle_eq hb hbook]
  split
  · exact ⟨hbook, hbuilt⟩
  obtain ⟨-, hentry⟩ := tryBuildEntry_built hb (Triangle.canonical x y z)
  cases hbuild : (tryBuildEntry b (Triangle.canonical x y z)).1 with
  | none => exact ⟨hbook, hbuilt⟩
  | some entry =>
    refine ⟨hbook, fun e he => ?_⟩
    rcases List.mem_append.mp he with he | he
    · exact hbuilt e he
    · rw [List.mem_singleton.mp he, (hentry entry hbuild).triangle]
      exact hentry entry hbuild

end Build

/-! ## Execution -/

/-- The three orders a successful simulation reads. -/
structure Simulated (b : OrderBook) (e : CycleEntry) (sim : CycleSimulation) where
  orderAb : Order
  orderBc : Order
  orderCa : Order
  priceA : Nat
  priceB : Nat
  priceC : Nat
  lookupAb : b.orders.lookup e.orderAb = some orderAb
  lookupBc : b.orders.lookup e.orderBc = some orderBc
  lookupCa : b.orders.lookup e.orderCa = some orderCa
  activeAb : orderAb.isActive = true
  activeBc : orderBc.isActive = true
  activeCa : orderCa.isActive = true
  pricedA : b.feed orderAb.offeredToken = some priceA
  pricedB : b.feed orderAb.requestedToken = some priceB
  pricedC : b.feed orderBc.requestedToken = some priceC
  simulated : simulatePriced orderAb orderBc orderCa priceA priceB priceC = some sim

theorem simulateFullCycle_some {b : OrderBook} {e : CycleEntry} {sim : CycleSimulation}
    (h : simulateFullCycle b e.orderAb e.orderBc e.orderCa = some sim) :
    Nonempty (Simulated b e sim) := by
  unfold simulateFullCycle at h
  split at h
  · rename_i orderAb orderBc orderCa hab hbc hca
    unfold simulateOrders at h
    split at h
    · cases h
    rename_i hact
    simp only [Bool.or_eq_true, Bool.not_eq_true', not_or, Bool.not_eq_false] at hact
    split at h
    · rename_i priceA priceB priceC hA hB hC
      exact ⟨⟨orderAb, orderBc, orderCa, priceA, priceB, priceC, hab, hbc, hca, hact.1.1,
        hact.1.2, hact.2, hA, hB, hC, h⟩⟩
    · cases h
  · cases h

theorem fill_toOrderTerms (o : Order) (n : Nat) : (o.fill n).2.toOrderTerms = o.toOrderTerms := rfl

theorem fill_requestedRemaining_le (o : Order) (n : Nat) :
    (o.fill n).2.requestedRemaining ≤ o.requestedRemaining := Nat.sub_le _ _

theorem VisibleAs.queued {b : OrderBook} (hb : b.InStep ∅) {id : OrderId} {p : Pair} {o : Order}
    (hv : VisibleAs b id p) (ho : b.orders.lookup id = some o) (hact : o.isActive = true) :
    id ∈ b.queue o.pair ∧ id ∉ b.parked := by
  obtain ⟨o', ho', -, hnp⟩ := hv
  exact ⟨hb.mem_queue_of_active ho hact hnp, hnp⟩

theorem Legs.ne {b : OrderBook} {e : CycleEntry} (hl : Legs b e) :
    e.orderAb ≠ e.orderBc ∧ e.orderAb ≠ e.orderCa ∧ e.orderBc ≠ e.orderCa := by
  have hnd := hl.pairs_nodup
  simp only [Triangle.pairs, List.nodup_cons, List.mem_cons, List.not_mem_nil, or_false,
    not_or] at hnd
  exact ⟨hl.ab.ne hl.bc hnd.1.1, hl.ab.ne hl.ca hnd.1.2, hl.bc.ne hl.ca hnd.2.1⟩

/-- The book after the three fills of a cycle, in the order of the source. -/
def cycleFilled (b : OrderBook) (e : CycleEntry) (f : FillResult)
    (orderAb orderBc orderCa : Order) : OrderBook :=
  fillInPlace (fillInPlace (fillInPlace b e.orderAb orderAb f.fillB) e.orderCa orderCa f.fillA)
    e.orderBc orderBc f.fillC

/-- The book after a cycle was executed. -/
def afterCycle (b : OrderBook) (e : CycleEntry) (f : FillResult) (orderAb orderBc orderCa : Order) :
    OrderBook :=
  ((((((cycleFilled b e f orderAb orderBc orderCa).cleanupIfFilled e.orderAb).cleanupIfFilled
    e.orderCa).cleanupIfFilled e.orderBc).addProtocolBalance e.triangle.a
    f.surplusA).addProtocolBalance e.triangle.b f.surplusB).addProtocolBalance e.triangle.c
    f.surplusC

section Execute
variable {b : OrderBook} {e : CycleEntry} {sim : CycleSimulation}

theorem lookup_after_ab (hl : Legs b e) (h : Simulated b e sim) :
    (fillInPlace b e.orderAb h.orderAb sim.fills.fillB).orders.lookup e.orderCa =
      some h.orderCa := by
  obtain ⟨-, hab_ca, -⟩ := hl.ne
  rw [fillInPlace, Finmap.lookup_insert_of_ne _ hab_ca.symm, h.lookupCa]

theorem lookup_after_ca (hl : Legs b e) (h : Simulated b e sim) :
    (fillInPlace (fillInPlace b e.orderAb h.orderAb sim.fills.fillB) e.orderCa
      h.orderCa sim.fills.fillA).orders.lookup e.orderBc = some h.orderBc := by
  obtain ⟨hab_bc, -, hbc_ca⟩ := hl.ne
  rw [fillInPlace, Finmap.lookup_insert_of_ne _ hbc_ca, fillInPlace,
    Finmap.lookup_insert_of_ne _ hab_bc.symm, h.lookupBc]

/-- **`execute_cycle` on an entry whose simulation succeeded.** -/
theorem executeCycle_eq (hl : Legs b e) (h : Simulated b e sim) (filledOrders : Finset OrderId) :
    executeCycle b e sim.fills filledOrders =
      (true, afterCycle b e sim.fills h.orderAb h.orderBc h.orderCa,
        insert e.orderBc (insert e.orderCa (insert e.orderAb filledOrders))) := by
  unfold executeCycle
  rw [h.lookupAb]
  dsimp only
  rw [lookup_after_ab hl h]
  dsimp only
  rw [lookup_after_ca hl h]
  rfl

/-- The three orders of a cycle are pending until they are cleaned up. -/
theorem Legs.cycleFilled_inStep (hb : b.InStep ∅) (hl : Legs b e) (h : Simulated b e sim) :
    (cycleFilled b e sim.fills h.orderAb h.orderBc h.orderCa).InStep
      {e.orderBc, e.orderCa, e.orderAb} := by
  obtain ⟨hqab, -⟩ := hl.ab.queued hb h.lookupAb h.activeAb
  obtain ⟨hqbc, -⟩ := hl.bc.queued hb h.lookupBc h.activeBc
  obtain ⟨hqca, -⟩ := hl.ca.queued hb h.lookupCa h.activeCa
  have h₁ := hb.setOrder h.lookupAb hqab (fill_toOrderTerms h.orderAb sim.fills.fillB) rfl
  have h₂ := h₁.setOrder (lookup_after_ab hl h) hqca
    (fill_toOrderTerms h.orderCa sim.fills.fillA) rfl
  exact h₂.setOrder (lookup_after_ca hl h) hqbc
    (fill_toOrderTerms h.orderBc sim.fills.fillC) rfl

theorem Legs.afterCycle_inStep (hb : b.InStep ∅) (hl : Legs b e) (h : Simulated b e sim) :
    (afterCycle b e sim.fills h.orderAb h.orderBc h.orderCa).InStep ∅ := by
  obtain ⟨hab_bc, hab_ca, hbc_ca⟩ := hl.ne
  have hcleaned := (((hl.cycleFilled_inStep hb h).cleanupIfFilled e.orderAb
    (by simp)).cleanupIfFilled e.orderCa (by simp [hab_ca.symm])).cleanupIfFilled e.orderBc
    (by simp [hab_bc.symm, hbc_ca])
  refine cast (congrArg (OrderBook.InStep _) ?_) (((hcleaned.addProtocolBalance e.triangle.a
    sim.fills.surplusA).addProtocolBalance e.triangle.b sim.fills.surplusB).addProtocolBalance
    e.triangle.c sim.fills.surplusC)
  ext i
  simp only [Finset.mem_erase, Finset.mem_insert, Finset.mem_singleton, Finset.notMem_empty,
    iff_false]
  tauto

end Execute

/-- **Executing an entry** whose simulation succeeded fills its three orders, keeps
the book in step, and is an advance. -/
theorem executeCycle_spec {s : Progress} {e : CycleEntry} {sim : CycleSimulation}
    (hb : s.book.InStep ∅) (hl : Legs s.book e) (hsim : Simulated s.book e sim) :
    ∃ b' filled, executeCycle s.book e sim.fills s.filledOrders = (true, b', filled) ∧
      b'.InStep ∅ ∧ ∀ cycles, s.Advance
        { s with book := b', filledOrders := filled, cycles := cycles } := by
  obtain ⟨-, hpab⟩ := hl.ab.queued hb hsim.lookupAb hsim.activeAb
  obtain ⟨-, hpbc⟩ := hl.bc.queued hb hsim.lookupBc hsim.activeBc
  obtain ⟨-, hpca⟩ := hl.ca.queued hb hsim.lookupCa hsim.activeCa
  refine ⟨_, _, executeCycle_eq hl hsim s.filledOrders, hl.afterCycle_inStep hb hsim,
    fun cycles => ?_⟩
  -- three fills, and then the index and the balances
  have a₁ := Progress.Advance.fill hsim.lookupAb hpab
    (fill_toOrderTerms hsim.orderAb sim.fills.fillB) (fill_requestedRemaining_le ..)
  have a₂ := a₁.trans (.fill (lookup_after_ab hl hsim) hpca
    (fill_toOrderTerms hsim.orderCa sim.fills.fillA) (fill_requestedRemaining_le ..))
  have a₃ := a₂.trans (.fill (lookup_after_ca hl hsim) hpbc
    (fill_toOrderTerms hsim.orderBc sim.fills.fillC) (fill_requestedRemaining_le ..))
  refine a₃.trans (.of_eq ?_ rfl ?_ ?_ ?_) <;> simp [afterCycle, cycleFilled, fillInPlace]

/-! ## The loop -/

/-- **The invariant of the loop**, relative to where the phase started. -/
structure CycleInv (s₀ : Progress) (s : CycleState) : Prop where
  inStep : s.book.InStep ∅
  advance : s₀.Advance s.toProgress
  legs : ∀ e ∈ s.heap, Legs s.book e

variable {s₀ : Progress} {s s' : CycleState}

theorem CycleInv.refresh (h : CycleInv s₀ s) {t : Triangle} (ht : t.pairs.Nodup) :
    CycleInv s₀ (refresh s t) := by
  obtain ⟨hbook, hentry⟩ := tryBuildEntry_spec h.inStep ht
  unfold PswapSolver.refresh
  cases hbuild : tryBuildEntry s.book t with
  | mk entry book =>
    rw [hbuild] at hbook hentry
    obtain rfl : book = s.book := hbook
    cases entry with
    | none => exact h
    | some entry =>
      refine ⟨h.inStep, h.advance, fun e he => ?_⟩
      rcases List.mem_cons.mp he with rfl | he
      · exact (hentry e rfl).2
      · exact h.legs e he

theorem CycleInv.foldl_refresh (h : CycleInv s₀ s) {ts : List Triangle}
    (hts : ∀ t ∈ ts, t.pairs.Nodup) : CycleInv s₀ (ts.foldl PswapSolver.refresh s) := by
  induction ts generalizing s with
  | nil => exact h
  | cons t ts ih =>
    exact ih (h.refresh (hts t (List.mem_cons_self ..))) fun t' ht' =>
      hts t' (List.mem_cons_of_mem _ ht')

theorem CycleInv.processEntry (h : CycleInv s₀ s) {e : CycleEntry} (he : e ∈ s.heap)
    {affected : List Triangle} (haff : ∀ t ∈ affected, t.pairs.Nodup) :
    CycleInv s₀ (processEntry affected s e) := by
  have hle := h.legs e he
  have hpopped : CycleInv s₀ { s with heap := s.heap.erase e } :=
    ⟨h.inStep, h.advance, fun e' he' => h.legs e' (List.mem_of_mem_erase he')⟩
  unfold PswapSolver.processEntry
  dsimp only
  cases hsim : simulateFullCycle s.book e.orderAb e.orderBc e.orderCa with
  | none => exact hpopped.refresh hle.pairs_nodup
  | some sim =>
    dsimp only
    split
    · split
      · refine ⟨h.inStep, h.advance, fun e' he' => ?_⟩
        rcases List.mem_cons.mp he' with rfl | he'
        · exact ⟨hle.pairs_nodup, hle.ab, hle.bc, hle.ca⟩
        · exact hpopped.legs e' he'
      · exact hpopped
    · obtain ⟨hs⟩ := simulateFullCycle_some hsim
      obtain ⟨b', filled, heq, hstep, hadv⟩ := executeCycle_spec h.inStep hle hs
      rw [heq]
      refine CycleInv.foldl_refresh ?_ haff
      refine ⟨hstep, h.advance.trans (hadv _), fun e' he' => ?_⟩
      exact (h.legs e' (List.mem_of_mem_erase he')).advance (hadv (s.cycles + 1))

/-- **Every state the loop reaches satisfies the invariant.** -/
theorem cycleInv_of_reaches (hb : s₀.book.InStep ∅) (h : CycleReaches s₀ s) :
    CycleInv s₀ s := by
  obtain ⟨order, -, hrun⟩ := h
  obtain ⟨hbook, hentries, hreg⟩ := enumerateTriangles_spec hb order
  induction hrun with
  | refl =>
    refine ⟨?_, ?_, ?_⟩
    · rw [cycleStart, hbook]
      exact hb
    · exact .of_eq (by rw [cycleStart, hbook]) rfl (by rw [cycleStart, hbook])
        (by rw [cycleStart, hbook]) (by rw [cycleStart, hbook])
    · intro e he
      rw [cycleStart, hbook]
      exact hentries e he
  | tail _ hstep ih =>
    cases hstep with
    | pop hpop _ hall =>
      refine ih.processEntry hpop.1 fun t ht => ?_
      have ht : t ∈ affectedTriangles _ _ := hall ▸ List.mem_toFinset.mpr ht
      rw [affectedTriangles, List.mem_toFinset, List.mem_flatMap] at ht
      obtain ⟨p, -, hp⟩ := ht
      exact hreg p t hp

end PswapSolver
