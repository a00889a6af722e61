import PswapSolver.Ledger

/-! # Triangular matching is greedy

The loop of triangular matching works on a heap whose entries go out of date: their
orders are filled by other cycles, and then the entry is corrected, replaced or dropped
when it is popped.  What the loop is for is simpler, and is said here on the ledger:
among the triangles that had an entry when the phase began, execute the one that is now
worth most, and do so until none is worth anything (`Greedy`).

The heap implements this because it is never behind.  Every triangle that is registered
and worth something has its present entry on the heap (`HeapInv.complete`): an execution
re-evaluates all triangles that share a pair with it, and the entries of the others do
not change.  So the entry that is executed, the largest on the heap and up to date, is
the largest of all present entries, and when the heap is empty there is none left
(`CycleReaches.greedy`).
-/
namespace PswapSolver
open Relation

/-! ## The present entry of a triangle -/

namespace Ledger

/-- The first order of a pair. -/
def first (L : Ledger) (p : Pair) : Option Order := (L.queue p).head?.bind L.orders.lookup

/-- The entry of a triangle, as `try_build_entry` computes it from the first orders. -/
def entryOf (L : Ledger) (t : Triangle) : Option CycleEntry :=
  (L.first (t.a, t.b)).bind fun orderAb =>
    (L.first (t.b, t.c)).bind fun orderBc =>
      (L.first (t.c, t.a)).bind fun orderCa =>
        if knownUnprofitable orderAb orderBc orderCa then none
        else
          (simulateOrders L.feed orderAb orderBc orderCa).bind fun simulation =>
            if simulation.surplusUsd = 0 then none
            else some ⟨t, orderAb.id, orderBc.id, orderCa.id, simulation.surplusUsd⟩

/-- **What a triangle is worth something for**: the first orders of its pairs and their
simulation. -/
structure Offers (L : Ledger) (t : Triangle) (orderAb orderBc orderCa : Order)
    (simulation : CycleSimulation) : Prop where
  firstAb : L.first (t.a, t.b) = some orderAb
  firstBc : L.first (t.b, t.c) = some orderBc
  firstCa : L.first (t.c, t.a) = some orderCa
  promising : knownUnprofitable orderAb orderBc orderCa = false
  simulated : simulateOrders L.feed orderAb orderBc orderCa = some simulation
  profitable : simulation.surplusUsd ≠ 0

theorem Offers.entryOf {L : Ledger} {t : Triangle} {orderAb orderBc orderCa : Order}
    {sim : CycleSimulation} (h : L.Offers t orderAb orderBc orderCa sim) :
    L.entryOf t = some ⟨t, orderAb.id, orderBc.id, orderCa.id, sim.surplusUsd⟩ := by
  unfold Ledger.entryOf
  rw [h.firstAb, h.firstBc, h.firstCa]
  simp only [Option.bind_some, h.promising, h.simulated, if_neg h.profitable, Bool.false_eq_true,
    if_false]

theorem offers_of_entryOf {L : Ledger} {t : Triangle} {e : CycleEntry}
    (h : L.entryOf t = some e) : ∃ orderAb orderBc orderCa sim,
      L.Offers t orderAb orderBc orderCa sim ∧
      e = ⟨t, orderAb.id, orderBc.id, orderCa.id, sim.surplusUsd⟩ := by
  unfold entryOf at h
  obtain ⟨orderAb, hab, h⟩ := Option.bind_eq_some_iff.mp h
  obtain ⟨orderBc, hbc, h⟩ := Option.bind_eq_some_iff.mp h
  obtain ⟨orderCa, hca, h⟩ := Option.bind_eq_some_iff.mp h
  split at h
  · cases h
  rename_i hpromising
  obtain ⟨sim, hsim, h⟩ := Option.bind_eq_some_iff.mp h
  split at h
  · cases h
  rename_i hprofitable
  exact ⟨orderAb, orderBc, orderCa, sim, ⟨hab, hbc, hca, Bool.eq_false_iff.mpr hpromising, hsim,
    hprofitable⟩, (Option.some.inj h).symm⟩

theorem entryOf_triangle {L : Ledger} {t : Triangle} {e : CycleEntry}
    (h : L.entryOf t = some e) : e.triangle = t := by
  obtain ⟨_, _, _, _, -, rfl⟩ := offers_of_entryOf h
  rfl

/-- A pair none of whose orders trades keeps its first order. -/
theorem Sound.first_trade {L : Ledger} (hs : L.Sound) {p : Pair} {fills : OrderId → Nat}
    (hno : ∀ id ∈ L.queue p, fills id = 0) (credits : List (TokenId × Nat)) :
    (L.trade fills credits).first p = L.first p := by
  unfold first
  rw [hs.queue_trade hno]
  cases hhead : (L.queue p).head? with
  | none => rfl
  | some id => exact lookup_trade_of_no_fill (hno id (List.mem_of_head? hhead))

/-- A triangle none of whose orders trades offers what it offered. -/
theorem Offers.trade {L : Ledger} {t : Triangle} {orderAb orderBc orderCa : Order}
    {sim : CycleSimulation} (h : L.Offers t orderAb orderBc orderCa sim) (hs : L.Sound)
    {fills : OrderId → Nat} (hno : ∀ p ∈ t.pairs, ∀ id ∈ L.queue p, fills id = 0)
    (credits : List (TokenId × Nat)) :
    (L.trade fills credits).Offers t orderAb orderBc orderCa sim := by
  have hfirst : ∀ p ∈ t.pairs, (L.trade fills credits).first p = L.first p :=
    fun p hp => hs.first_trade (hno p hp) credits
  exact ⟨(hfirst _ (by simp [Triangle.pairs])).trans h.firstAb,
    (hfirst _ (by simp [Triangle.pairs])).trans h.firstBc,
    (hfirst _ (by simp [Triangle.pairs])).trans h.firstCa, h.promising, h.simulated, h.profitable⟩

/-- A triangle none of whose first orders trades keeps its entry. -/
theorem Sound.entryOf_trade {L : Ledger} (hs : L.Sound) {t : Triangle} {fills : OrderId → Nat}
    (hno : ∀ p ∈ t.pairs, ∀ id ∈ L.queue p, fills id = 0) (credits : List (TokenId × Nat)) :
    (L.trade fills credits).entryOf t = L.entryOf t := by
  have hfirst : ∀ p ∈ t.pairs, (L.trade fills credits).first p = L.first p :=
    fun p hp => hs.first_trade (hno p hp) credits
  unfold entryOf
  rw [hfirst _ (by simp [Triangle.pairs]), hfirst _ (by simp [Triangle.pairs]),
    hfirst _ (by simp [Triangle.pairs])]
  rfl

/-- Orders are found under their ids. -/
def Named (L : Ledger) : Prop := ∀ {id o}, L.orders.lookup id = some o → o.id = id

theorem Named.trade {L : Ledger} (hn : L.Named) (fills : OrderId → Nat)
    (credits : List (TokenId × Nat)) : (L.trade fills credits).Named := by
  intro id o ho
  rw [lookup_trade] at ho
  obtain ⟨o', ho', rfl⟩ := Option.map_eq_some_iff.mp ho
  show o'.id = id
  exact hn ho'

/-- A cycle fills no order of a pair that is not on its way. -/
theorem Sound.cycleFills_eq_zero {L : Ledger} {e : CycleEntry} (hs : L.Sound) (hn : L.Named)
    (hentry : L.entryOf e.triangle = some e) {p : Pair} (hp : p ∉ e.triangle.pairs) {id : OrderId}
    (hid : id ∈ L.queue p) (f : FillResult) : cycleFills e f id = 0 := by
  obtain ⟨orderAb, orderBc, orderCa, sim, hoffers, he⟩ := offers_of_entryOf hentry
  have hne : ∀ {q o}, L.first q = some o → q ∈ e.triangle.pairs → id ≠ o.id := by
    rintro q o hfirst hq rfl
    obtain ⟨i, hhead, hlookup⟩ := Option.bind_eq_some_iff.mp hfirst
    obtain rfl := hn hlookup
    obtain ⟨o', ho', hpair, -⟩ := hs q _ (List.mem_of_head? hhead)
    obtain ⟨o'', ho'', hpair', -⟩ := hs p _ hid
    obtain rfl := Option.some.inj (ho'.symm.trans ho'')
    exact hp (hpair' ▸ hpair ▸ hq)
  have hab : e.orderAb = orderAb.id := congrArg CycleEntry.orderAb he
  have hbc : e.orderBc = orderBc.id := congrArg CycleEntry.orderBc he
  have hca : e.orderCa = orderCa.id := congrArg CycleEntry.orderCa he
  rw [cycleFills, if_neg (hab ▸ hne hoffers.firstAb (by simp [Triangle.pairs])),
    if_neg (hca ▸ hne hoffers.firstCa (by simp [Triangle.pairs])),
    if_neg (hbc ▸ hne hoffers.firstBc (by simp [Triangle.pairs]))]

end Ledger

theorem OrderBook.InStep.ledger_named {s : Progress} (hb : s.book.InStep ∅) : s.ledger.Named :=
  fun ho => hb.ids ho

/-- The first order of a pair is the best one, and found under its id. -/
theorem OrderBook.InStep.lookup_first {s : Progress} (hb : s.book.InStep ∅) {p : Pair} {o : Order}
    (h : s.ledger.first p = some o) :
    (s.book.queue p).head? = some o.id ∧ s.book.orders.lookup o.id = some o := by
  obtain ⟨id, hhead, hlookup⟩ := Option.bind_eq_some_iff.mp h
  obtain rfl := hb.ids hlookup
  exact ⟨hhead, hlookup⟩

/-- The first order of a pair is visible. -/
theorem OrderBook.InStep.sees_first {s : Progress} (hb : s.book.InStep ∅) {p : Pair} {o : Order}
    (h : s.ledger.first p = some o) : s.book.Sees p o.id o := by
  obtain ⟨hhead, hlookup⟩ := hb.lookup_first h
  exact hb.sees_iff.mpr ⟨List.mem_of_head? hhead, hlookup⟩

theorem simulateFullCycle_of_lookup {b : OrderBook} {x y z : OrderId} {oX oY oZ : Order}
    (hx : b.orders.lookup x = some oX) (hy : b.orders.lookup y = some oY)
    (hz : b.orders.lookup z = some oZ) :
    simulateFullCycle b x y z = simulateOrders b.feed oX oY oZ := by
  unfold simulateFullCycle
  rw [hx, hy, hz]

/-- **`try_build_entry` reads the ledger only.** -/
theorem tryBuildEntry_eq {s : Progress} (hb : s.book.InStep ∅) (t : Triangle) :
    (tryBuildEntry s.book t).1 = s.ledger.entryOf t := by
  have hbest : ∀ x y, s.book.bestOrder x y = (s.ledger.first (x, y), s.book) :=
    fun x y => hb.bestOrder x y
  unfold tryBuildEntry Ledger.entryOf
  rw [hbest t.a t.b]
  cases hab : s.ledger.first (t.a, t.b) with
  | none => rfl
  | some orderAb =>
    dsimp only [Option.bind_some]
    rw [hbest t.b t.c]
    cases hbc : s.ledger.first (t.b, t.c) with
    | none => rfl
    | some orderBc =>
      dsimp only [Option.bind_some]
      rw [hbest t.c t.a]
      cases hca : s.ledger.first (t.c, t.a) with
      | none => rfl
      | some orderCa =>
        dsimp only [Option.bind_some]
        split
        · rfl
        rw [simulateFullCycle_of_lookup (hb.lookup_first hab).2 (hb.lookup_first hbc).2
          (hb.lookup_first hca).2]
        show _ = (simulateOrders s.book.feed orderAb orderBc orderCa).bind _
        cases simulateOrders s.book.feed orderAb orderBc orderCa with
        | none => rfl
        | some sim =>
          dsimp only [Option.bind_some]
          split <;> rfl

/-! ## The greedy process -/

/-- What a cycle credits to the protocol. -/
def cycleCredits (t : Triangle) (f : FillResult) : List (TokenId × Nat) :=
  [(t.a, f.surplusA), (t.b, f.surplusB), (t.c, f.surplusC)]

/-- The entry is the present entry of a triangle in `R`, and none is worth more. -/
structure Ledger.Best (L : Ledger) (R : Triangle → Prop) (e : CycleEntry) : Prop where
  registered : R e.triangle
  entry : L.entryOf e.triangle = some e
  max : ∀ t e', R t → L.entryOf t = some e' → e'.surplusUsd ≤ e.surplusUsd

/-- **One greedy step**: of the triangles in `R`, one that is now worth most is executed. -/
inductive Greedy (R : Triangle → Prop) (L : Ledger) : Ledger → Prop
  | execute {e : CycleEntry} {orderAb orderBc orderCa : Order} {sim : CycleSimulation}
      (best : L.Best R e) (offers : L.Offers e.triangle orderAb orderBc orderCa sim) :
      Greedy R L (L.trade (cycleFills e sim.fills) (cycleCredits e.triangle sim.fills))

/-- A triangle as the enumeration makes them. -/
def Cyclic (t : Triangle) : Prop := ∃ x y z, z ≠ x ∧ z ≠ y ∧ t = Triangle.canonical x y z

/-- The triangles that are worth something when the phase begins. -/
def Registered (L : Ledger) (t : Triangle) : Prop := Cyclic t ∧ (L.entryOf t).isSome = true

theorem executed_ledger {s : Progress} {e : CycleEntry} {sim : CycleSimulation}
    (hb : s.book.InStep ∅) (hl : Legs s.book e) (hfront : Fronts s.book e)
    (h : Simulated s.book e sim) : (executed s e h).ledger =
      s.ledger.trade (cycleFills e sim.fills) (cycleCredits e.triangle sim.fills) := by
  refine (executed_trade hb hl hfront h).ledger hb ?_
  simp only [executed, afterCycle, cycleFilled, fillInPlace,
    OrderBook.cleanupIfFilled_protocolBalances, OrderBook.addProtocolBalance_protocolBalances,
    cycleCredits, List.foldl_cons, List.foldl_nil]

/-! ## What the enumeration registers -/

section Enumeration
variable {s₀ : Progress}

/-- **What the enumeration has collected**, on the ledger of the phase: of the triangles
seen, those that are worth something, each with its entry and under its pairs. -/
structure Collected (L : Ledger) (st : Enumerated) : Prop where
  seen : ∀ t ∈ st.seen, Cyclic t
  entries : ∀ e, e ∈ st.entries ↔ e.triangle ∈ st.seen ∧ L.entryOf e.triangle = some e
  byPair : ∀ p t, t ∈ (st.trianglesByPair.lookup p).getD [] ↔
    t ∈ st.seen ∧ (L.entryOf t).isSome = true ∧ p ∈ t.pairs

theorem Collected.record {L : Ledger} {st : Enumerated} (h : Collected L st) {t : Triangle}
    (ht : Cyclic t) (hnew : t ∉ st.seen) : Collected L (st.record t (L.entryOf t)) := by
  have hseen : ∀ t' ∈ insert t st.seen, Cyclic t' := by
    intro t' ht'
    rcases Finset.mem_insert.mp ht' with rfl | ht'
    · exact ht
    · exact h.seen t' ht'
  cases he : L.entryOf t with
  | none =>
    refine ⟨hseen, fun e => ?_, fun p t' => ?_⟩
    · refine (h.entries e).trans ⟨fun h => ⟨Finset.mem_insert_of_mem h.1, h.2⟩, fun h' => ?_⟩
      refine ⟨(Finset.mem_insert.mp h'.1).resolve_left fun heq => ?_, h'.2⟩
      rw [heq, he] at h'
      cases h'.2
    · refine (h.byPair p t').trans ⟨fun h => ⟨Finset.mem_insert_of_mem h.1, h.2⟩, fun h' => ?_⟩
      refine ⟨(Finset.mem_insert.mp h'.1).resolve_left fun heq => ?_, h'.2⟩
      rw [heq, he] at h'
      cases h'.2.1
  | some entry =>
    have htriangle := Ledger.entryOf_triangle he
    refine ⟨hseen, fun e => ?_, fun p t' => ?_⟩
    · show e ∈ st.entries ++ [entry] ↔ e.triangle ∈ insert t st.seen ∧ _
      rw [List.mem_append, List.mem_singleton, h.entries, Finset.mem_insert]
      constructor
      · rintro (⟨hmem, hentry⟩ | rfl)
        · exact ⟨Or.inr hmem, hentry⟩
        · exact ⟨Or.inl htriangle, htriangle ▸ he⟩
      · rintro ⟨heq | hmem, hentry⟩
        · rw [heq, he] at hentry
          exact Or.inr (Option.some.inj hentry).symm
        · exact Or.inl ⟨hmem, hentry⟩
    · show t' ∈ ((t.pairs.foldl (registerTriangle t) st.trianglesByPair).lookup p).getD [] ↔
        t' ∈ insert t st.seen ∧ _
      rw [mem_foldl_registerTriangle, h.byPair, Finset.mem_insert]
      constructor
      · rintro (⟨hmem, hentry, hp⟩ | ⟨rfl, hp⟩)
        · exact ⟨Or.inr hmem, hentry, hp⟩
        · exact ⟨Or.inl rfl, by rw [he]; rfl, hp⟩
      · rintro ⟨rfl | hmem, hentry, hp⟩
        · exact Or.inr ⟨rfl, hp⟩
        · exact Or.inl ⟨hmem, hentry, hp⟩

theorem enumerateTriangles_collected (hb : s₀.book.InStep ∅) (order : Enumeration) :
    Collected s₀.ledger (enumerateTriangles order s₀.book) := by
  refine (enumerateTriangles_induct (P := fun st => st.book = s₀.book ∧ Collected s₀.ledger st)
    order ⟨rfl, by simp, by simp, by simp⟩ ?_).2
  rintro st x y z ⟨hbook, hst⟩
  rw [visitTriangle_eq hb hbook, tryBuildEntry_eq hb]
  split
  · exact ⟨hbook, hst⟩
  · rename_i hne
    rw [not_or, not_or, not_or] at hne
    refine ⟨?_, hst.record ⟨x, y, z, hne.1, hne.2.1, rfl⟩ hne.2.2.2⟩
    rw [Enumerated.record_book, hbook]

/-- What one element of a list establishes and the others keep, a pass over the list
establishes. -/
theorem foldl_establishes {α β : Type*} {f : β → α → β} {P Q : β → Prop} {l : List α} {x : α}
    (hx : x ∈ l) (hP : ∀ st y, P st → P (f st y)) (hQ : ∀ st y, P st → Q st → Q (f st y))
    (hest : ∀ st, P st → Q (f st x)) {st : β} (hst : P st) : Q (l.foldl f st) := by
  obtain ⟨before, after, rfl⟩ := List.append_of_mem hx
  rw [List.foldl_append, List.foldl_cons]
  have hbefore : P (before.foldl f st) :=
    List.foldlRecOn _ _ hst fun st h y _ => hP st y h
  exact (List.foldlRecOn (motive := fun st => P st ∧ Q st) _ _
    ⟨hP _ x hbefore, hest _ hbefore⟩ fun st h y _ => ⟨hP st y h.1, hQ st y h.1 h.2⟩).2

/-- Three tokens whose pairs all have orders are visited. -/
theorem enumerateTriangles_visits (hb : s₀.book.InStep ∅) {order : Enumeration}
    {x y z : TokenId} (hmem : (x, y, z) ∈ order.triples) (hzx : z ≠ x) (hzy : z ≠ y)
    (horders : s₀.book.hasOrders z x = true) :
    Triangle.canonical x y z ∈ (enumerateTriangles order s₀.book).seen := by
  rw [enumerateTriangles_eq_foldl]
  refine foldl_establishes (P := fun st : Enumerated => st.book = s₀.book)
    (Q := fun st => Triangle.canonical x y z ∈ st.seen) hmem (fun st t hst => ?_)
    (fun st t hst hseen => ?_) (fun st hst => ?_) rfl
  · rw [visitTriangle_eq hb hst]
    split
    · exact hst
    · rw [Enumerated.record_book, hst]
  · rw [visitTriangle_eq hb hst]
    split
    · exact hseen
    · rw [Enumerated.record_seen]
      exact Finset.mem_insert_of_mem hseen
  · rw [visitTriangle_eq hb hst]
    split
    · rename_i hskip
      simpa [hzx, hzy, horders] using hskip
    · rw [Enumerated.record_seen]
      exact Finset.mem_insert_self ..

/-- The pair of a first order has orders, and its tokens are known. -/
theorem OrderBook.InStep.known_of_first (hb : s₀.book.InStep ∅) {x y : TokenId} {o : Order}
    (h : s₀.ledger.first (x, y) = some o) :
    s₀.book.hasOrders x y = true ∧ x ∈ s₀.book.tokens ∧ y ∈ s₀.book.tokens := by
  obtain ⟨hhead, hlookup⟩ := hb.lookup_first h
  have hmem := List.mem_of_head? hhead
  obtain ⟨rfl, rfl⟩ := Prod.mk.inj (hb.pair_eq hmem hlookup)
  exact ⟨hb.indexed.hasOrders_iff.mpr (List.ne_nil_of_mem hmem), hb.tokens hlookup⟩

/-- The three pairs of a triangle that is worth something have first orders, however the
triangle is rotated. -/
theorem Ledger.firsts_of_canonical {L : Ledger} {x y z : TokenId}
    (h : (L.entryOf (Triangle.canonical x y z)).isSome = true) :
    (∃ o, L.first (x, y) = some o) ∧ (∃ o, L.first (y, z) = some o) ∧
      ∃ o, L.first (z, x) = some o := by
  obtain ⟨e, he⟩ := Option.isSome_iff_exists.mp h
  obtain ⟨oAb, oBc, oCa, sim, hoffers, -⟩ := Ledger.offers_of_entryOf he
  have hab := hoffers.firstAb
  have hbc := hoffers.firstBc
  have hca := hoffers.firstCa
  unfold Triangle.canonical at hab hbc hca
  split at hab
  · rename_i h₁
    rw [if_pos h₁] at hbc hca
    exact ⟨⟨_, hab⟩, ⟨_, hbc⟩, _, hca⟩
  · rename_i h₁
    rw [if_neg h₁] at hbc hca
    split at hab
    · rename_i h₂
      rw [if_pos h₂] at hbc hca
      exact ⟨⟨_, hca⟩, ⟨_, hab⟩, _, hbc⟩
    · rename_i h₂
      rw [if_neg h₂] at hbc hca
      exact ⟨⟨_, hbc⟩, ⟨_, hca⟩, _, hab⟩

/-- Every path of two pairs with orders is visited. -/
theorem Enumeration.Of.mem_triples {order : Enumeration} (hof : order.Of s₀.book)
    (hb : s₀.book.InStep ∅) {x y z : TokenId} (hy : y ∈ s₀.book.tokens)
    (hxy : s₀.book.hasOrders x y = true) (hyz : s₀.book.hasOrders y z = true) :
    (x, y, z) ∈ order.triples := by
  rw [Enumeration.triples, List.mem_flatMap]
  refine ⟨y, by rwa [← List.mem_toFinset, hof.tokens.2], List.mem_flatMap.mpr ⟨x, ?_,
    List.mem_map.mpr ⟨z, ?_, rfl⟩⟩⟩
  · rw [← List.mem_toFinset, (hof.incoming y hy).2]
    exact hb.indexed.incoming.mpr (hb.indexed.hasOrders_iff.mp hxy)
  · rw [← List.mem_toFinset, (hof.outgoing y hy).2]
    exact hb.indexed.outgoing.mpr (hb.indexed.hasOrders_iff.mp hyz)

/-- **Every triangle that is worth something is seen.** -/
theorem seen_of_registered (hb : s₀.book.InStep ∅) {order : Enumeration}
    (hof : order.Of s₀.book) {t : Triangle} (ht : Registered s₀.ledger t) :
    t ∈ (enumerateTriangles order s₀.book).seen := by
  obtain ⟨⟨x, y, z, hzx, hzy, rfl⟩, hentry⟩ := ht
  obtain ⟨⟨o₁, h₁⟩, ⟨o₂, h₂⟩, o₃, h₃⟩ := Ledger.firsts_of_canonical hentry
  obtain ⟨hxy, -, hy⟩ := hb.known_of_first h₁
  obtain ⟨hyz, -⟩ := hb.known_of_first h₂
  obtain ⟨hzx', -⟩ := hb.known_of_first h₃
  exact enumerateTriangles_visits hb (hof.mem_triples hb hy hxy hyz) hzx hzy hzx'

/-- **Which triangles are revisited** after the execution of `t`: those worth something
when the phase began that share a pair with it. -/
theorem mem_affectedTriangles (hb : s₀.book.InStep ∅) {order : Enumeration}
    (hof : order.Of s₀.book) {t t' : Triangle} :
    t' ∈ affectedTriangles (enumerateTriangles order s₀.book).trianglesByPair t ↔
      Registered s₀.ledger t' ∧ ∃ p ∈ t.pairs, p ∈ t'.pairs := by
  have hcoll := enumerateTriangles_collected hb order
  rw [affectedTriangles, List.mem_toFinset, List.mem_flatMap]
  constructor
  · rintro ⟨p, hp, hmem⟩
    obtain ⟨hseen, hentry, hp'⟩ := (hcoll.byPair p t').mp hmem
    exact ⟨⟨hcoll.seen t' hseen, hentry⟩, p, hp, hp'⟩
  · rintro ⟨hreg, p, hp, hp'⟩
    exact ⟨p, hp, (hcoll.byPair p t').mpr ⟨seen_of_registered hb hof hreg, hreg.2, hp'⟩⟩

end Enumeration

/-! ## The heap -/

section Heap
variable {s₀ : Progress} {s : CycleState} {e : CycleEntry} {sim : CycleSimulation}

/-- An entry that was built and is worth something: its orders are not known to be
unprofitable. -/
structure Promising (L : Ledger) (e : CycleEntry) : Prop where
  worth : e.surplusUsd ≠ 0
  promising : ∀ {orderAb orderBc orderCa}, L.orders.lookup e.orderAb = some orderAb →
    L.orders.lookup e.orderBc = some orderBc → L.orders.lookup e.orderCa = some orderCa →
    knownUnprofitable orderAb orderBc orderCa = false

/-- A trade changes none of the terms of the orders an entry names. -/
theorem terms_of_trade {L : Ledger} {fills : OrderId → Nat} {credits : List (TokenId × Nat)}
    {orderAb orderBc orderCa : Order}
    (hab : (L.trade fills credits).orders.lookup e.orderAb = some orderAb)
    (hbc : (L.trade fills credits).orders.lookup e.orderBc = some orderBc)
    (hca : (L.trade fills credits).orders.lookup e.orderCa = some orderCa) :
    ∃ orderAb' orderBc' orderCa', L.orders.lookup e.orderAb = some orderAb' ∧
      L.orders.lookup e.orderBc = some orderBc' ∧ L.orders.lookup e.orderCa = some orderCa' ∧
      orderAb.toOrderTerms = orderAb'.toOrderTerms ∧
      orderBc.toOrderTerms = orderBc'.toOrderTerms ∧
      orderCa.toOrderTerms = orderCa'.toOrderTerms := by
  rw [Ledger.lookup_trade] at hab hbc hca
  obtain ⟨orderAb', hab', rfl⟩ := Option.map_eq_some_iff.mp hab
  obtain ⟨orderBc', hbc', rfl⟩ := Option.map_eq_some_iff.mp hbc
  obtain ⟨orderCa', hca', rfl⟩ := Option.map_eq_some_iff.mp hca
  exact ⟨orderAb', orderBc', orderCa', hab', hbc', hca', rfl, rfl, rfl⟩

/-- Being unprofitable is a matter of the terms. -/
theorem Promising.trade {L : Ledger} (h : Promising L e) (fills : OrderId → Nat)
    (credits : List (TokenId × Nat)) : Promising (L.trade fills credits) e := by
  refine ⟨h.worth, fun hab hbc hca => ?_⟩
  obtain ⟨oAb, oBc, oCa, hab', hbc', hca', habt, hbct, hcat⟩ := terms_of_trade hab hbc hca
  have hterms := h.promising hab' hbc' hca'
  unfold knownUnprofitable at hterms ⊢
  rwa [habt, hbct, hcat]

/-- An entry just built is promising. -/
theorem promising_of_entryOf {s : Progress} (hb : s.book.InStep ∅) {t : Triangle}
    (h : s.ledger.entryOf t = some e) : Promising s.ledger e := by
  obtain ⟨oAb, oBc, oCa, sim, hoffers, rfl⟩ := Ledger.offers_of_entryOf h
  refine ⟨hoffers.profitable, fun hab hbc hca => ?_⟩
  obtain rfl := Option.some.inj ((hb.lookup_first hoffers.firstAb).2.symm.trans hab)
  obtain rfl := Option.some.inj ((hb.lookup_first hoffers.firstBc).2.symm.trans hbc)
  obtain rfl := Option.some.inj ((hb.lookup_first hoffers.firstCa).2.symm.trans hca)
  exact hoffers.promising

/-- **An entry that is up to date is the present entry of its triangle.** -/
theorem entryOf_of_upToDate {s : Progress} (hb : s.book.InStep ∅) (hl : Legs s.book e)
    (hfront : Fronts s.book e) (hp : Promising s.ledger e) (h : Simulated s.book e sim)
    (hsim : simulateFullCycle s.book e.orderAb e.orderBc e.orderCa = some sim)
    (heq : sim.surplusUsd = e.surplusUsd) :
    s.ledger.Offers e.triangle h.orderAb h.orderBc h.orderCa sim ∧
      s.ledger.entryOf e.triangle = some e := by
  have hfirst : ∀ {id p o}, VisibleAs s.book id p → AtFront s.book id p →
      s.book.orders.lookup id = some o → o.isActive = true → s.ledger.first p = some o := by
    intro id p o hv hf ho hact
    obtain ⟨rfl, hhead⟩ := leg_head hb hv hf ho hact
    exact (congrArg (Option.bind · _) hhead).trans ho
  rw [simulateFullCycle_of_lookup h.lookupAb h.lookupBc h.lookupCa] at hsim
  have hoffers : s.ledger.Offers e.triangle h.orderAb h.orderBc h.orderCa sim :=
    ⟨hfirst hl.ab hfront.ab h.lookupAb h.activeAb, hfirst hl.bc hfront.bc h.lookupBc h.activeBc,
      hfirst hl.ca hfront.ca h.lookupCa h.activeCa,
      hp.promising h.lookupAb h.lookupBc h.lookupCa, hsim, heq ▸ hp.worth⟩
  refine ⟨hoffers, ?_⟩
  rw [hoffers.entryOf, hb.ids h.lookupAb, hb.ids h.lookupBc, hb.ids h.lookupCa, heq]

/-- The present entry of a triangle is up to date. -/
theorem upToDate_of_entryOf {s : Progress} (hb : s.book.InStep ∅) {t : Triangle}
    (h : s.ledger.entryOf t = some e) : UpToDate s.book e := by
  rw [← tryBuildEntry_eq hb] at h
  exact ((tryBuildEntry_built hb t).2 e h).current

/-- **The heap is never behind**: it holds the present entry of every registered
triangle, next to entries that are out of date. -/
structure HeapInv (L₀ : Ledger) (s : CycleState) : Prop where
  registered : ∀ e ∈ s.heap, Registered L₀ e.triangle
  promising : ∀ e ∈ s.heap, Promising s.ledger e
  complete : ∀ t e, Registered L₀ t → s.ledger.entryOf t = some e → e ∈ s.heap

theorem heapInv_start (hb : s₀.book.InStep ∅) {order : Enumeration} (hof : order.Of s₀.book) :
    HeapInv s₀.ledger (cycleStart order s₀) := by
  have hcoll := enumerateTriangles_collected hb order
  have hledger : (cycleStart order s₀).ledger = s₀.ledger := by
    rw [cycleStart, (enumerateTriangles_spec hb order).book]
  refine ⟨fun e he => ?_, fun e he => ?_, fun t e ht he => ?_⟩
  · obtain ⟨hseen, hentry⟩ := (hcoll.entries e).mp he
    exact ⟨hcoll.seen _ hseen, by rw [hentry]; rfl⟩
  · rw [hledger]
    exact promising_of_entryOf hb ((hcoll.entries e).mp he).2
  · rw [hledger] at he
    have htriangle := Ledger.entryOf_triangle he
    subst htriangle
    exact (hcoll.entries e).mpr ⟨seen_of_registered hb hof ht, he⟩

/-- An entry that is out of date may be exchanged for other entries of its triangle. -/
theorem HeapInv.exchange {L₀ : Ledger} (h : HeapInv L₀ s) (hb : s.book.InStep ∅)
    (he : e ∈ s.heap) (hstale : ¬ UpToDate s.book e) {new : List CycleEntry}
    (hnew : ∀ e' ∈ new, e'.triangle = e.triangle ∧ Promising s.ledger e') :
    HeapInv L₀ { s with heap := new ++ s.heap.erase e } := by
  refine ⟨fun e' he' => ?_, fun e' he' => ?_, fun t e' ht he' => ?_⟩
  · rcases List.mem_append.mp he' with he' | he'
    · rw [(hnew e' he').1]
      exact h.registered e he
    · exact h.registered e' (List.mem_of_mem_erase he')
  · rcases List.mem_append.mp he' with he' | he'
    · exact (hnew e' he').2
    · exact h.promising e' (List.mem_of_mem_erase he')
  · refine List.mem_append_right _ ((List.mem_erase_of_ne ?_).mpr (h.complete t e' ht he'))
    rintro rfl
    exact hstale (upToDate_of_entryOf hb he')

/-- **An execution keeps the heap up**: the triangles that share a pair are
re-evaluated, and the others have the entries they had. -/
theorem HeapInv.after_execution {L₀ : Ledger} (h : HeapInv L₀ s) (hb : s.book.InStep ∅)
    (he : e ∈ s.heap) (hl : Legs s.book e) (hfront : Fronts s.book e)
    (hsim : Simulated s.book e sim) (hentry : s.ledger.entryOf e.triangle = some e)
    {affected : List Triangle}
    (haff : ∀ t, t ∈ affected ↔ Registered L₀ t ∧ ∃ p ∈ e.triangle.pairs, p ∈ t.pairs) :
    HeapInv L₀ { executed s.toProgress e hsim with
      heap := (affected.reverse.filterMap fun t =>
        (tryBuildEntry (executed s.toProgress e hsim).book t).1) ++
          s.heap.erase e } := by
  have hb' : (executed s.toProgress e hsim).book.InStep ∅ := hl.afterCycle_inStep hb hsim
  have hledger := executed_ledger hb hl hfront hsim
  have hpushed : ∀ e', e' ∈ (affected.reverse.filterMap fun t =>
      (tryBuildEntry (executed s.toProgress e hsim).book t).1) ↔
      ∃ t ∈ affected, (executed s.toProgress e hsim).ledger.entryOf t = some e' := by
    intro e'
    simp only [List.mem_filterMap, List.mem_reverse, tryBuildEntry_eq hb']
  refine ⟨fun e' he' => ?_, fun e' he' => ?_, fun t e' ht he' => ?_⟩
  · rcases List.mem_append.mp he' with he' | he'
    · obtain ⟨t, ht, hentry⟩ := (hpushed e').mp he'
      rw [Ledger.entryOf_triangle hentry]
      exact ((haff t).mp ht).1
    · exact h.registered e' (List.mem_of_mem_erase he')
  · rcases List.mem_append.mp he' with he' | he'
    · obtain ⟨t, -, hentry⟩ := (hpushed e').mp he'
      exact promising_of_entryOf hb' hentry
    · show Promising (executed s.toProgress e hsim).ledger e'
      rw [hledger]
      exact (h.promising e' (List.mem_of_mem_erase he')).trade _ _
  · by_cases hshare : ∃ p ∈ e.triangle.pairs, p ∈ t.pairs
    · exact List.mem_append_left _ ((hpushed e').mpr ⟨t, (haff t).mpr ⟨ht, hshare⟩, he'⟩)
    · -- no pair in common: the entry is the one it was
      have hsame : (executed s.toProgress e hsim).ledger.entryOf t = s.ledger.entryOf t := by
        rw [hledger]
        refine hb.ledger_sound.entryOf_trade (fun p hp id hid => ?_) _
        exact hb.ledger_sound.cycleFills_eq_zero hb.ledger_named hentry
          (fun hp' => hshare ⟨p, hp', hp⟩) hid _
      have hentry' : s.ledger.entryOf t = some e' := hsame ▸ he'
      refine List.mem_append_right _ ((List.mem_erase_of_ne ?_).mpr (h.complete t e' ht hentry'))
      rintro rfl
      rw [← Ledger.entryOf_triangle hentry'] at hshare
      exact hshare ⟨_, List.mem_cons_self .., List.mem_cons_self ..⟩

/-- **The loop is greedy**, and its heap is never behind. -/
theorem CycleReaches.greedy (hb : s₀.book.InStep ∅) (h : CycleReaches s₀ s) :
    ReflTransGen (Greedy (Registered s₀.ledger)) s₀.ledger s.ledger ∧ HeapInv s₀.ledger s := by
  obtain ⟨order, hof, hrun⟩ := h
  induction hrun with
  | refl =>
    have hledger : (cycleStart order s₀).ledger = s₀.ledger := by
      rw [cycleStart, (enumerateTriangles_spec hb order).book]
    exact ⟨hledger ▸ .refl, heapInv_start hb hof⟩
  | @tail s s' hreach hstep ih =>
    obtain ⟨hgreedy, hheap⟩ := ih
    have hreach' : CycleReaches s₀ s := ⟨order, hof, hreach⟩
    have hinv := cycleInv_of_reaches hb hreach'
    cases hstep with
    | @pop e affected hpop _ hall =>
      have hl := hinv.legs e hpop.1
      have hfront := hreach'.fronts hb e hpop.1
      rcases processEntry_cases hinv.inStep hl affected with
        ⟨hsim, hround⟩ | ⟨sim, hsim, hne, hround⟩ | ⟨sim, hsimd, hsim, heq, hround⟩
      all_goals rw [hround]
      · refine ⟨hgreedy, hheap.exchange hinv.inStep hpop.1 ?_ fun e' he' => ?_⟩
        · rintro ⟨sim, hsim', -⟩
          rw [hsim] at hsim'
          cases hsim'
        · rw [Option.mem_toList, tryBuildEntry_eq hinv.inStep] at he'
          exact ⟨Ledger.entryOf_triangle he', promising_of_entryOf hinv.inStep he'⟩
      · refine ⟨hgreedy, hheap.exchange hinv.inStep hpop.1 ?_ fun e' he' => ?_⟩
        · rintro ⟨sim', hsim', heq'⟩
          rw [hsim] at hsim'
          cases hsim'
          exact hne heq'
        · split at he'
          · rename_i hpos
            obtain rfl := List.mem_singleton.mp he'
            exact ⟨rfl, Nat.ne_of_gt hpos, (hheap.promising e hpop.1).promising⟩
          · cases he'
      · obtain ⟨hoffers, hentry⟩ := entryOf_of_upToDate hinv.inStep hl hfront
          (hheap.promising e hpop.1) hsimd hsim heq
        refine ⟨hgreedy.tail ?_,
          hheap.after_execution hinv.inStep hpop.1 hl hfront hsimd hentry fun t => ?_⟩
        · show Greedy _ _ (executed s.toProgress e hsimd).ledger
          rw [executed_ledger hinv.inStep hl hfront hsimd]
          exact .execute ⟨hheap.registered e hpop.1, hentry, fun t e' ht he' =>
            hpop.2 e' (hheap.complete t e' ht he')⟩ hoffers
        · rw [← List.mem_toFinset, hall, mem_affectedTriangles hb hof]

/-- **When the loop ends, no registered triangle is worth anything.** -/
theorem CycleReaches.exhausted (hb : s₀.book.InStep ∅) (h : CycleReaches s₀ s)
    (hdone : s.heap = []) {t : Triangle} (ht : Registered s₀.ledger t) :
    s.ledger.entryOf t = none := by
  refine Option.eq_none_iff_forall_not_mem.mpr fun e he => ?_
  have hmem := (h.greedy hb).2.complete t e ht he
  rw [hdone] at hmem
  cases hmem

/-- **An executed entry is the present entry of its triangle, and none is worth more.** -/
theorem CycleReaches.executes_best (hb : s₀.book.InStep ∅) (h : CycleReaches s₀ s)
    (hexec : Executes s e sim) :
    s.ledger.Best (Registered s₀.ledger) e ∧
      ∃ orderAb orderBc orderCa, s.ledger.Offers e.triangle orderAb orderBc orderCa sim := by
  have hinv := cycleInv_of_reaches hb h
  have hheap := (h.greedy hb).2
  have hmem := hexec.poppable.1
  obtain ⟨hsim⟩ := simulateFullCycle_some hexec.simulated
  obtain ⟨hoffers, hentry⟩ := entryOf_of_upToDate hinv.inStep (hinv.legs e hmem)
    (h.fronts hb e hmem) (hheap.promising e hmem) hsim hexec.simulated hexec.current
  refine ⟨⟨hheap.registered e hmem, hentry, ?_⟩, _, _, _, hoffers⟩
  intro t e' ht he'
  exact hexec.poppable.2 e' (hheap.complete t e' ht he')

/-- A step of the loop pops this entry. -/
def Pops (s : CycleState) (e : CycleEntry) (s' : CycleState) : Prop :=
  ∃ affected, s' = processEntry affected s e

/-- What the loop does with an entry that it executes. -/
theorem CycleReaches.executes_eq (hb : s₀.book.InStep ∅) (h : CycleReaches s₀ s)
    (hexec : Executes s e sim) (affected : List Triangle) :
    ∃ hsim : Simulated s.book e sim,
      (processEntry affected s e).toProgress = executed s.toProgress e hsim := by
  have hinv := cycleInv_of_reaches hb h
  rcases processEntry_cases hinv.inStep (hinv.legs e hexec.poppable.1) affected with
    ⟨hsim, -⟩ | ⟨sim', hsim, hne, -⟩ | ⟨sim', hsimd, hsim, -, hround⟩
  · cases hsim.symm.trans hexec.simulated
  · obtain rfl := Option.some.inj (hsim.symm.trans hexec.simulated)
    exact absurd hexec.current hne
  · obtain rfl := Option.some.inj (hsim.symm.trans hexec.simulated)
    exact ⟨hsimd, congrArg CycleState.toProgress hround⟩

/-- **An execution is a trade on the ledger.** -/
theorem CycleReaches.executes_ledger (hb : s₀.book.InStep ∅) (h : CycleReaches s₀ s)
    (hexec : Executes s e sim) (affected : List Triangle) :
    (processEntry affected s e).ledger =
      s.ledger.trade (cycleFills e sim.fills) (cycleCredits e.triangle sim.fills) := by
  have hinv := cycleInv_of_reaches hb h
  have hmem := hexec.poppable.1
  obtain ⟨hsim, heq⟩ := h.executes_eq hb hexec affected
  rw [heq]
  exact executed_ledger hinv.inStep (hinv.legs e hmem) (h.fronts hb e hmem) hsim

/-- **What a step of the loop does to the ledger**: nothing, or the popped entry is executed. -/
theorem CycleReaches.step_ledger (hb : s₀.book.InStep ∅) (h : CycleReaches s₀ s)
    {byPair : FiniteMap Pair (List Triangle)} {s' : CycleState} (hstep : CycleStep byPair s s') :
    s'.ledger = s.ledger ∨ ∃ e sim orderAb orderBc orderCa, Pops s e s' ∧ Executes s e sim ∧
      s.ledger.Best (Registered s₀.ledger) e ∧
      s.ledger.Offers e.triangle orderAb orderBc orderCa sim ∧
      s'.ledger = s.ledger.trade (cycleFills e sim.fills) (cycleCredits e.triangle sim.fills) := by
  have hinv := cycleInv_of_reaches hb h
  cases hstep with
  | @pop e affected hpop _ _ =>
    have hl := hinv.legs e hpop.1
    rcases processEntry_cases hinv.inStep hl affected with
      ⟨-, hround⟩ | ⟨_, -, -, hround⟩ | ⟨sim, -, hsim, heq, -⟩
    · exact Or.inl (by rw [hround])
    · exact Or.inl (by rw [hround])
    · have hexec : Executes s e sim := ⟨hpop, hsim, heq⟩
      obtain ⟨hbest, orderAb, orderBc, orderCa, hoffers⟩ := h.executes_best hb hexec
      exact Or.inr ⟨e, sim, orderAb, orderBc, orderCa, ⟨_, rfl⟩, hexec, hbest, hoffers,
        h.executes_ledger hb hexec affected⟩

/-- The states the loop reaches by steps that meet a guard. -/
def CycleReachesBy (guard : CycleState → CycleState → Prop) (s₀ : Progress) (s : CycleState) :
    Prop :=
  ∃ order : Enumeration, order.Of s₀.book ∧
    ReflTransGen (fun x y =>
        CycleStep (enumerateTriangles order s₀.book).trianglesByPair x y ∧ guard x y)
      (cycleStart order s₀) s

theorem CycleReachesBy.reaches {guard : CycleState → CycleState → Prop}
    (h : CycleReachesBy guard s₀ s) : CycleReaches s₀ s := by
  obtain ⟨order, hof, hrun⟩ := h
  exact ⟨order, hof, hrun.lift id fun _ _ hstep => hstep.1⟩

theorem CycleReaches.unguarded (h : CycleReaches s₀ s) :
    CycleReachesBy (fun _ _ => True) s₀ s := by
  obtain ⟨order, hof, hrun⟩ := h
  exact ⟨order, hof, hrun.lift id fun _ _ hstep => ⟨hstep, trivial⟩⟩

/-- **Induction over a guarded run of the loop**, on what it does to the ledger. -/
theorem CycleReachesBy.induct {guard : CycleState → CycleState → Prop} (hb : s₀.book.InStep ∅)
    (h : CycleReachesBy guard s₀ s) {P : Ledger → Prop} (start : P s₀.ledger)
    (executes : ∀ {s s' e sim orderAb orderBc orderCa}, CycleReaches s₀ s → P s.ledger →
      guard s s' → Pops s e s' → Executes s e sim → s.ledger.Best (Registered s₀.ledger) e →
      s.ledger.Offers e.triangle orderAb orderBc orderCa sim →
      s'.ledger = s.ledger.trade (cycleFills e sim.fills) (cycleCredits e.triangle sim.fills) →
      P s'.ledger) : P s.ledger := by
  obtain ⟨order, hof, hrun⟩ := h
  induction hrun with
  | refl =>
    have hledger : (cycleStart order s₀).ledger = s₀.ledger := by
      rw [cycleStart, (enumerateTriangles_spec hb order).book]
    exact hledger ▸ start
  | @tail s s' hreach hstep ih =>
    have hreach' : CycleReaches s₀ s :=
      (show CycleReachesBy guard s₀ s from ⟨order, hof, hreach⟩).reaches
    rcases hreach'.step_ledger hb hstep.1 with
      hsame | ⟨e, sim, orderAb, orderBc, orderCa, hpops, hexec, hbest, hoffers, hledger⟩
    · exact hsame ▸ ih
    · exact executes hreach' ih hstep.2 hpops hexec hbest hoffers hledger

end Heap

/-- **The most valuable known cycle is executed.**  Wherever the loop calls `execute_cycle`, the
surplus of the entry is the one the current best orders of its triangle yield, and no triangle
registered under any pair would now be given an entry with a larger one. -/
theorem executed_cycle_most_valuable {s₀ : Progress} (hb : s₀.book.Reachable)
    {order : Enumeration} (hof : order.Of s₀.book) {s : CycleState}
    (hrun : ReflTransGen (CycleStep (enumerateTriangles order s₀.book).trianglesByPair)
      (cycleStart order s₀) s)
    {entry : CycleEntry} {sim : CycleSimulation} (hexec : Executes s entry sim) :
    (∃ orderAb orderBc orderCa,
      (s.book.bestOrder entry.triangle.a entry.triangle.b).1 = some orderAb ∧
      (s.book.bestOrder entry.triangle.b entry.triangle.c).1 = some orderBc ∧
      (s.book.bestOrder entry.triangle.c entry.triangle.a).1 = some orderCa ∧
      ∃ current, simulateFullCycle s.book orderAb.id orderBc.id orderCa.id = some current ∧
        entry.surplusUsd = current.surplusUsd) ∧
    (tryBuildEntry s.book entry.triangle).1 = some entry ∧
    ∀ p, ∀ t ∈ ((enumerateTriangles order s₀.book).trianglesByPair.lookup p).getD [],
      ∀ e, (tryBuildEntry s.book t).1 = some e → e.surplusUsd ≤ entry.surplusUsd := by
  have hstart := hb.inv.inStep
  have hreach : CycleReaches s₀ s := ⟨order, hof, hrun⟩
  have hstep : s.book.InStep ∅ := (cycleInv_of_reaches hstart hreach).inStep
  have hbest : ∀ x y, (s.book.bestOrder x y).1 = s.ledger.first (x, y) :=
    fun x y => congrArg Prod.fst (hstep.bestOrder x y)
  obtain ⟨hmax, orderAb, orderBc, orderCa, hoffers⟩ := hreach.executes_best hstart hexec
  refine ⟨⟨orderAb, orderBc, orderCa, ?_, ?_, ?_, sim, ?_, hexec.current.symm⟩, ?_, ?_⟩
  · rw [hbest, hoffers.firstAb]
  · rw [hbest, hoffers.firstBc]
  · rw [hbest, hoffers.firstCa]
  · rw [simulateFullCycle_of_lookup (hstep.lookup_first hoffers.firstAb).2
      (hstep.lookup_first hoffers.firstBc).2 (hstep.lookup_first hoffers.firstCa).2]
    exact hoffers.simulated
  · rw [tryBuildEntry_eq hstep]
    exact hmax.entry
  · intro p t ht e he
    rw [tryBuildEntry_eq hstep] at he
    -- what is registered under a pair was worth something when the phase began
    obtain ⟨hseen, hworth, -⟩ := ((enumerateTriangles_collected hstart order).byPair p t).mp ht
    exact hmax.max t e ⟨(enumerateTriangles_collected hstart order).seen t hseen, hworth⟩ he

/-! ### Two triangles of different value

The orders of `closedLoopBook` go round tokens 1, 2, 3 for a surplus of 30.  Orders 4 and 5 of
`forkBook` close another loop with order 1, round tokens 1, 2, 4, for a surplus of 40. -/

def forkBook : OrderBook :=
  (closedLoopBook.addUserOrder 4 (swapTerms 2 4 120 100)).addUserOrder 5 (swapTerms 4 1 110 100)

theorem forkBook_reachable : forkBook.Reachable :=
  ((triangleBook_reachable _ _ _).addUserOrder _ _).addUserOrder _ _

/-- The hash sets of a book with the triangles 1, 2, 3 and 1, 2, 4, with the tokens before token 1
in the order given, which is the order in which the two are found. -/
def forkEnumeration (before : List TokenId) : Enumeration where
  tokens := [1, 2, 3, 4]
  incoming := fun t => if t = 1 then before else if t = 2 then [1] else [2]
  outgoing := fun t => if t = 1 then [2] else if t = 2 then [3, 4] else [1]

def forkState : CycleState := cycleStart (forkEnumeration [3, 4]) (runStart forkBook)

def forkEntry : CycleEntry := ⟨⟨1, 2, 4⟩, 1, 4, 5, 40⟩

def forkSimulation : CycleSimulation := ⟨⟨100, 100, 100, 10, 20, 10⟩, 40⟩

theorem fork_executes : Executes forkState forkEntry forkSimulation where
  poppable := by
    refine ⟨by decide +kernel, fun e he => ?_⟩
    have hall : ∀ e ∈ forkState.heap, e.surplusUsd ≤ forkEntry.surplusUsd := by decide +kernel
    exact hall e he
  simulated := by decide +kernel
  current := rfl

/-- Both triangles are registered under pair (1, 2); the one executed is worth 40, and the other
30. -/
theorem fork_most_valuable :
    Executes forkState forkEntry forkSimulation ∧
    (tryBuildEntry forkState.book ⟨1, 2, 4⟩).1 = some forkEntry ∧
    (tryBuildEntry forkState.book ⟨1, 2, 3⟩).1 = some closedLoopEntry ∧
    closedLoopEntry.surplusUsd ≤ forkEntry.surplusUsd := by
  have hb : (runStart forkBook).book.Reachable := forkBook_reachable
  have hof : (forkEnumeration [3, 4]).Of forkBook := ⟨by decide, by decide, by decide⟩
  obtain ⟨-, hentry, hmax⟩ := executed_cycle_most_valuable hb hof .refl fork_executes
  have hother : (tryBuildEntry forkState.book ⟨1, 2, 3⟩).1 = some closedLoopEntry := by
    decide +kernel
  have hregistered : ⟨1, 2, 3⟩ ∈ ((enumerateTriangles (forkEnumeration [3, 4])
      (runStart forkBook).book).trianglesByPair.lookup (1, 2)).getD [] := by decide +kernel
  exact ⟨fork_executes, hentry, hother, hmax (1, 2) ⟨1, 2, 3⟩ hregistered _ hother⟩

end PswapSolver
