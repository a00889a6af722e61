import PswapSolver.Greedy

/-! # Is the outcome of a run determined?

The tests ask for identical results when the same book is matched twice.  Direct
matching keeps this promise whatever the hash sets do (`runDirectMatching_ledger`).
Triangular matching keeps it as long as it never has to choose.  It takes the triangle that is
worth most, so two runs can part only where two triangles are tied; and then only if the two
compete.  Triangles that share no pair, not even through others, go each their own way, and it
does not matter which of them is taken first.

So it is enough that one of the two runs meets no tie between triangles of one group
(`CycleState.Undisputed`): then every step of it is forced, and the other run, which may meet
other states in between, takes the same steps in another order (`Rewriting.eq_of_forced`).  At a
tie within a group the order of the heap decides, which is the order in which the hash sets list
the triangles, and if the two share an order, the first takes it from the second.
-/
namespace PswapSolver
open Relation

/-! ## Groups of triangles -/

section Groups
variable {R : Triangle → Prop} {t t' : Triangle}

/-- Two triangles in `R` that have a pair in common. -/
def Neighbours (R : Triangle → Prop) (t t' : Triangle) : Prop :=
  R t ∧ R t' ∧ ∃ p ∈ t.pairs, p ∈ t'.pairs

/-- **Two triangles of one group**: a chain of neighbours leads from one to the other. -/
def Linked (R : Triangle → Prop) : Triangle → Triangle → Prop := ReflTransGen (Neighbours R)

instance : Std.Symm (Neighbours R) where
  symm _ _ := fun ⟨ht, ht', p, hp, hp'⟩ => ⟨ht', ht, p, hp', hp⟩

theorem Linked.symm (h : Linked R t t') : Linked R t' t :=
  ReflTransGen.stdSymm.symm _ _ h

/-- Triangles of different groups have no pair in common. -/
theorem notMem_pairs_of_not_linked (ht : R t) (ht' : R t') (hno : ¬ Linked R t t') {p : Pair}
    (hp : p ∈ t'.pairs) : p ∉ t.pairs :=
  fun hpt => hno (.single ⟨ht, ht', p, hpt, hp⟩)

end Groups

/-! ## One group at a time -/

namespace Ledger
variable {L : Ledger} {R : Triangle → Prop} {e e' : CycleEntry}

/-- The entry is the present entry of its triangle, and none of its group is worth more. -/
def Leads (L : Ledger) (R : Triangle → Prop) (e : CycleEntry) : Prop :=
  L.Best (fun t => R t ∧ Linked R e.triangle t) e

theorem Best.leads (h : L.Best R e) : L.Leads R e :=
  ⟨⟨h.registered, .refl⟩, h.entry, fun t e' ht he' => h.max t e' ht.1 he'⟩

/-- A cycle of another group fills no order of the triangle. -/
theorem Leads.no_fill (h : L.Leads R e) (hs : L.Sound) (hn : L.Named) {t : Triangle} (ht : R t)
    (hno : ¬ Linked R e.triangle t) (f : FillResult) :
    ∀ p ∈ t.pairs, ∀ id ∈ L.queue p, cycleFills e f id = 0 := by
  intro p hp id hid
  exact hs.cycleFills_eq_zero hn h.entry
    (notMem_pairs_of_not_linked h.registered.1 ht hno hp) hid f

/-- **A cycle of another group does not change who leads.** -/
theorem leads_trade_iff (h : L.Leads R e) (hs : L.Sound) (hn : L.Named)
    (hno : ¬ Linked R e.triangle e'.triangle) (f : FillResult) (credits : List (TokenId × Nat)) :
    (L.trade (cycleFills e f) credits).Leads R e' ↔ L.Leads R e' := by
  have hkeep : ∀ t, R t → Linked R e'.triangle t →
      (L.trade (cycleFills e f) credits).entryOf t = L.entryOf t := by
    intro t ht hlinked
    have hno' : ¬ Linked R e.triangle t := fun hlinked' => hno (hlinked'.trans hlinked.symm)
    exact hs.entryOf_trade (h.no_fill hs hn ht hno' f) credits
  constructor
  · rintro ⟨⟨hreg, hrefl⟩, hentry, hmax⟩
    exact ⟨⟨hreg, hrefl⟩, (hkeep _ hreg hrefl).symm.trans hentry,
      fun t x ht hx => hmax t x ht ((hkeep t ht.1 ht.2).trans hx)⟩
  · rintro ⟨⟨hreg, hrefl⟩, hentry, hmax⟩
    exact ⟨⟨hreg, hrefl⟩, (hkeep _ hreg hrefl).trans hentry,
      fun t x ht hx => hmax t x ht ((hkeep t ht.1 ht.2).symm.trans hx)⟩

end Ledger

/-- **A cycle that leads its group is executed.** -/
inductive GroupStep (R : Triangle → Prop) (L : Ledger) : Ledger → Prop
  | execute {e : CycleEntry} {orderAb orderBc orderCa : Order} {sim : CycleSimulation}
      (sound : L.Sound) (named : L.Named) (leads : L.Leads R e)
      (offers : L.Offers e.triangle orderAb orderBc orderCa sim) :
      GroupStep R L (L.trade (cycleFills e sim.fills) (cycleCredits e.triangle sim.fills))

/-- It is the only one of its group that leads. -/
inductive ForcedStep (R : Triangle → Prop) (L : Ledger) : Ledger → Prop
  | execute {e : CycleEntry} {orderAb orderBc orderCa : Order} {sim : CycleSimulation}
      (leads : L.Leads R e) (offers : L.Offers e.triangle orderAb orderBc orderCa sim)
      (alone : ∀ e', L.Leads R e' → Linked R e.triangle e'.triangle → e' = e) :
      ForcedStep R L (L.trade (cycleFills e sim.fills) (cycleCredits e.triangle sim.fills))

section Steps
variable {R : Triangle → Prop} {L L₁ L₂ : Ledger}

/-- What a triangle offers is determined by the ledger. -/
theorem Ledger.Offers.unique {t : Triangle} {orderAb orderBc orderCa : Order}
    {orderAb' orderBc' orderCa' : Order} {sim sim' : CycleSimulation}
    (h : L.Offers t orderAb orderBc orderCa sim) (h' : L.Offers t orderAb' orderBc' orderCa' sim') :
    sim' = sim := by
  obtain rfl := Option.some.inj (h.firstAb.symm.trans h'.firstAb)
  obtain rfl := Option.some.inj (h.firstBc.symm.trans h'.firstBc)
  obtain rfl := Option.some.inj (h.firstCa.symm.trans h'.firstCa)
  exact Option.some.inj (h'.simulated.symm.trans h.simulated)

/-- **A forced step stays forced** after any other step, and commutes with it. -/
theorem ForcedStep.commutes (h₁ : ForcedStep R L L₁) (h₂ : GroupStep R L L₂) :
    L₂ = L₁ ∨ ∃ L', GroupStep R L₁ L' ∧ ForcedStep R L₂ L' := by
  obtain @⟨e, _, _, _, sim, hleads, hoffers, halone⟩ := h₁
  obtain @⟨e', _, _, _, sim', hs, hn, hleads', hoffers'⟩ := h₂
  by_cases hlinked : Linked R e.triangle e'.triangle
  · -- of one group: it is the same step
    obtain rfl := halone e' hleads' hlinked
    obtain rfl := hoffers.unique hoffers'
    exact Or.inl rfl
  · have hlinked' : ¬ Linked R e'.triangle e.triangle := fun h => hlinked h.symm
    refine Or.inr ⟨_, .execute (hs.trade _ _) (hn.trade _ _)
      ((Ledger.leads_trade_iff hleads hs hn hlinked _ _).mpr hleads')
      (hoffers'.trade hs (hleads.no_fill hs hn hleads'.registered.1 hlinked _) _), ?_⟩
    rw [Ledger.trade_comm]
    refine .execute ((Ledger.leads_trade_iff hleads' hs hn hlinked' _ _).mpr hleads)
      (hoffers.trade hs (hleads'.no_fill hs hn hleads.registered.1 hlinked' _) _)
      fun x hx hxe => halone x ?_ hxe
    have hxe' : ¬ Linked R e'.triangle x.triangle := fun h => hlinked (hxe.trans h.symm)
    exact (Ledger.leads_trade_iff hleads' hs hn hxe' _ _).mp hx

/-- Where no registered triangle is worth anything, nothing leads. -/
theorem not_leads_of_exhausted (h : ∀ t, R t → L.entryOf t = none) (e : CycleEntry) :
    ¬ L.Leads R e := by
  intro hleads
  have hentry := hleads.entry
  rw [h _ hleads.registered.1] at hentry
  cases hentry

end Steps

/-! ## Undisputed runs -/

/-- **No dispute**: of the entries on top of the heap that are up to date, no two are of one
group. -/
def CycleState.Undisputed (R : Triangle → Prop) (s : CycleState) : Prop :=
  ∀ e e', Poppable s e → Poppable s e' → UpToDate s.book e → UpToDate s.book e' →
    Linked R e.triangle e'.triangle → e' = e

/-- The triangles that triangular matching knows are those that are worth something when it
starts; there is no dispute about them before any of its pops. -/
def UndisputedReaches (s₀ : Progress) (s : CycleState) : Prop :=
  CycleReachesBy (fun x _ => x.Undisputed (Registered s₀.ledger)) s₀ s

section Phase
variable {s₀ : Progress} {s : CycleState}

/-- Every run of triangular matching goes from group to group. -/
theorem CycleReaches.groupSteps (hb : s₀.book.InStep ∅) (h : CycleReaches s₀ s) :
    ReflTransGen (GroupStep (Registered s₀.ledger)) s₀.ledger s.ledger := by
  refine h.unguarded.induct hb (P := ReflTransGen (GroupStep (Registered s₀.ledger)) s₀.ledger)
    .refl ?_
  intro s s' e sim _ _ _ hreach ih _ _ _ hbest hoffers hledger
  have hstep := (cycleInv_of_reaches hb hreach).inStep
  rw [hledger]
  exact ih.tail (.execute hstep.ledger_sound hstep.ledger_named hbest.leads hoffers)

/-- An undisputed run takes forced steps only. -/
theorem UndisputedReaches.forcedSteps (hb : s₀.book.InStep ∅) (h : UndisputedReaches s₀ s) :
    ReflTransGen (ForcedStep (Registered s₀.ledger)) s₀.ledger s.ledger := by
  refine CycleReachesBy.induct hb h
    (P := ReflTransGen (ForcedStep (Registered s₀.ledger)) s₀.ledger) .refl ?_
  intro s s' e sim _ _ _ hreach ih hundisputed _ hexec hbest hoffers hledger
  have hstep := (cycleInv_of_reaches hb hreach).inStep
  rw [hledger]
  refine ih.tail (.execute hbest.leads hoffers fun e' hleads hlinked => ?_)
  -- the other leader of the group is worth as much, so it is on top of the heap, too
  have hworth : e.surplusUsd ≤ e'.surplusUsd :=
    hleads.max _ e ⟨hbest.registered, hlinked.symm⟩ hbest.entry
  have htop : Poppable s e' := ⟨(hreach.greedy hb).2.complete _ e' hleads.registered.1 hleads.entry,
    fun x hx => (hexec.poppable.2 x hx).trans hworth⟩
  exact hundisputed e e' hexec.poppable htop (upToDate_of_entryOf hstep hbest.entry)
    (upToDate_of_entryOf hstep hleads.entry) hlinked

/-- **An undisputed run of triangular matching has the outcome of every other.** -/
theorem UndisputedReaches.ledger_eq {s₀' : Progress} {s' : CycleState} (hb : s₀.book.InStep ∅)
    (hb' : s₀'.book.InStep ∅) (hstart : s₀'.ledger = s₀.ledger) (h : UndisputedReaches s₀ s)
    (hdone : s.heap = []) (h' : CycleReaches s₀' s') (hdone' : s'.heap = []) :
    s'.ledger = s.ledger := by
  have hsteps := h'.groupSteps hb'
  rw [hstart] at hsteps
  refine Rewriting.eq_of_forced (fun _ _ _ => ForcedStep.commutes) (h.forcedSteps hb) hsteps ?_ ?_
  · rintro L ⟨-, -, hleads, -⟩
    exact not_leads_of_exhausted (fun t ht => h.reaches.exhausted hb hdone ht) _ hleads
  · rintro L ⟨hleads, -, -⟩
    exact not_leads_of_exhausted (fun t ht => h'.exhausted hb' hdone' (hstart ▸ ht)) _ hleads

end Phase

/-- **A run of the engine without disputes.**  Direct matching has none. -/
inductive UndisputedRun (b : OrderBook) : Bool → Progress → Prop
  | direct {pairs : List Pair} (pairs_of : MatchablePairs b pairs) :
      UndisputedRun b false (runDirectMatching pairs (runStart b))
  | triangular {pairs : List Pair} {s : CycleState} (pairs_of : MatchablePairs b pairs)
      (reaches : UndisputedReaches (runDirectMatching pairs (runStart b)) s) (done : s.heap = []) :
      UndisputedRun b true s.toProgress

theorem UndisputedRun.run {b : OrderBook} {triangular : Bool} {p : Progress}
    (h : UndisputedRun b triangular p) : EngineRun b triangular p := by
  cases h with
  | direct hpairs => exact .direct hpairs
  | triangular hpairs hreach hdone => exact .triangular hpairs hreach.reaches hdone

/-- **The outcome of a run is determined** by the book, for any two choices of the hash
iteration orders and of the pops among equals, if one of the two runs meets no dispute. -/
theorem engine_outcome_determined {b : OrderBook} (hb : b.Reachable) {triangular : Bool}
    {p p' : Progress} (h : UndisputedRun b triangular p) (h' : EngineRun b triangular p') :
    p'.filledOrders = p.filledOrders ∧
    (∀ id, (p'.book.orders.lookup id).map Order.requestedRemaining =
      (p.book.orders.lookup id).map Order.requestedRemaining) ∧
    p'.book.protocolBalances = p.book.protocolBalances ∧ p'.cycles = p.cycles := by
  have hstep := hb.inv.inStep
  have hledger : p'.ledger = p.ledger := by
    cases h with
    | direct hpairs =>
      cases h' with
      | direct hpairs' => exact runDirectMatching_ledger hstep hpairs' hpairs
    | triangular hpairs hreach hdone =>
      cases h' with
      | triangular hpairs' hreach' hdone' =>
        exact hreach.ledger_eq (runDirectMatching_advance _ hstep).1
          (runDirectMatching_advance _ hstep).1 (runDirectMatching_ledger hstep hpairs' hpairs)
          hdone hreach' hdone'
  have horders : p'.book.orders = p.book.orders := congrArg Ledger.orders hledger
  exact ⟨congrArg Ledger.filledOrders hledger, fun id => by rw [horders],
    congrArg Ledger.protocolBalances hledger, congrArg Ledger.cycles hledger⟩

/-! ### Two triangles that are tied

Every order offers 110 for 100, so a triangle is worth 30.  In `apartBook` orders 1, 2, 3 go
round tokens 1, 2, 3 and orders 4, 5, 6 round tokens 4, 5, 6: the two triangles are tied and of
different groups.  In `tiedBook` orders 1, 2, 3 go round tokens 1, 2, 3 and orders 1, 4, 5 round
tokens 1, 2, 4: the two share order 1. -/

/-- 110 of token `x` for 100 of token `y`. -/
def markup (x y : TokenId) : OrderTerms := swapTerms x y 110 100

def apartBook : OrderBook :=
  (((triangleBook (markup 1 2) (markup 2 3) (markup 3 1)).addUserOrder 4 (markup 4 5)).addUserOrder
    5 (markup 5 6)).addUserOrder 6 (markup 6 4)

theorem apartBook_reachable : apartBook.Reachable :=
  (((triangleBook_reachable _ _ _).addUserOrder _ _).addUserOrder _ _).addUserOrder _ _

/-- The token before and after a token on its triangle. -/
def apartEnumeration : Enumeration where
  tokens := [1, 2, 3, 4, 5, 6]
  incoming := fun t => if t = 1 then [3] else if t = 4 then [6] else [t - 1]
  outgoing := fun t => if t = 3 then [1] else if t = 6 then [4] else [t + 1]

theorem apartEnumeration_of : apartEnumeration.Of (runStart apartBook).book :=
  ⟨by decide, by decide, by decide⟩

def apartStart : CycleState := cycleStart apartEnumeration (runStart apartBook)

def apartEntries : CycleEntry × CycleEntry := (⟨⟨1, 2, 3⟩, 1, 2, 3, 30⟩, ⟨⟨4, 5, 6⟩, 4, 5, 6, 30⟩)

theorem apart_registered {t : Triangle} (h : Registered (runStart apartBook).ledger t) :
    t = ⟨1, 2, 3⟩ ∨ t = ⟨4, 5, 6⟩ := by
  have hseen := seen_of_registered apartBook_reachable.inv.inStep apartEnumeration_of h
  have hall : ∀ t ∈ (enumerateTriangles apartEnumeration (runStart apartBook).book).seen,
      t = ⟨1, 2, 3⟩ ∨ t = ⟨4, 5, 6⟩ := by decide +kernel
  exact hall t hseen

/-- Each of the two triangles is a group of its own. -/
theorem apart_linked {t t' : Triangle} (h : Linked (Registered (runStart apartBook).ledger) t t') :
    t' = t := by
  induction h with
  | refl => rfl
  | tail _ hn ih =>
    subst ih
    obtain ⟨ht, ht', p, hp, hp'⟩ := hn
    rcases apart_registered ht with rfl | rfl <;> rcases apart_registered ht' with rfl | rfl
    · rfl
    · revert p; decide
    · revert p; decide
    · rfl

/-- **Whichever of the two is taken first, both are executed.** -/
theorem apart_determined : ∃ p, UndisputedRun apartBook true p ∧
    ∀ p', EngineRun apartBook true p' → p'.filledOrders = {1, 2, 3, 4, 5, 6} ∧ p'.cycles = 2 := by
  have hundisputed : ∀ s : CycleState, (∀ e ∈ s.heap, ∀ e' ∈ s.heap, e'.triangle = e.triangle →
      e' = e) → s.Undisputed (Registered (runStart apartBook).ledger) := by
    intro s hone e e' he he' _ _ hlinked
    exact hone e he.1 e' he'.1 (apart_linked hlinked)
  have hrun : UndisputedRun apartBook true (processEntry [⟨4, 5, 6⟩]
      (processEntry [⟨1, 2, 3⟩] apartStart apartEntries.1) apartEntries.2).toProgress := by
    refine @UndisputedRun.triangular _ [] _ ⟨by decide, by decide⟩ ⟨apartEnumeration,
      apartEnumeration_of, (ReflTransGen.single ⟨.pop ?_ ?_ ?_, hundisputed _ ?_⟩).tail
        ⟨.pop ?_ ?_ ?_, hundisputed _ ?_⟩⟩ ?_
    all_goals decide +kernel
  refine ⟨_, hrun, fun p' hp' => ?_⟩
  obtain ⟨hfilled, -, -, hcycles⟩ := engine_outcome_determined apartBook_reachable hrun hp'
  rw [hfilled, hcycles]
  decide +kernel

def tiedBook : OrderBook :=
  ((triangleBook (markup 1 2) (markup 2 3) (markup 3 1)).addUserOrder 4 (markup 2 4)).addUserOrder
    5 (markup 4 1)

theorem tiedBook_reachable : tiedBook.Reachable :=
  ((triangleBook_reachable _ _ _).addUserOrder _ _).addUserOrder _ _

/-- The entry of the triangle through token `c`, whose second leg is order `bc`. -/
def tiedEntry (c : TokenId) (bc ca : OrderId) : CycleEntry := ⟨⟨1, 2, c⟩, 1, bc, ca, 30⟩

/-- The run that pops `e` and then `e'`; both triangles are revisited after an execution. -/
def tiedRun (before : List TokenId) (e e' : CycleEntry) : CycleState :=
  processEntry [⟨1, 2, 3⟩, ⟨1, 2, 4⟩]
    (processEntry [⟨1, 2, 3⟩, ⟨1, 2, 4⟩]
      (cycleStart (forkEnumeration before) (runStart tiedBook)) e) e'

/-- **Two runs of one book part**: found first, triangle 1, 2, 3 fills orders 1, 2, 3; found
second, it comes too late, order 1 being filled together with orders 4 and 5. -/
theorem tied_triangles_part : tiedBook.Reachable ∧ ∃ p p', EngineRun tiedBook true p ∧
    EngineRun tiedBook true p' ∧ p.filledOrders = {1, 2, 3} ∧ p'.filledOrders = {1, 4, 5} := by
  refine ⟨tiedBook_reachable, (tiedRun [3, 4] (tiedEntry 3 2 3) (tiedEntry 4 4 5)).toProgress,
    (tiedRun [4, 3] (tiedEntry 4 4 5) (tiedEntry 3 2 3)).toProgress, ?_, ?_, ?_, ?_⟩
  · refine @EngineRun.triangular _ [] _ ⟨by decide, by decide⟩ ⟨forkEnumeration [3, 4],
      ⟨by decide, by decide, by decide⟩, (ReflTransGen.single (.pop ?_ ?_ ?_)).tail
        (.pop ?_ ?_ ?_)⟩ ?_
    all_goals decide +kernel
  · refine @EngineRun.triangular _ [] _ ⟨by decide, by decide⟩ ⟨forkEnumeration [4, 3],
      ⟨by decide, by decide, by decide⟩, (ReflTransGen.single (.pop ?_ ?_ ?_)).tail
        (.pop ?_ ?_ ?_)⟩ ?_
    all_goals decide +kernel
  · decide +kernel
  · decide +kernel

end PswapSolver
