import PswapSolver.Exclusivity

/-! # Notes in flight

A parked note takes part in no matching.  So a note should be parked only while it is in flight:
it was handed to a DEX, and the in-flight window is not over.  This module follows every park of
a run back to its handover, and forward to its end.

A park ends with the first sweep after its window, and the matcher sweeps in every tick as long as
it has its router hooks (`parked_in_flight`).  When the route channel is found closed the hooks
are dropped, and the sweep with them: what is parked by then stays so, until its note is consumed
or delivered anew.
-/
namespace PswapSolver
open Runs

/-! ## Parks under each step -/

/-- A note that is added is not parked afterwards. -/
theorem OrderBook.parked_of_addUserOrder {b : OrderBook} {id N : OrderId} {terms : OrderTerms}
    {v : DexId × Nat} (h : (b.addUserOrder id terms).parked.lookup N = some v) :
    N ≠ id ∧ b.parked.lookup N = some v := by
  by_cases hN : N = id
  · subst hN
    unfold addUserOrder at h
    split at h
    · rename_i hold
      exact absurd (FiniteMap.mem_of_lookup h) hold.2
    · cases (Finmap.lookup_erase N b.parked).symm.trans h
  · rw [addUserOrder_parked_of_ne b id terms hN] at h
    exact ⟨hN, h⟩

namespace Matcher
variable {m m' : Matcher} {i : MatcherInputs} {e : MatcherEvent} {N : OrderId} {v : DexId × Nat}

theorem Sound.mem_orders (hm : m.Sound) (h : N ∈ m.book.parked) : N ∈ m.book.orders := by
  obtain ⟨o, ho, -⟩ := hm.reachable.inv.inStep.parked_active h
  exact FiniteMap.mem_of_lookup ho

theorem parked_of_hydrate (nowUnix : Nat) (loaded : List IngestOrder)
    (h : (loaded.foldl (fun m order => m.hydrateOrder nowUnix order) m).book.parked.lookup N =
      some v) : N ∉ loaded.map IngestOrder.noteId ∧ m.book.parked.lookup N = some v := by
  induction loaded generalizing m with
  | nil => exact ⟨List.not_mem_nil, h⟩
  | cons order loaded ih =>
    obtain ⟨hrest, hhead⟩ := ih h
    obtain ⟨hne, hbefore⟩ := OrderBook.parked_of_addUserOrder hhead
    exact ⟨by simp [hne, hrest], hbefore⟩

/-- Internal matching leaves the parks alone. -/
theorem InternalMatch.parked_eq {batch : Option ExecutionBatch} {closed : Bool} (hm : m.Sound)
    (h : InternalMatch i m batch closed m') (N : OrderId) :
    m'.book.parked.lookup N = m.book.parked.lookup N := by
  cases h with
  | empty _ => rfl
  | unfilled _ hrun _ => rw [(run_spec hm hrun).2.2.1]
  | closed _ hrun _ => rw [(run_spec hm hrun).2.2.1]
  | @sent p filledOrders _ hrun _ _ henum =>
    obtain ⟨hsound, -, hparked, -, hvisible⟩ := run_spec hm hrun
    obtain ⟨hsound', horders', hparked', -⟩ := dropNotes_spec filledOrders hsound
    show (filledOrders.foldl dropNote { m with book := p.book }).book.parked.lookup N = _
    by_cases hN : N ∈ filledOrders
    · -- a filled note is parked neither before nor after
      have hfilled : N ∈ p.filledOrders := by
        rw [← henum]
        exact List.mem_toFinset.mpr hN
      rw [Finmap.lookup_eq_none.mpr (hvisible hfilled).2, Finmap.lookup_eq_none]
      intro hafter
      exact (horders'.mp (hsound'.mem_orders hafter)).1 hN
    · rw [hparked' hN]
      show p.book.parked.lookup N = _
      rw [hparked]

/-- **Where a park comes from**: it was there before the step, which did nothing with the note,
or the note was handed over in this step. -/
theorem Step.parked_cases (hm : m.Sound) (h : Step i m e m')
    (hN : m'.book.parked.lookup N = some v) :
    (m.book.parked.lookup N = some v ∧ N ∉ e.delivers ∧ N ∉ e.drops ∧ N ∉ e.executes ∧
      N ∉ e.handsOver) ∨
    (v.2 = m.lastNow ∧ ∃ batch item, e = .route (some batch) ∧ item ∈ batch.items ∧
      item.noteId = N ∧ item.dex = v.1) := by
  have hf := h.footprint hm
  have horders : N ∈ m'.book.orders := hf.sound.mem_orders (FiniteMap.mem_of_lookup hN)
  have hdrops : N ∉ e.drops := fun hc => hf.gone (Or.inr hc) horders
  -- a note that was parked is in no batch
  have hkept : m.book.parked.lookup N = some v → N ∉ e.delivers →
      m.book.parked.lookup N = some v ∧ N ∉ e.delivers ∧ N ∉ e.drops ∧ N ∉ e.executes ∧
        N ∉ e.handsOver := by
    intro hbefore hdelivers
    have hparked : N ∈ m.book.parked := FiniteMap.mem_of_lookup hbefore
    exact ⟨hbefore, hdelivers, hdrops, fun hc => (hf.emitted (Or.inl hc)).2 hparked,
      fun hc => (hf.emitted (Or.inr hc)).2 hparked⟩
  cases h with
  | hydrate loaded _ =>
    obtain ⟨hnew, hbefore⟩ := parked_of_hydrate i.nowUnix loaded hN
    exact Or.inl (hkept hbefore hnew)
  | stop _ => exact Or.inl (hkept hN List.not_mem_nil)
  | wake _ => exact Or.inl (hkept hN List.not_mem_nil)
  | consume id _ =>
    have hne : N ≠ id := fun hc => hdrops (hc ▸ List.mem_singleton_self _)
    refine Or.inl (hkept ?_ List.not_mem_nil)
    rw [← OrderBook.removeOrder_parked_of_ne m.book id hne]
    exact hN
  | consumedEmpty _ => exact Or.inl (hkept hN List.not_mem_nil)
  | receive order _ =>
    obtain ⟨hne, hbefore⟩ := OrderBook.parked_of_addUserOrder hN
    exact Or.inl (hkept hbefore fun hc => hne (List.mem_singleton.mp hc))
  | ordersEmpty _ =>
    refine Or.inl (hkept ?_ List.not_mem_nil)
    cases hr : m.router with
    | none =>
      rw [reactivate_of_none hr] at hN
      exact hN
    | some r =>
      rw [reactivate_of_some hr] at hN
      obtain ⟨-, hparked, -⟩ := OrderBook.reactivateLoop_spec r.inflightTtlMs m.lastNow
        hm.reachable.inv rfl
      have hlookup := (hparked N).symm.trans hN
      split at hlookup
      · cases hlookup
      · exact hlookup
  | execute _ hrun => exact Or.inl (hkept ((hrun.parked_eq hm N).symm.trans hN) List.not_mem_nil)
  | noRouter _ _ => exact Or.inl (hkept hN List.not_mem_nil)
  | @route r order result _ _ horder =>
    by_cases hok : result = .ok
    · subst hok
      obtain ⟨-, -, hpk, -⟩ := routeExternal_spec m.rawNotes m.lastNow hm.reachable.inv.inStep
        horder
      obtain ⟨hitems, hbook⟩ := externalPass_ok m.book m.rawNotes i.quotes order m.lastNow
      have hN' : (routeExternal m.book m.rawNotes i.quotes order m.lastNow).2.parked.lookup N =
          some v := by
        rw [← hbook]
        exact hN
      rcases (hpk.parked N v).mp hN' with hbefore | ⟨item, hitem, hid, rfl⟩
      · exact Or.inl (hkept hbefore List.not_mem_nil)
      · refine Or.inr ⟨rfl, ?_⟩
        rw [← hitems, PassResult.sentItems] at hitem
        unfold Matcher.externalPass
        cases hsent : (PswapSolver.externalPass m.book m.rawNotes i.quotes order m.lastNow .ok).sent
          with
        | none =>
          rw [hsent] at hitem
          cases hitem
        | some batch =>
          rw [hsent] at hitem
          exact ⟨batch, item, rfl, hitem, hid, rfl⟩
    · obtain ⟨-, hbook⟩ := externalPass_not_ok m.book m.rawNotes i.quotes order m.lastNow hok
      obtain ⟨-, -, hparked, -⟩ := rollback_routeExternal m.rawNotes m.lastNow
        hm.reachable.inv.inStep horder
      refine Or.inl (hkept ?_ List.not_mem_nil)
      rw [← hparked, ← hbook]
      exact hN

/-- No park is left whose window is over when the matcher has swept. -/
theorem lt_of_swept (hm : m.Sound) {r : RouterHooks} (hr : m.router = some r) {dex : DexId}
    {since : Nat} (hN : m.reactivate.book.parked.lookup N = some (dex, since)) :
    m.lastNow < satAdd64 since r.inflightTtlMs := by
  rw [reactivate_of_some hr] at hN
  obtain ⟨-, hparked, -⟩ := OrderBook.reactivateLoop_spec r.inflightTtlMs m.lastNow
    hm.reachable.inv rfl
  have hlookup := (hparked N).symm.trans hN
  by_cases hexp : OrderBook.Expired r.inflightTtlMs m.lastNow m.book.parkQueue N
  · rw [if_pos hexp] at hlookup
    cases hlookup
  · rw [if_neg hexp] at hlookup
    apply Nat.lt_of_not_le
    intro hle
    exact hexp ⟨(since, N), hm.reachable.inv.parkQueued.queued hlookup, rfl, hle⟩

/-- Without the router hooks a park ends only with its note. -/
theorem Step.stays_parked (hm : m.Sound) (h : Step i m e m') (hr : m.router = none)
    (hdelivers : N ∉ e.delivers) (hdrops : N ∉ e.drops) (hN : m.book.parked.lookup N = some v) :
    m'.book.parked.lookup N = some v ∧ m'.router = none := by
  cases h with
  | hydrate loaded _ =>
    obtain ⟨-, -, hparked, -, -, hrouter⟩ := hydrateOrders_spec i.nowUnix loaded hm
    exact ⟨(hparked hdelivers).trans hN, hrouter.trans hr⟩
  | stop _ => exact ⟨hN, hr⟩
  | wake _ => exact ⟨hN, hr⟩
  | consume id _ =>
    have hne : N ≠ id := fun hc => hdrops (hc ▸ List.mem_singleton_self _)
    exact ⟨(OrderBook.removeOrder_parked_of_ne m.book id hne).trans hN, hr⟩
  | consumedEmpty _ => exact ⟨hN, hr⟩
  | receive order _ =>
    have hne : N ≠ order.noteId := fun hc => hdelivers (List.mem_singleton.mpr hc)
    exact ⟨(OrderBook.addUserOrder_parked_of_ne m.book _ _ hne).trans hN, hr⟩
  | ordersEmpty _ =>
    rw [reactivate_of_none hr]
    exact ⟨hN, hr⟩
  | execute _ hrun =>
    obtain ⟨-, -, -, -, -, -, hrouter⟩ := hrun.spec hm
    exact ⟨(hrun.parked_eq hm N).trans hN, hrouter.trans hr⟩
  | noRouter _ _ => exact ⟨hN, hr⟩
  | route _ _ hsome _ => cases hr.symm.trans hsome

end Matcher

/-! ## Over a run -/

/-- **The handover a park goes back to**, since which nothing was done with the note. -/
def HandedOver (history : List (Matcher × MatcherEvent)) (N : OrderId) (v : DexId × Nat) : Prop :=
  ∃ before x after batch item, history = before ++ (x, .route (some batch)) :: after ∧
    x.lastNow = v.2 ∧ item ∈ batch.items ∧ item.noteId = N ∧ item.dex = v.1 ∧
    ∀ y ∈ after, N ∉ y.2.delivers ∧ N ∉ y.2.drops ∧ N ∉ y.2.executes ∧ N ∉ y.2.handsOver

/-- The matcher has not started a tick that it has not swept in. -/
def Phase.Swept (phase : Phase) : Prop := phase ≠ .consuming ∧ phase ≠ .receiving

/-- **The invariant of the parks.** -/
structure InFlightInv (history : List (Matcher × MatcherEvent)) (m : Matcher) : Prop where
  sound : m.Sound
  traced : ∀ N v, m.book.parked.lookup N = some v → HandedOver history N v
  window : ∀ r, m.router = some r → m.phase.Swept → ∀ N dex since,
    m.book.parked.lookup N = some (dex, since) →
      m.lastNow < satAdd64 since r.inflightTtlMs ∨ m.lastNow = since

theorem inFlightInv_new (feed : PriceFeed) (triangularEnabled : Bool)
    (router : Option RouterHooks) : InFlightInv [] (Matcher.new feed triangularEnabled router) where
  sound := ⟨OrderBook.Reachable.new feed, fun _ hx => absurd hx List.not_mem_nil⟩
  traced := fun _ _ hN => absurd (FiniteMap.mem_of_lookup hN) Finmap.notMem_empty
  window := fun _ _ _ _ _ _ hN => absurd (FiniteMap.mem_of_lookup hN) Finmap.notMem_empty

section Step
variable {history : List (Matcher × MatcherEvent)} {m m' : Matcher} {e : MatcherEvent}

/-- **One step.** -/
theorem InFlightInv.step (h : InFlightInv history m) (hstep : MatcherStep m e m') :
    InFlightInv (history ++ [(m, e)]) m' := by
  obtain ⟨i, hstep⟩ := hstep
  have hf := hstep.footprint h.sound
  refine ⟨hf.sound, fun N v hN => ?_, fun r hr hswept N dex since hN => ?_⟩
  · rcases hstep.parked_cases h.sound hN with ⟨hbefore, huntouched⟩ | ⟨hnow, batch, item, rfl,
      hitem, hid, hdex⟩
    · obtain ⟨before, x, after, batch, item, rfl, htime, hitem, hid, hdex, hafter⟩ :=
        h.traced N v hbefore
      refine ⟨before, x, after ++ [(m, e)], batch, item, by simp, htime, hitem, hid, hdex, ?_⟩
      intro y hy
      rcases List.mem_append.mp hy with hold | hnew
      · exact hafter y hold
      · rw [List.mem_singleton.mp hnew]
        exact huntouched
    · exact ⟨history, m, [], batch, item, rfl, hnow.symm, hitem, hid, hdex, nofun⟩
  · have hr' : m.router = some r := hf.router hr
    -- a phase in which the parks were open before
    have hold : m.phase.Swept → m'.lastNow = m.lastNow →
        m'.lastNow < satAdd64 since r.inflightTtlMs ∨ m'.lastNow = since := by
      intro hphase hnow
      rw [hnow]
      rcases hstep.parked_cases h.sound hN with ⟨hbefore, -⟩ | ⟨hsince, -⟩
      · exact h.window r hr' hphase N dex since hbefore
      · exact Or.inr hsince.symm
    cases hstep with
    | hydrate loaded hphase =>
      obtain ⟨-, -, -, -, hnow, -⟩ := Matcher.hydrateOrders_spec i.nowUnix loaded h.sound
      exact hold (by rw [hphase]; exact ⟨nofun, nofun⟩) hnow
    | stop hphase => exact hold (by rw [hphase]; exact ⟨nofun, nofun⟩) rfl
    | wake _ => exact absurd rfl hswept.1
    | consume id hphase => exact absurd hphase hswept.1
    | consumedEmpty _ => exact absurd rfl hswept.2
    | receive order hphase => exact absurd hphase hswept.2
    | ordersEmpty _ =>
      have hlt := Matcher.lt_of_swept h.sound hr' hN
      rw [Matcher.reactivate_of_some hr']
      exact Or.inl hlt
    | execute hphase hrun =>
      obtain ⟨-, -, -, -, -, hnow, -⟩ := hrun.spec h.sound
      exact hold (by rw [hphase]; exact ⟨nofun, nofun⟩) hnow
    | noRouter _ hnone => cases hnone.symm.trans hr'
    | route _ hphase _ _ => exact hold (by rw [hphase]; exact ⟨nofun, nofun⟩) rfl

/-- Without the router hooks, a park lasts as long as its note is neither consumed nor delivered
anew, and the note is in no batch. -/
theorem stays_parked_of_run {later : List (Matcher × MatcherEvent)} {N : OrderId} {v : DexId × Nat}
    (hm : m.Sound) (hr : m.router = none) (hN : m.book.parked.lookup N = some v)
    (hrun : Run MatcherStep unguarded m later m')
    (hlater : ∀ x ∈ later, N ∉ x.2.delivers ∧ N ∉ x.2.drops) :
    m'.book.parked.lookup N = some v ∧ ∀ x ∈ later, N ∉ x.2.executes ∧ N ∉ x.2.handsOver := by
  suffices hall : m'.Sound ∧ m'.router = none ∧ m'.book.parked.lookup N = some v ∧
      ∀ x ∈ later, N ∉ x.2.executes ∧ N ∉ x.2.handsOver from hall.2.2
  induction hrun with
  | start => exact ⟨hm, hr, hN, nofun⟩
  | step _ _ hstep ih =>
    obtain ⟨hsound, hrouter, hparked, hearlier⟩ := ih fun x hx =>
      hlater x (List.mem_append_left _ hx)
    obtain ⟨i, hstep⟩ := hstep
    obtain ⟨hdelivers, hdrops⟩ := hlater _ (List.mem_append_right _ (List.mem_singleton_self _))
    have hf := hstep.footprint hsound
    obtain ⟨hparked', hrouter'⟩ := hstep.stays_parked hsound hrouter hdelivers hdrops hparked
    refine ⟨hf.sound, hrouter', hparked', fun x hx => ?_⟩
    rcases List.mem_append.mp hx with hold | hnew
    · exact hearlier x hold
    · rw [List.mem_singleton.mp hnew]
      have hmem := FiniteMap.mem_of_lookup hparked
      exact ⟨fun hc => (hf.emitted (Or.inl hc)).2 hmem, fun hc => (hf.emitted (Or.inr hc)).2 hmem⟩

end Step

/-- **A parked note is in flight**, in every run of the matcher.  It was handed to its DEX at the
time of the park, and since then neither delivered anew nor consumed, nor part of any batch.  With
the router hooks in place its window is still open once the matcher has swept in the current tick.
Without them the park does not end, and the note is in no batch, unless the note is consumed or
delivered anew. -/
theorem parked_in_flight (feed : PriceFeed) (triangularEnabled : Bool)
    (router : Option RouterHooks) {history : List (Matcher × MatcherEvent)} {m : Matcher}
    (hrun : Run MatcherStep unguarded (Matcher.new feed triangularEnabled router) history m)
    {N : OrderId} {dex : DexId} {since : Nat}
    (hN : m.book.parked.lookup N = some (dex, since)) :
    HandedOver history N (dex, since) ∧
    (∀ r, m.router = some r → m.phase.Swept →
      m.lastNow < satAdd64 since r.inflightTtlMs ∨ m.lastNow = since) ∧
    (m.router = none → ∀ later m', Run MatcherStep unguarded m later m' →
      (∀ x ∈ later, N ∉ x.2.delivers ∧ N ∉ x.2.drops) →
      m'.book.parked.lookup N = some (dex, since) ∧
        ∀ x ∈ later, N ∉ x.2.executes ∧ N ∉ x.2.handsOver) := by
  have hinv : InFlightInv history m :=
    hrun.invariant (inFlightInv_new feed triangularEnabled router) fun h _ hstep => h.step hstep
  refine ⟨hinv.traced N _ hN, fun r hr hswept => hinv.window r hr hswept N dex since hN, ?_⟩
  intro hr later m' hlater hquiet
  exact stays_parked_of_run hinv.sound hr hN hlater hquiet

/-! ### A channel that is found closed

Two notes of one rate, and a quote with room for one.  The first is handed over at 60.  At 100 the
second is to be handed over, and the channel is closed.  The window of the first is over at 160. -/

/-- The matcher with both notes loaded at boot. -/
def parkedPair : Matcher :=
  (Matcher.new (fun _ => none) false (some ⟨100⟩)).hydrate 0
    [loadedNote, ⟨2, parTerms 10, []⟩]

def firstAway : Matcher := parkedPair.quietTick (quotedAt 60) [(1, 2)] .ok

def channelClosed : Matcher := firstAway.quietTick (quotedAt 100) [(1, 2)] .closed

/-- The first note is still parked at 10000. -/
theorem parked_for_good : ∃ history, ∃ m : Matcher,
    Run MatcherStep unguarded (Matcher.new (fun _ => none) false (some ⟨100⟩)) history m ∧
    m.phase = .idle ∧ m.lastNow = 10000 ∧ m.book.parked.lookup 1 = some (7, 60) := by
  have h₁ : parkedPair.Quiet (quotedAt 60) [(1, 2)] :=
    ⟨rfl, rfl, rfl, rfl, by decide, by decide, by decide, by decide⟩
  have h₂ : firstAway.Quiet (quotedAt 100) [(1, 2)] :=
    ⟨rfl, rfl, rfl, rfl, by decide, by decide, by decide, by decide⟩
  have hboot : MatcherStep (Matcher.new (fun _ => none) false (some ⟨100⟩))
      (.hydrate [loadedNote, ⟨2, parTerms 10, []⟩]) parkedPair :=
    ⟨quotedAt 0, .hydrate _ rfl⟩
  have hclosed := (Run.single hboot).append ((h₁.run .ok).append (h₂.run .closed))
  -- the next tick, without the hooks
  have hpairs : MatchablePairs { (channelClosed.swept (quotedAt 10000)).book with
      feed := (quotedAt 10000).feed } [] := ⟨List.nodup_nil, by decide⟩
  have hlater : Run MatcherStep unguarded channelClosed _ _ :=
    ((((Run.single ⟨quotedAt 10000, .wake rfl⟩).step trivial
      ⟨quotedAt 10000, .consumedEmpty rfl⟩).step trivial
      ⟨quotedAt 10000, .ordersEmpty rfl⟩).step trivial ⟨quotedAt 10000, .execute rfl
        (.unfilled (by decide) (EngineRun.direct hpairs) rfl)⟩).step trivial
      ⟨quotedAt 10000, .noRouter rfl rfl⟩
  have hparked : channelClosed.book.parked.lookup 1 = some (7, 60) := by decide
  have hstuck := (parked_in_flight _ _ _ hclosed hparked).2.2 rfl _ _ hlater (by decide)
  exact ⟨_, _, Run.append hclosed hlater, rfl, rfl, hstuck.1⟩

end PswapSolver
