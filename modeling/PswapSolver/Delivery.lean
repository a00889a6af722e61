import PswapSolver.Connections
import PswapSolver.TickBoundary

/-! # What is delivered

A note travels as bytes: ingest gives them to the matcher with the order, the matcher keeps
them, its external pass puts them into a batch, and the router frames them for a socket.
Nothing on the way looks at them.  This module follows them: what the matcher keeps, it was
given, and what the router delivers is an order the matcher was given, selected against a quote
that was posted (`Traced`).  The server of `Connections` takes part through a projection of its
runs to those of matcher and router.
-/
namespace PswapSolver
open Runs

/-! ## What the matcher routes -/

/-- The orders the matcher is given in a run. -/
def given (history : List (Routing × RoutingEvent)) : List IngestOrder :=
  history.flatMap fun x =>
    match x.2 with
    | .matcher e => e.given
    | .router _ => []

/-- The items delivered in a run. -/
def delivered (history : List (Routing × RoutingEvent)) : List RoutedNote :=
  history.flatMap fun x =>
    match x.2 with
    | .router (.deliver _ batch) => batch.items
    | _ => []

/-- **The item is genuine**: its bytes came with an order of its id, and it was selected against a
posted quote. -/
structure RoutedNote.Genuine (history : List (Routing × RoutingEvent)) (item : RoutedNote) :
    Prop where
  note : ∃ order ∈ given history, order.noteId = item.noteId ∧ order.rawNoteData = item.noteBytes
  quote : ∃ q ∈ posted history, item.AgainstQuote q ∧ q.pair = item.pair

/-- **Where everything comes from**: the quotes in the map and in the snapshots were posted, the
kept bytes were given, and the routed items are genuine. -/
structure Traced (history : List (Routing × RoutingEvent)) (s : Routing) : Prop where
  inv : s.router.Inv
  stored : ∀ {dex pair q}, quoteAt s.router.quotes dex pair = some q → q ∈ posted history
  snapshots : s.router.board.All fun snap =>
    ∀ pair, ∀ q ∈ (snap.lookup pair).getD [], q ∈ posted history ∧ q.pair = pair
  raw : ∀ {id bytes}, s.matcher.rawNotes.lookup id = some bytes →
    ∃ order ∈ given history, order.noteId = id ∧ order.rawNoteData = bytes
  queued : ∀ batch ∈ s.routeCh, ∀ item ∈ batch.items, item.Genuine history
  delivered : ∀ item ∈ delivered history, item.Genuine history

theorem traced_boot (feed : PriceFeed) (triangularEnabled : Bool) (hooks : Option RouterHooks) :
    Traced [] (Routing.boot feed triangularEnabled hooks) where
  inv := RouterState.inv_new
  stored := fun h => by cases h
  snapshots := ⟨fun _ _ h => absurd h List.not_mem_nil, fun _ h => absurd h List.not_mem_nil⟩
  raw := fun h => by cases h
  queued := fun _ h => absurd h List.not_mem_nil
  delivered := fun _ h => absurd h List.not_mem_nil

section Step
variable {quoteTtlMs : Nat} {s s' : Routing} {history : List (Routing × RoutingEvent)}
  {e : RoutingEvent} {item : RoutedNote}

theorem mem_posted_concat {q : Quote} (h : q ∈ posted history) (s : Routing) (e : RoutingEvent) :
    q ∈ posted (history ++ [(s, e)]) := by
  rw [posted_concat]
  exact List.mem_append_left _ h

theorem mem_given_concat {order : IngestOrder} (s : Routing) (e : RoutingEvent)
    (h : order ∈ given history ∨ ∃ me, e = .matcher me ∧ order ∈ me.given) :
    order ∈ given (history ++ [(s, e)]) := by
  rw [given, List.flatMap_append, List.mem_append]
  rcases h with hold | ⟨me, rfl, hnew⟩
  · exact Or.inl hold
  · exact Or.inr (List.mem_flatMap.mpr ⟨_, List.mem_singleton_self _, hnew⟩)

theorem delivered_concat (history : List (Routing × RoutingEvent)) (s : Routing)
    (e : RoutingEvent) :
    delivered (history ++ [(s, e)]) = delivered history ++ delivered [(s, e)] :=
  List.flatMap_append

theorem RoutedNote.Genuine.concat (h : item.Genuine history) (s : Routing) (e : RoutingEvent) :
    item.Genuine (history ++ [(s, e)]) := by
  obtain ⟨⟨order, horder, hid⟩, q, hq, hagainst⟩ := h
  exact ⟨⟨order, mem_given_concat s e (Or.inl horder), hid⟩, q, mem_posted_concat hq s e, hagainst⟩

/-- A step of the router. -/
theorem Traced.router (h : Traced history s) {re : RouterEvent} {router : RouterState}
    {routeCh : List RouteBatch} (hstep : RouterState.Step quoteTtlMs s.router re router)
    (hroute : ∀ batch ∈ routeCh, batch ∈ s.routeCh)
    (hdeliver : ∀ task batch, re = .deliver task batch → batch ∈ s.routeCh) :
    Traced (history ++ [(s, .router re)])
      { s with router := router, routeCh := routeCh } where
  inv := h.inv.step hstep
  stored := fun hq => by
    rcases hstep.quoteAt_origin hq with hold | ⟨rfl, -⟩
    · exact mem_posted_concat (h.stored hold) _ _
    · rw [posted_concat]
      exact List.mem_append_right _ (List.mem_singleton_self _)
  snapshots := by
    refine hstep.all (h.snapshots.mono fun hsnap pair q hq => ?_) fun hsnap pair q hq => ?_
    · exact ⟨mem_posted_concat (hsnap pair q hq).1 _ _, (hsnap pair q hq).2⟩
    · obtain ⟨dex, hat⟩ := hsnap.mem.mp hq
      exact ⟨mem_posted_concat (h.stored hat) _ _, (h.inv.stored hat).2.1⟩
  raw := fun hraw => by
    obtain ⟨order, horder, hid⟩ := h.raw hraw
    exact ⟨order, mem_given_concat _ _ (Or.inl horder), hid⟩
  queued := fun batch hbatch item hitem =>
    (h.queued batch (hroute batch hbatch) item hitem).concat _ _
  delivered := fun item hitem => by
    rw [delivered_concat] at hitem
    rcases List.mem_append.mp hitem with hold | hnew
    · exact (h.delivered item hold).concat _ _
    · obtain ⟨x, hx, hitem⟩ := List.mem_flatMap.mp hnew
      rw [List.mem_singleton] at hx
      subst hx
      cases re with
      | deliver task batch => exact (h.queued batch (hdeliver task batch rfl) item hitem).concat _ _
      | _ => cases hitem

/-- What the external pass routes is genuine. -/
theorem Traced.genuine_of_hands (h : Traced history s) {i : MatcherInputs} {me : MatcherEvent}
    {m : Matcher} (hreads : i.quotes = s.router.published)
    (hstep : Matcher.Step i s.matcher me m) (hitem : item ∈ (RoutingEvent.matcher me).hands) :
    item.Genuine history := by
  obtain hnone | ⟨_, order, result, -, horder, hhands⟩ := hands_matcher hstep
  · rw [hnone] at hitem
    cases hitem
  · rw [hhands, Matcher.externalPass] at hitem
    obtain ⟨q, hq, hagainst⟩ := quote_of_mem_externalPass horder hitem
    rw [hreads] at hq
    obtain ⟨hposted, hpair⟩ := h.snapshots.1 _ q hq
    refine ⟨?_, q, hposted, hagainst, hpair⟩
    rcases sentItems_externalPass s.matcher.book s.matcher.rawNotes i.quotes order s.matcher.lastNow
      result with hsent | hsent
    · rw [hsent, routeExternal_eq _ horder, routePicks_fst] at hitem
      obtain ⟨k, -, hid, -, -, -, -, hraw⟩ := mem_handover_noteId hitem
      rw [hid]
      exact h.raw hraw
    · rw [hsent] at hitem
      cases hitem

/-- **One step.** -/
theorem Traced.step (h : Traced history s) (hstep : Routing.Step quoteTtlMs s e s') :
    Traced (history ++ [(s, e)]) s' := by
  cases hstep with
  | router own step =>
    exact h.router step (fun _ hbatch => hbatch) fun task batch he => absurd he (own task batch)
  | deliver queued step =>
    refine h.router step (fun batch hbatch => ?_) ?_
    · rw [queued]
      exact List.mem_cons_of_mem _ hbatch
    · rintro _ _ ⟨⟩
      rw [queued]
      exact List.mem_cons_self ..
  | @matcher i me m reads step =>
    refine ⟨h.inv, fun hq => mem_posted_concat (h.stored hq) _ _,
      h.snapshots.mono fun hsnap pair q hq =>
        ⟨mem_posted_concat (hsnap pair q hq).1 _ _, (hsnap pair q hq).2⟩,
      fun hraw => ?_, fun batch hbatch item hitem => ?_, fun item hitem => ?_⟩
    · rcases step.rawNotes_origin hraw with hold | ⟨order, horder, hid⟩
      · obtain ⟨order, horder, hid⟩ := h.raw hold
        exact ⟨order, mem_given_concat _ _ (Or.inl horder), hid⟩
      · exact ⟨order, mem_given_concat _ _ (Or.inr ⟨me, rfl, horder⟩), hid⟩
    · rcases List.mem_append.mp hbatch with hold | hnew
      · exact (h.queued batch hold item hitem).concat _ _
      · exact (h.genuine_of_hands reads step (List.mem_flatMap.mpr ⟨batch, hnew, hitem⟩)).concat _ _
    · rw [delivered_concat] at hitem
      rcases List.mem_append.mp hitem with hold | hnew
      · exact (h.delivered item hold).concat _ _
      · cases hnew

end Step

/-! ## The server as a run of matcher and router -/

/-- The step of matcher and router in a step of the server. -/
def ServerEvent.toRouting : ServerEvent → Option RoutingEvent
  | number dex => some (.router (.connect dex))
  | routing e => some e
  | _ => none

/-- The steps of matcher and router in a run of the server. -/
def routingHistory (history : List (Server × ServerEvent)) : List (Routing × RoutingEvent) :=
  projection Server.routing ServerEvent.toRouting history

theorem Server.Step.toRouting {cfg : RouterConfig} {s s' : Server} {e : ServerEvent}
    (h : Step cfg s e s') : e.toRouting = none ∧ s'.routing = s.routing ∨
      ∃ re, e.toRouting = some re ∧ Routing.Step cfg.quoteTtlMs s.routing re s'.routing := by
  cases h with
  | number _ step => exact Or.inr ⟨_, rfl, step⟩
  | routing _ step => exact Or.inr ⟨_, rfl, step⟩
  | _ => exact Or.inl ⟨rfl, rfl⟩

/-- A reply to a client is an error. -/
theorem RouterState.Step.reply_error {quoteTtlMs : Nat} {s s' : RouterState} {dex : DexId}
    {reply : ServerMsg} (h : Step quoteTtlMs s (.reject dex reply) s') :
    ∃ code msg, reply = .error code msg := by
  cases h with
  | @reject _ decoded now _ _ _ invalid =>
    unfold handleClientMsg at invalid
    split at invalid
    · cases invalid
      exact ⟨_, _, rfl⟩
    · unfold makeQuote at invalid
      split at invalid
      · cases invalid
        exact ⟨_, _, rfl⟩
      · cases invalid

/-- A handover addressed to a DEX is an item delivered to it. -/
theorem delivered_of_addressed {cfg : RouterConfig} {guard : Guard Server ServerEvent}
    {s₀ t : Server} {dex : DexId} {history : List (Server × ServerEvent)} {bytes : Bytes}
    {fill : Nat} (hrun : Run (Server.Step cfg) guard s₀ history t)
    (h : .handover bytes fill ∈ addressed dex history) :
    ∃ item ∈ delivered (routingHistory history),
      item.dex = dex ∧ item.noteBytes = bytes ∧ item.fill = fill := by
  obtain ⟨⟨s, e⟩, hx, hmsg⟩ := List.mem_flatMap.mp h
  have hmem : ∀ re, e.toRouting = some re → (s.routing, re) ∈ routingHistory history :=
    fun re hre => List.mem_filterMap.mpr ⟨(s, e), hx, by simp only [hre, Option.map_some]⟩
  cases e with
  | routing event =>
    cases event with
    | matcher me => cases hmsg
    | router re =>
      cases re with
      | reject d reply =>
        -- a reply is never a handover
        obtain ⟨s', hstep⟩ := hrun.step_of_mem hx
        obtain ⟨code, msg, rfl⟩ : ∃ code msg, reply = .error code msg := by
          cases hstep with
          | routing _ step =>
            cases step with
            | router _ step => exact step.reply_error
        rw [ServerEvent.addressed] at hmsg
        split at hmsg
        · cases List.mem_singleton.mp hmsg
        · cases hmsg
      | deliver task batch =>
        obtain ⟨item, hitem, heq⟩ := List.mem_map.mp hmsg
        obtain ⟨hitem, hdex⟩ := List.mem_filter.mp hitem
        cases heq
        exact ⟨item, List.mem_flatMap.mpr ⟨_, hmem _ rfl, hitem⟩, of_decide_eq_true hdex, rfl, rfl⟩
      | _ => cases hmsg
  | _ => cases hmsg

end PswapSolver
