import PswapSolver.Exclusivity
import PswapSolver.QuoteUpdates

/-! # A quote's capacity

The matcher and the router together: the matcher's external pass reads the published
snapshot and sends a batch on the route channel, the router takes the batch, hands its
items over, removes the quotes they were selected against and publishes the rest.  "A
quote governs a single batch", but until the router has published the rest, the matcher
reads the used quote again, and a second tick hands its capacity out a second time
(`capacity_handed_out_twice`).

A single pass never overdraws a quote (`drawn_externalPass_le`).  So if the matcher never
reads a quote that was used before, what is handed out against a posted quote stays
within its supply (`quote_capacity_kept`).
-/
namespace PswapSolver
open Publication Runs

/-! ## Matcher and router -/

/-- The matcher, the router and the route channel between them. -/
structure Routing where
  router : RouterState
  matcher : Matcher
  routeCh : List RouteBatch

/-- What happens in a step. -/
inductive RoutingEvent where
  | router (event : RouterEvent)
  | matcher (event : MatcherEvent)

/-- The batch the matcher puts on the route channel. -/
def MatcherEvent.routes : MatcherEvent → List RouteBatch
  | route (some batch) => [batch]
  | _ => []

namespace Routing

/-- Matcher and router at boot. -/
def boot (feed : PriceFeed) (triangularEnabled : Bool) (hooks : Option RouterHooks) : Routing where
  router := RouterState.new
  matcher := Matcher.new feed triangularEnabled hooks
  routeCh := []

/-- **The steps of matcher and router.**  What ingest and the executor send to the matcher is
arbitrary. -/
inductive Step (quoteTtlMs : Nat) : Routing → RoutingEvent → Routing → Prop
  /-- The matcher reads the published quotes. -/
  | matcher {s : Routing} {i : MatcherInputs} {e : MatcherEvent} {m' : Matcher}
      (reads : i.quotes = s.router.published) (step : Matcher.Step i s.matcher e m') :
      Step quoteTtlMs s (.matcher e) { s with matcher := m', routeCh := s.routeCh ++ e.routes }
  | router {s : Routing} {e : RouterEvent} {r' : RouterState}
      (own : ∀ task batch, e ≠ .deliver task batch)
      (step : RouterState.Step quoteTtlMs s.router e r') :
      Step quoteTtlMs s (.router e) { s with router := r' }
  /-- The router takes the next batch. -/
  | deliver {s : Routing} {task : Nat} {batch : RouteBatch} {rest : List RouteBatch}
      {r' : RouterState} (queued : s.routeCh = batch :: rest)
      (step : RouterState.Step quoteTtlMs s.router (.deliver task batch) r') :
      Step quoteTtlMs s (.router (.deliver task batch)) { s with router := r', routeCh := rest }

/-- A step of the matcher that routes nothing. -/
theorem Step.matcher_alone {quoteTtlMs : Nat} {s : Routing} {i : MatcherInputs} {e : MatcherEvent}
    {m' : Matcher} (hreads : i.quotes = s.router.published)
    (hstep : Matcher.Step i s.matcher e m') (hroutes : e.routes = []) :
    Step quoteTtlMs s (.matcher e) { s with matcher := m' } := by
  have h := @Step.matcher quoteTtlMs _ _ _ _ hreads hstep
  rw [hroutes, List.append_nil] at h
  exact h

end Routing

/-- The quote posted in a step. -/
def RoutingEvent.posts : RoutingEvent → List Quote
  | router (.register q) => [q]
  | _ => []

/-- The items handed over in a step. -/
def RoutingEvent.hands : RoutingEvent → List RoutedNote
  | matcher e => e.routes.flatMap RouteBatch.items
  | _ => []

/-- The quotes posted in a run. -/
def posted (history : List (Routing × RoutingEvent)) : List Quote :=
  history.flatMap fun x => x.2.posts

/-- The items of all batches of a run. -/
def handed (history : List (Routing × RoutingEvent)) : List RoutedNote :=
  history.flatMap fun x => x.2.hands

/-- What the items draw from the quote with the given serial. -/
def drawn (serial : Nat) (items : List RoutedNote) : Nat :=
  (items.map fun item => if item.serial = serial then item.fill else 0).sum

/-- The item was selected against the quote. -/
def RoutedNote.AgainstQuote (item : RoutedNote) (q : Quote) : Prop :=
  item.dex = q.dex ∧ item.serial = q.serial

/-- **The condition on a step**: an external pass reads no quote that a batch was selected
against before. -/
def FreshQuotes : Guard Routing RoutingEvent := fun history s e =>
  ∀ batch, e = .matcher (.route batch) → ∀ pair, ∀ q ∈ s.router.publishedFor pair,
    ∀ item ∈ handed history, item.serial ≠ q.serial

/-! ## One pass -/

theorem drawn_append (serial : Nat) (items items' : List RoutedNote) :
    drawn serial (items ++ items') = drawn serial items + drawn serial items' := by
  rw [drawn, List.map_append, List.sum_append]
  rfl

theorem drawn_eq_zero {serial : Nat} {items : List RoutedNote}
    (h : ∀ item ∈ items, item.serial ≠ serial) : drawn serial items = 0 := by
  refine List.sum_eq_zero fun n hn => ?_
  obtain ⟨item, hitem, rfl⟩ := List.mem_map.mp hn
  exact if_neg (h item hitem)

theorem drawn_handover_le (serial : Nat) (rawNotes : FiniteMap OrderId Bytes) (picks : List Pick) :
    drawn serial (picks.filterMap (handover rawNotes)) ≤ (picks.map (Pick.drawn serial)).sum := by
  induction picks with
  | nil => exact Nat.zero_le _
  | cons k picks ih =>
    rw [List.map_cons, List.sum_cons]
    cases hraw : handover rawNotes k with
    | none =>
      rw [List.filterMap_cons_none hraw]
      omega
    | some item =>
      rw [List.filterMap_cons_some hraw]
      obtain ⟨bytes, -, rfl⟩ := Option.map_eq_some_iff.mp hraw
      exact Nat.add_le_add_left ih _

/-- A pass sends the routed items, or nothing. -/
theorem sentItems_externalPass (b : OrderBook) (rawNotes : FiniteMap OrderId Bytes)
    (quotes : QuotesSnapshot) (order : List Pair) (now : Nat) (result : TrySend) :
    (externalPass b rawNotes quotes order now result).sentItems =
      (routeExternal b rawNotes quotes order now).1 ∨
    (externalPass b rawNotes quotes order now result).sentItems = [] := by
  rw [externalPass]
  dsimp only
  split
  · exact Or.inr rfl
  · cases result with
    | ok => exact Or.inl rfl
    | full => exact Or.inr rfl
    | closed => exact Or.inr rfl

/-- A snapshot of posted quotes: each is listed once, under its own pair. -/
structure Proper (posted : List Quote) (snap : QuotesSnapshot) : Prop where
  nodup : ∀ pair, ((snap.lookup pair).getD []).Nodup
  listed : ∀ pair, ∀ q ∈ (snap.lookup pair).getD [], q.pair = pair ∧ q ∈ posted

/-- Every posted quote has its own serial. -/
def UniqueSerials (posted : List Quote) : Prop :=
  ∀ q ∈ posted, ∀ q' ∈ posted, q'.serial = q.serial → q' = q

section Pass
variable {posted : List Quote} {quotes : QuotesSnapshot} {q : Quote}

/-- Under a pair there is room for a posted quote's supply, once if the quote is listed. -/
theorem room_eq (hproper : Proper posted quotes) (hunique : UniqueSerials posted) (hq : q ∈ posted)
    (pair : Pair) : room q.serial (((quotes.lookup pair).getD []).map fun q => (q, q.supply)) =
      ((quotes.lookup pair).getD []).count q * q.supply := by
  have hother : ∀ q' : Quote, q' ≠ q → q' ∈ (quotes.lookup pair).getD [] →
      (if q'.serial = q.serial then q'.supply else 0) = 0 := by
    intro q' hne hmem
    exact if_neg fun hserial => hne (hunique q hq q' (hproper.listed pair q' hmem).2 hserial)
  rw [room, List.map_map]
  have hsum := List.sum_map_eq_nsmul_single q
    (fun q' : Quote => if q'.serial = q.serial then q'.supply else 0) hother
  rw [if_pos rfl, Nat.nsmul_eq_mul] at hsum
  exact hsum

/-- **A pass draws from a posted quote at most its supply, and nothing if it is not listed.** -/
theorem drawn_externalPass_le (hproper : Proper posted quotes) (hunique : UniqueSerials posted)
    (hq : q ∈ posted) {order : List Pair} (horder : VisitsPairs order quotes) (b : OrderBook)
    (rawNotes : FiniteMap OrderId Bytes) (now : Nat) (result : TrySend) :
    drawn q.serial (externalPass b rawNotes quotes order now result).sentItems ≤
      ((quotes.lookup q.pair).getD []).count q * q.supply := by
  have hpair : ∀ pair, ((picksOf (wholeNotes b) quotes now pair).map (Pick.drawn q.serial)).sum ≤
      ((quotes.lookup pair).getD []).count q * q.supply := by
    intro pair
    rw [← room_eq hproper hunique hq pair]
    exact drawn_matchNotes_le pair now q.serial (wholeNotes b pair) _
  have hother : ∀ pair, pair ≠ q.pair → pair ∈ order →
      ((picksOf (wholeNotes b) quotes now pair).map (Pick.drawn q.serial)).sum = 0 := by
    intro pair hne _
    have hnot : q ∉ (quotes.lookup pair).getD [] := fun h => hne (hproper.listed pair q h).1.symm
    have := hpair pair
    rw [List.count_eq_zero.mpr hnot] at this
    omega
  have hall : ((order.flatMap (picksOf (wholeNotes b) quotes now)).map (Pick.drawn q.serial)).sum ≤
      ((quotes.lookup q.pair).getD []).count q * q.supply := by
    rw [List.map_flatMap, List.flatMap_def, List.sum_flatten, List.map_map]
    have hsum := List.sum_map_eq_nsmul_single q.pair
      (fun pair => ((picksOf (wholeNotes b) quotes now pair).map (Pick.drawn q.serial)).sum) hother
    refine hsum.trans_le ?_
    rw [Nat.nsmul_eq_mul]
    have hcount : @List.count Pair instBEqOfDecidableEq q.pair order ≤ 1 :=
      (@List.nodup_iff_count_le_one _ instBEqOfDecidableEq _ order).mp horder.1 q.pair
    exact (Nat.mul_le_mul_right _ hcount).trans ((Nat.one_mul _).le.trans (hpair q.pair))
  have hitems : drawn q.serial (routeExternal b rawNotes quotes order now).1 ≤
      ((quotes.lookup q.pair).getD []).count q * q.supply := by
    rw [routeExternal_eq rawNotes horder, routePicks_fst]
    exact (drawn_handover_le _ _ _).trans hall
  rcases sentItems_externalPass b rawNotes quotes order now result with hsent | hsent
  · rw [hsent]
    exact hitems
  · rw [hsent]
    exact Nat.zero_le _

/-- An item is selected against a listed quote. -/
theorem quote_of_mem_externalPass {order : List Pair} (horder : VisitsPairs order quotes)
    {b : OrderBook} {rawNotes : FiniteMap OrderId Bytes} {now : Nat} {result : TrySend}
    {item : RoutedNote}
    (hitem : item ∈ (externalPass b rawNotes quotes order now result).sentItems) :
    ∃ q ∈ (quotes.lookup item.pair).getD [], item.AgainstQuote q := by
  rcases sentItems_externalPass b rawNotes quotes order now result with hsent | hsent
  · rw [hsent, routeExternal_eq rawNotes horder, routePicks_fst] at hitem
    obtain ⟨k, hk, -, hdex, -, hpair, hserial, -⟩ := mem_handover_noteId hitem
    obtain ⟨pair, -, hk⟩ := List.mem_flatMap.mp hk
    obtain ⟨-, -, -, -, hk_pair⟩ := matchNotes_mem hk
    obtain ⟨e, he, hk_dex, hk_serial⟩ := matchNotes_quote hk
    obtain ⟨q, hq, rfl⟩ := List.mem_map.mp he
    rw [hpair, hk_pair]
    exact ⟨q, hq, hdex.trans hk_dex, hserial.trans hk_serial⟩
  · rw [hsent] at hitem
    cases hitem

end Pass

/-! ## Whole runs -/

/-- The invariant: quotes are posted with their own serials, every snapshot is one of posted
quotes, and no posted quote is overdrawn. -/
structure CapacityInv (history : List (Routing × RoutingEvent)) (s : Routing) : Prop where
  inv : s.router.Inv
  serials : ∀ q ∈ posted history, q.serial < s.router.nextSerial
  unique : UniqueSerials (posted history)
  stored : ∀ {dex pair q}, quoteAt s.router.quotes dex pair = some q → q ∈ posted history
  snapshots : s.router.board.All (Proper (posted history))
  known : ∀ item ∈ handed history, ∃ q ∈ posted history, item.AgainstQuote q ∧ item.pair = q.pair
  kept : ∀ q ∈ posted history, drawn q.serial (handed history) ≤ q.supply

theorem capacityInv_boot (feed : PriceFeed) (triangularEnabled : Bool)
    (hooks : Option RouterHooks) : CapacityInv [] (Routing.boot feed triangularEnabled hooks) where
  inv := RouterState.inv_new
  serials := fun _ h => absurd h List.not_mem_nil
  unique := fun _ h => absurd h List.not_mem_nil
  stored := fun h => by cases h
  snapshots := ⟨⟨fun _ => List.nodup_nil, fun _ _ h => absurd h List.not_mem_nil⟩,
    fun _ h => absurd h List.not_mem_nil⟩
  known := fun _ h => absurd h List.not_mem_nil
  kept := fun _ h => absurd h List.not_mem_nil

theorem posted_concat (history : List (Routing × RoutingEvent)) (x : Routing × RoutingEvent) :
    posted (history ++ [x]) = posted history ++ x.2.posts := by
  rw [posted, List.flatMap_append, List.flatMap_singleton]
  rfl

theorem handed_concat (history : List (Routing × RoutingEvent)) (x : Routing × RoutingEvent) :
    handed (history ++ [x]) = handed history ++ x.2.hands := by
  rw [handed, List.flatMap_append, List.flatMap_singleton]
  rfl

theorem handed_append (history history' : List (Routing × RoutingEvent)) :
    handed (history ++ history') = handed history ++ handed history' := List.flatMap_append

theorem mem_posts_router {e : RouterEvent} {q : Quote} :
    q ∈ (RoutingEvent.router e).posts ↔ e = .register q := by
  cases e with
  | register q' => simp [RoutingEvent.posts, eq_comm]
  | _ => simp [RoutingEvent.posts]

section Step
variable {quoteTtlMs : Nat} {s s' : Routing} {history : List (Routing × RoutingEvent)}

/-- A snapshot of posted quotes that are stored under their DEX and pair is proper. -/
theorem proper_of_snapshotOf {quotes : Quotes} {snap : QuotesSnapshot} {posted : List Quote}
    (hsnap : SnapshotOf quotes snap)
    (hstored : ∀ {dex pair q}, quoteAt quotes dex pair = some q →
      q.dex = dex ∧ q.pair = pair ∧ q ∈ posted) : Proper posted snap where
  nodup := fun pair => by
    obtain ⟨entries, ⟨hnodup, hentries⟩, rfl⟩ := hsnap
    rw [lookup_snapshot, (List.perm_insertionSort _ _).nodup_iff]
    -- two quotes under one pair are of different DEXes
    refine List.Nodup.map_on ?_ (hnodup.of_map.filter _)
    rintro ⟨⟨d₁, p₁⟩, q₁⟩ h₁ ⟨⟨d₂, p₂⟩, q₂⟩ h₂ (rfl : q₁ = q₂)
    obtain ⟨rfl, rfl, -⟩ := hstored ((hentries (d₁, p₁) q₁).mp (List.mem_filter.mp h₁).1)
    obtain ⟨rfl, rfl, -⟩ := hstored ((hentries (d₂, p₂) q₁).mp (List.mem_filter.mp h₂).1)
    rfl
  listed := fun pair q hq => by
    obtain ⟨dex, hat⟩ := hsnap.mem.mp hq
    exact (hstored hat).2

/-- A step of the router. -/
theorem CapacityInv.router {e : RouterEvent} {r' : RouterState} (h : CapacityInv history s)
    (hstep : RouterState.Step quoteTtlMs s.router e r') (hrouter : s'.router = r') :
    CapacityInv (history ++ [(s, .router e)]) s' := by
  subst hrouter
  have hhanded : handed (history ++ [(s, .router e)]) = handed history := by
    rw [handed_concat]
    exact List.append_nil _
  have hsub : ∀ {q}, q ∈ posted history → q ∈ posted (history ++ [(s, .router e)]) := by
    intro q hq
    rw [posted_concat]
    exact List.mem_append_left _ hq
  have hnew : ∀ {q}, q ∈ posted (history ++ [(s, .router e)]) →
      q ∈ posted history ∨ e = .register q := by
    intro q hq
    rw [posted_concat] at hq
    exact (List.mem_append.mp hq).imp_right mem_posts_router.mp
  have hserial := hstep.nextSerial
  refine ⟨h.inv.step hstep, fun q hq => ?_, fun q hq q' hq' hs => ?_,
    fun {dex pair q} hat => ?_, ?_, fun item hitem => ?_, fun q hq => ?_⟩
  · rcases hnew hq with hold | he
    · exact (h.serials q hold).trans_le hserial.1
    · exact (hserial.2 q he).1 ▸ (hserial.2 q he).2
  · -- a new serial is none of the old ones
    rcases hnew hq with hold | he
    · rcases hnew hq' with hold' | he'
      · exact h.unique q hold q' hold' hs
      · have := h.serials q hold
        have := (hserial.2 q' he').1
        omega
    · rcases hnew hq' with hold' | he'
      · have := h.serials q' hold'
        have := (hserial.2 q he).1
        omega
      · cases he.symm.trans he'
        rfl
  · rcases hstep.quoteAt_origin hat with hold | ⟨he, -⟩
    · exact hsub (h.stored hold)
    · rw [posted_concat]
      exact List.mem_append_right _ (mem_posts_router.mpr he)
  · have hall : s'.router.board.All (Proper (posted history)) :=
      hstep.all h.snapshots fun hsnap => proper_of_snapshotOf hsnap fun hat =>
        ⟨(h.inv.stored hat).1, (h.inv.stored hat).2.1, h.stored hat⟩
    exact hall.mono fun hp => ⟨hp.nodup, fun pair q hq =>
      ⟨(hp.listed pair q hq).1, hsub (hp.listed pair q hq).2⟩⟩
  · rw [hhanded] at hitem
    obtain ⟨q, hq, hagainst⟩ := h.known item hitem
    exact ⟨q, hsub hq, hagainst⟩
  · rw [hhanded]
    rcases hnew hq with hold | he
    · exact h.kept q hold
    · have hzero : drawn q.serial (handed history) = 0 := drawn_eq_zero fun item hitem => by
        obtain ⟨q', hq', hagainst, -⟩ := h.known item hitem
        have hlt := h.serials q' hq'
        have hnext := (hserial.2 q he).1
        rw [hagainst.2]
        omega
      omega

/-- What a step of the matcher hands over is what its external pass sends. -/
theorem hands_matcher {e : MatcherEvent} {i : MatcherInputs} {m m' : Matcher}
    (hstep : Matcher.Step i m e m') : (RoutingEvent.matcher e).hands = [] ∨
      ∃ batch order result, e = .route batch ∧ VisitsPairs order i.quotes ∧
        (RoutingEvent.matcher e).hands = (m.externalPass i.quotes order result).sentItems := by
  cases hstep with
  | @route _ order result _ _ horder =>
    refine Or.inr ⟨_, order, result, rfl, horder, ?_⟩
    rw [RoutingEvent.hands, PassResult.sentItems]
    cases (m.externalPass i.quotes order result).sent with
    | none => rfl
    | some batch => exact List.append_nil _
  | hydrate _ _ => exact Or.inl rfl
  | stop _ => exact Or.inl rfl
  | wake _ => exact Or.inl rfl
  | consume _ _ => exact Or.inl rfl
  | consumedEmpty _ => exact Or.inl rfl
  | receive _ _ => exact Or.inl rfl
  | ordersEmpty _ => exact Or.inl rfl
  | execute _ _ => exact Or.inl rfl
  | noRouter _ _ => exact Or.inl rfl

/-- What a step of the matcher hands over is selected against posted quotes, and overdraws
none. -/
theorem CapacityInv.pass {e : MatcherEvent} {i : MatcherInputs} {m' : Matcher}
    (h : CapacityInv history s) (hguard : FreshQuotes history s (.matcher e))
    (hreads : i.quotes = s.router.published) (hstep : Matcher.Step i s.matcher e m') :
    (∀ item ∈ (RoutingEvent.matcher e).hands,
      ∃ q ∈ posted history, item.AgainstQuote q ∧ item.pair = q.pair) ∧
    ∀ q ∈ posted history,
      drawn q.serial (handed history ++ (RoutingEvent.matcher e).hands) ≤ q.supply := by
  obtain hnone | ⟨batch, order, result, rfl, horder, hhands⟩ := hands_matcher hstep
  · rw [hnone, List.append_nil]
    exact ⟨fun _ hitem => absurd hitem List.not_mem_nil, h.kept⟩
  rw [hhands]
  rw [hreads] at horder ⊢
  have hproper : Proper (posted history) s.router.published := h.snapshots.1
  constructor
  · intro item hitem
    obtain ⟨q, hq, hagainst⟩ := quote_of_mem_externalPass horder hitem
    obtain ⟨hpair, hposted⟩ := hproper.listed _ q hq
    exact ⟨q, hposted, hagainst, hpair.symm⟩
  · intro q hq
    have hle := drawn_externalPass_le hproper h.unique hq horder s.matcher.book s.matcher.rawNotes
      s.matcher.lastNow result
    rw [drawn_append]
    by_cases hlisted : q ∈ s.router.publishedFor q.pair
    · -- the quote is read, so nothing was drawn from it before
      have hzero : drawn q.serial (handed history) = 0 :=
        drawn_eq_zero (hguard batch rfl q.pair q hlisted)
      have hcount : (s.router.publishedFor q.pair).count q ≤ 1 :=
        List.nodup_iff_count_le_one.mp (hproper.nodup q.pair) q
      rw [hzero, Nat.zero_add]
      exact hle.trans ((Nat.mul_le_mul_right _ hcount).trans (Nat.one_mul _).le)
    · -- it is not read, so nothing is drawn from it now
      have hcount : (s.router.publishedFor q.pair).count q = 0 := List.count_eq_zero.mpr hlisted
      have hkept := h.kept q hq
      have hnow :
          drawn q.serial (s.matcher.externalPass s.router.published order result).sentItems ≤
          (s.router.publishedFor q.pair).count q * q.supply := hle
      rw [hcount, Nat.zero_mul] at hnow
      omega

/-- A step of the matcher. -/
theorem CapacityInv.matcher {e : MatcherEvent} {i : MatcherInputs} {m' : Matcher}
    (h : CapacityInv history s) (hguard : FreshQuotes history s (.matcher e))
    (hreads : i.quotes = s.router.published) (hstep : Matcher.Step i s.matcher e m')
    (hrouter : s'.router = s.router) : CapacityInv (history ++ [(s, .matcher e)]) s' := by
  have hposted : posted (history ++ [(s, .matcher e)]) = posted history := by
    rw [posted_concat]
    exact List.append_nil _
  have hserials : s'.router.nextSerial = s.router.nextSerial := congrArg _ hrouter
  obtain ⟨hknown, hkept⟩ := h.pass hguard hreads hstep
  refine ⟨hrouter ▸ h.inv, ?_, ?_, ?_, ?_, ?_, ?_⟩
  · rw [hposted, hserials]
    exact h.serials
  · rw [hposted]
    exact h.unique
  · rw [hposted, hrouter]
    exact h.stored
  · rw [hposted, hrouter]
    exact h.snapshots
  · rw [handed_concat, hposted]
    intro item hitem
    exact (List.mem_append.mp hitem).elim (h.known item) (hknown item)
  · rw [hposted, handed_concat]
    exact hkept

/-- **One step.** -/
theorem CapacityInv.step {e : RoutingEvent} (h : CapacityInv history s)
    (hguard : FreshQuotes history s e) (hstep : Routing.Step quoteTtlMs s e s') :
    CapacityInv (history ++ [(s, e)]) s' := by
  cases hstep with
  | matcher reads step => exact h.matcher hguard reads step rfl
  | router _ step => exact h.router step rfl
  | deliver _ step => exact h.router step rfl

end Step

/-- **A quote's capacity is handed out once, if the matcher reads no used quote.**  Whatever
the interleaving of registrations, ticks and deliveries: if every external pass of the run
reads fresh quotes only, then what all batches draw from a posted quote is at most its
supply. -/
theorem quote_capacity_kept (quoteTtlMs : Nat) (feed : PriceFeed) (triangularEnabled : Bool)
    (hooks : Option RouterHooks) {history : List (Routing × RoutingEvent)} {s : Routing}
    (hrun : Run (Routing.Step quoteTtlMs) FreshQuotes (Routing.boot feed triangularEnabled hooks)
      history s) : ∀ q ∈ posted history, drawn q.serial (handed history) ≤ q.supply := by
  have hinv : CapacityInv history s := hrun.invariant
    (capacityInv_boot feed triangularEnabled hooks)
    fun hinv hguard hstep => hinv.step hguard hstep
  exact hinv.kept

/-! ## A matcher that waits for the router

The condition is met when the external pass waits for the router: a batch uses its quotes
up before the router's calls return, and the snapshot published by then has none of them. -/

/-- Snapshots are sent in order, and an external pass starts only when the router has taken
every batch and all its calls have returned. -/
def Synchronised : Guard Routing RoutingEvent := fun _ s e =>
  (∀ c, e = .router (.publish (.send c)) → s.router.board.Next c) ∧
  ∀ batch, e = .matcher (.route batch) → s.routeCh = [] ∧ s.router.Quiet

/-- An item is in the route channel, in a delivery, or its quote is used up. -/
def Tracked (s : Routing) (item : RoutedNote) : Prop :=
  (∃ batch ∈ s.routeCh, item ∈ batch.items) ∨
  (∃ task batch, .delivered task batch ∈ s.router.midway ∧ item ∈ batch.items) ∨
  ∀ dex pair q, quoteAt s.router.quotes dex pair = some q → q.serial ≠ item.serial

/-- The invariant of synchronised runs. -/
structure SyncInv (history : List (Routing × RoutingEvent)) (s : Routing) : Prop where
  capacity : CapacityInv history s
  upToDate : s.router.board.UpToDate SnapshotOf
  tracked : ∀ item ∈ handed history, Tracked s item

theorem syncInv_boot (feed : PriceFeed) (triangularEnabled : Bool) (hooks : Option RouterHooks) :
    SyncInv [] (Routing.boot feed triangularEnabled hooks) where
  capacity := capacityInv_boot feed triangularEnabled hooks
  upToDate := updateInv_new.upToDate
  tracked := fun _ h => absurd h List.not_mem_nil

section Synchronised
variable {quoteTtlMs : Nat} {s s' : Routing} {history : List (Routing × RoutingEvent)}
  {e : RoutingEvent}

/-- A pass that waits reads no used quote. -/
theorem SyncInv.fresh (h : SyncInv history s) (hsync : Synchronised history s e) :
    FreshQuotes history s e := by
  intro batch he pair q hq item hitem hserial
  obtain ⟨hch, hmidway, hsettled⟩ := hsync.2 batch he
  obtain ⟨dex, hat⟩ := (h.upToDate.published hsettled).mem.mp hq
  rcases h.tracked item hitem with ⟨b, hb, -⟩ | ⟨task, b, hb, -⟩ | hgone
  · rw [hch] at hb
    cases hb
  · rw [hmidway] at hb
    cases hb
  · exact hgone dex pair q hat hserial.symm

/-- A delivery uses up the quotes its items were selected against. -/
theorem CapacityInv.usedUp (h : CapacityInv history s) {task : Nat} {batch : RouteBatch}
    {item : RoutedNote} {r' : RouterState}
    (hstep : RouterState.Step quoteTtlMs s.router (.consume task batch) r')
    (hbatch : item ∈ batch.items) (hitem : item ∈ handed history) (dex : DexId) (pair : Pair)
    (q : Quote) (hat : quoteAt r'.quotes dex pair = some q) : q.serial ≠ item.serial := by
  intro hserial
  obtain ⟨q', hq', ⟨hdex, hserial'⟩, hpair⟩ := h.known item hitem
  rw [hstep.quoteAt_consume] at hat
  split at hat
  · cases hat
  · rename_i hnone
    -- the serial tells which quote it is, and so where it was stored
    obtain ⟨hd, hp, -⟩ := h.inv.stored hat
    have heq : q = q' := h.unique q' hq' q (h.stored hat) (hserial.trans hserial')
    exact hnone ⟨item, hbatch, by rw [hdex, ← heq, hd], by rw [hpair, ← heq, hp]⟩

/-- A step of the router keeps track of an item. -/
theorem Tracked.router {re : RouterEvent} {r' : RouterState} {item : RoutedNote}
    (hcap : CapacityInv history s) (hitem : item ∈ handed history) (h : Tracked s item)
    (hstep : RouterState.Step quoteTtlMs s.router re r') (hrouter : s'.router = r')
    (hch : ∀ batch ∈ s.routeCh, batch ∈ s'.routeCh ∨ ∃ task, re = .deliver task batch) :
    Tracked s' item := by
  subst hrouter
  rcases h with ⟨batch, hbatch, hmem⟩ | ⟨task, batch, hmid, hmem⟩ | hgone
  · rcases hch batch hbatch with hbatch | ⟨task, rfl⟩
    · exact Or.inl ⟨batch, hbatch, hmem⟩
    · exact Or.inr (Or.inl ⟨task, batch, hstep.delivered_mem, hmem⟩)
  · rcases hstep.midway hmid with hmid | ⟨task', batch', heq, rfl⟩ | ⟨dex, heq, -⟩
    · exact Or.inr (Or.inl ⟨task, batch, hmid, hmem⟩)
    · cases heq
      exact Or.inr (Or.inr (hcap.usedUp hstep hmem hitem))
    · cases heq
  · refine Or.inr (Or.inr fun dex pair q hat => ?_)
    rcases hstep.quoteAt_origin hat with hold | ⟨he, -⟩
    · exact hgone dex pair q hold
    · obtain ⟨q', hq', ⟨-, hserial⟩, -⟩ := hcap.known item hitem
      have hlt := hcap.serials q' hq'
      rw [hserial, (hstep.nextSerial.2 q he).1]
      omega

/-- **One step of a synchronised run.** -/
theorem SyncInv.step (h : SyncInv history s) (hsync : Synchronised history s e)
    (hstep : Routing.Step quoteTtlMs s e s') : SyncInv (history ++ [(s, e)]) s' := by
  have hcap := h.capacity.step (h.fresh hsync) hstep
  have hrouterHands : ∀ re, handed (history ++ [(s, .router re)]) = handed history := by
    intro re
    rw [handed_concat]
    exact List.append_nil _
  cases hstep with
  | @matcher i me m' reads step =>
    refine ⟨hcap, h.upToDate, fun item hitem => ?_⟩
    rw [handed_concat] at hitem
    rcases List.mem_append.mp hitem with hitem | hitem
    · exact (h.tracked item hitem).imp_left fun ⟨batch, hb, hmem⟩ =>
        ⟨batch, List.mem_append_left _ hb, hmem⟩
    · obtain ⟨batch, hb, hmem⟩ := List.mem_flatMap.mp hitem
      exact Or.inl ⟨batch, List.mem_append_right _ hb, hmem⟩
  | @router re r' own step =>
    refine ⟨hcap, upToDate_step h.upToDate (fun c hc => hsync.1 c (congrArg _ hc)) step,
      fun item hitem => ?_⟩
    rw [hrouterHands] at hitem
    exact (h.tracked item hitem).router h.capacity hitem step rfl fun batch hb => Or.inl hb
  | @deliver task batch rest r' queued step =>
    refine ⟨hcap, upToDate_step h.upToDate (fun c hc => hsync.1 c (congrArg _ hc)) step,
      fun item hitem => ?_⟩
    rw [hrouterHands] at hitem
    refine (h.tracked item hitem).router h.capacity hitem step rfl fun b hb => ?_
    rw [queued] at hb
    rcases List.mem_cons.mp hb with rfl | hb
    · exact Or.inr ⟨task, rfl⟩
    · exact Or.inl hb

end Synchronised

/-- **Waiting for the router is enough**: a synchronised run reads fresh quotes only. -/
theorem fresh_of_synchronised (quoteTtlMs : Nat) (feed : PriceFeed) (triangularEnabled : Bool)
    (hooks : Option RouterHooks) {history : List (Routing × RoutingEvent)} {s : Routing}
    (hrun : Run (Routing.Step quoteTtlMs) Synchronised (Routing.boot feed triangularEnabled hooks)
      history s) :
    Run (Routing.Step quoteTtlMs) FreshQuotes (Routing.boot feed triangularEnabled hooks)
      history s := by
  induction hrun with
  | start => exact .start
  | step run meets step ih =>
    have hinv : SyncInv _ _ := run.invariant (syncInv_boot feed triangularEnabled hooks)
      fun hinv hsync hstep => hinv.step hsync hstep
    exact ih.step (hinv.fresh meets) step

/-! ### Capacity handed out twice

One quote with room for one note, two notes, and two ticks before the router delivers
the first batch. -/

/-- No external pass. -/
def NoPass (history : List (Routing × RoutingEvent)) : Prop :=
  ∀ x ∈ history, ∀ batch, x.2 ≠ .matcher (.route batch)

theorem handed_of_noPass {history : List (Routing × RoutingEvent)} (h : NoPass history) :
    handed history = [] := by
  refine List.flatMap_eq_nil_iff.mpr fun x hx => ?_
  have hx := h x hx
  obtain ⟨s, e⟩ := x
  cases e with
  | router e => rfl
  | matcher e =>
    cases e with
    | route batch => exact absurd rfl (hx batch)
    | _ => rfl

/-- A quiet tick up to its external pass. -/
theorem quiet_until_pass (quoteTtlMs : Nat) {s : Routing} {i : MatcherInputs} {order : List Pair}
    (hreads : i.quotes = s.router.published) (h : s.matcher.Quiet i order) :
    ∃ history, Run (Routing.Step quoteTtlMs) unguarded s history
      { s with matcher := s.matcher.unmatched i } ∧ NoPass history := by
  have h₁ : Run (Routing.Step quoteTtlMs) unguarded s _ _ :=
    Run.single (.matcher_alone hreads (.wake h.idle) rfl)
  have h₂ := h₁.step trivial (.matcher_alone hreads (.consumedEmpty rfl) rfl)
  have h₃ := h₂.step trivial (.matcher_alone hreads (.ordersEmpty rfl) rfl)
  have h₄ := h₃.step trivial (.matcher_alone hreads (.execute h.swept h.internalMatch) rfl)
  refine ⟨_, h₄, fun x hx batch hroute => ?_⟩
  simp only [List.cons_append, List.nil_append, List.mem_cons, List.not_mem_nil, or_false] at hx
  rcases hx with rfl | rfl | rfl | rfl
  all_goals cases hroute

/-- The external pass of a quiet tick that hands a batch over. -/
theorem quiet_pass (quoteTtlMs : Nat) {s : Routing} {i : MatcherInputs} {order : List Pair}
    {batch : RouteBatch} (hreads : i.quotes = s.router.published) (h : s.matcher.Quiet i order)
    (hsent : (s.matcher.quietPass i order .ok).sent = some batch) :
    Routing.Step quoteTtlMs { s with matcher := s.matcher.unmatched i }
      (.matcher (.route (some batch)))
      { s with
        matcher := s.matcher.quietTick i order .ok
        routeCh := s.routeCh ++ [batch] } := by
  obtain ⟨r, hr⟩ := Option.isSome_iff_exists.mp h.router
  have hroute : Matcher.Step i (s.matcher.unmatched i)
      (.route (s.matcher.quietPass i order .ok).sent) (s.matcher.quietTick i order .ok) :=
    .route .ok rfl hr h.visits
  rw [hsent] at hroute
  exact .matcher hreads hroute

/-- A second note like `loadedNote`. -/
def secondNote : IngestOrder := { loadedNote with noteId := 2 }

/-- The matcher with both notes loaded at boot. -/
def twoNotes : Matcher :=
  (Matcher.new (fun _ => none) false (some ⟨100⟩)).hydrate 0 [loadedNote, secondNote]

/-- What the matcher reads when the first quote is published. -/
def readsFirst (now : Nat) : MatcherInputs := ⟨fun _ => none, snapshot firstEntry, now, 0⟩

/-- The quote is published and the notes are loaded. -/
def quoted : Routing where
  router :=
    { board := ⟨insertQuote ∅ (postedQuote 1 0), [], [], snapshot firstEntry⟩
      conns := Finmap.insert 1 [.authOk] ∅
      nextDex := 2
      nextSerial := 1
      midway := [] }
  matcher := twoNotes
  routeCh := []

theorem quoted_reached : ∃ history, Run (Routing.Step 1000) unguarded
    (Routing.boot (fun _ => none) false (some ⟨100⟩)) history quoted ∧ NoPass history ∧
      postedQuote 1 0 ∈ posted history := by
  have h₁ : Run (Routing.Step 1000) unguarded
      (Routing.boot (fun _ => none) false (some ⟨100⟩)) _ _ :=
    Run.single (.router (by nofun) .connect)
  have h₂ := h₁.step trivial (.router (by nofun) (@RouterState.Step.register 1000 _ 1 (.ok parMsg) 0
    (postedQuote 1 0) (by decide) (by decide) rfl))
  have h₃ := h₂.step trivial (.router (by nofun) (.publish (.compute (show _ = [] ++ _ from rfl)
    ⟨_, visits_first, rfl⟩)))
  have h₄ := h₃.step trivial (.router (by nofun) (.publish (.send (show _ = [] ++ _ from rfl)
    (by decide))))
  have h₅ := h₄.step trivial (.matcher_alone (i := readsFirst 0) rfl
    (.hydrate [loadedNote, secondNote] rfl) rfl)
  refine ⟨_, h₅, fun x hx batch hroute => ?_, ?_⟩
  · simp only [List.cons_append, List.nil_append, List.mem_cons, List.not_mem_nil, or_false] at hx
    rcases hx with rfl | rfl | rfl | rfl | rfl
    all_goals cases hroute
  · simp [posted, RoutingEvent.posts]

/-- The batch of one note. -/
def batchOf (note : OrderId) : RouteBatch := ⟨[⟨1, note, 10, (1, 2), [], 0⟩]⟩

/-- The first note is handed over, and the router has not taken the batch. -/
def firstHanded : Routing :=
  { quoted with
    matcher := twoNotes.quietTick (readsFirst 50) [(1, 2)] .ok
    routeCh := [batchOf 1] }

theorem quoted_quiet : quoted.matcher.Quiet (readsFirst 50) [(1, 2)] :=
  ⟨rfl, rfl, rfl, rfl, by decide, by decide, by decide, by decide⟩

theorem firstHanded_quiet : firstHanded.matcher.Quiet (readsFirst 60) [(1, 2)] :=
  ⟨rfl, rfl, rfl, rfl, by decide, by decide, by decide, by decide⟩

/-- **A quote of 10 is used for 20.**  The first tick hands note 1 over; the second reads the
same snapshot, as the router has not yet taken the batch, and hands note 2 over. -/
theorem capacity_handed_out_twice :
    ∃ history, ∃ s : Routing, Run (Routing.Step 1000) unguarded
      (Routing.boot (fun _ => none) false (some ⟨100⟩)) history s ∧
      postedQuote 1 0 ∈ posted history ∧ (postedQuote 1 0).supply = 10 ∧
      drawn (postedQuote 1 0).serial (handed history) = 20 := by
  obtain ⟨setup, h₁, hsetup, hposted⟩ := quoted_reached
  obtain ⟨tick₁, h₂, htick₁⟩ := quiet_until_pass 1000 rfl quoted_quiet
  have h₃ := (h₁.append h₂).step trivial
    (quiet_pass 1000 rfl quoted_quiet (show _ = some (batchOf 1) by decide))
  obtain ⟨tick₂, h₄, htick₂⟩ := quiet_until_pass 1000 rfl firstHanded_quiet
  have h₅ := (Run.append (s := firstHanded) h₃ h₄).step trivial
    (quiet_pass 1000 rfl firstHanded_quiet (show _ = some (batchOf 2) by decide))
  refine ⟨_, _, h₅, ?_, rfl, ?_⟩
  · obtain ⟨x, hx, hq⟩ := List.mem_flatMap.mp hposted
    exact List.mem_flatMap.mpr ⟨x, by simp [hx], hq⟩
  · rw [handed_concat, handed_append, handed_concat, handed_append, handed_of_noPass hsetup,
      handed_of_noPass htick₁, handed_of_noPass htick₂]
    decide

/-- A first tick within the capacity: the quote is fresh, and 10 of its 10 are drawn. -/
theorem quote_capacity_kept_once :
    ∃ history, ∃ s : Routing, Run (Routing.Step 1000) FreshQuotes
      (Routing.boot (fun _ => none) false (some ⟨100⟩)) history s ∧
      drawn (postedQuote 1 0).serial (handed history) = 10 ∧
      ∀ q ∈ posted history, drawn q.serial (handed history) ≤ q.supply := by
  obtain ⟨setup, h₁, hsetup, -⟩ := quoted_reached
  obtain ⟨tick, h₂, htick⟩ := quiet_until_pass 1000 rfl quoted_quiet
  have hmeets : Meets FreshQuotes [] (setup ++ tick) := by
    refine meets_of_forall fun x hx _ batch hroute => ?_
    rcases List.mem_append.mp hx with hx | hx
    · exact absurd hroute (hsetup x hx batch)
    · exact absurd hroute (htick x hx batch)
  have hnone : handed (setup ++ tick) = [] := by
    rw [handed_append, handed_of_noPass hsetup, handed_of_noPass htick]
    rfl
  have hfresh : FreshQuotes (setup ++ tick)
      { quoted with matcher := quoted.matcher.unmatched (readsFirst 50) }
      (.matcher (.route (some (batchOf 1)))) := by
    intro _ _ _ _ _ item hitem
    rw [hnone] at hitem
    cases hitem
  have h₃ := ((h₁.append h₂).guarded hmeets).step hfresh
    (quiet_pass 1000 rfl quoted_quiet (by decide))
  refine ⟨_, _, h₃, ?_, quote_capacity_kept 1000 _ _ _ h₃⟩
  rw [handed_concat, hnone]
  decide

end PswapSolver
