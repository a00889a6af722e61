import PswapSolver.ExternalPass

/-! # The matcher

The model of `run_matcher` and `internal_match` in `matcher/matcher.rs`.  A tick goes
through phases: drain the consumed notes, drain the new orders and reactivate what
timed out, match internally, route externally.  Other tasks may act between any two
receptions and between any two phases, so each of these is a step of its own, and a
step is labelled with what the matcher exchanges with the outside (`MatcherEvent`).
What it reads from the watch channels and the clocks are the step's inputs.
-/
namespace PswapSolver

/-- The part of the router hooks that is not a channel. -/
structure RouterHooks where
  inflightTtlMs : Nat
deriving DecidableEq

/-- Where the matcher stands in its loop. -/
inductive Phase where
  | booting
  | idle
  | consuming
  | receiving
  | matching
  | routing
  | stopped
deriving DecidableEq

/-- The matcher's state. -/
structure Matcher where
  book : OrderBook
  rawNotes : FiniteMap OrderId Bytes
  arrivals : FiniteMap OrderId Nat
  triangularEnabled : Bool
  router : Option RouterHooks
  lastNow : Nat
  phase : Phase

/-- What the matcher reads from the watch channels and the clocks. -/
structure MatcherInputs where
  feed : PriceFeed
  quotes : QuotesSnapshot
  nowMillis : Nat
  nowUnix : Nat

/-- What the matcher exchanges with the other tasks. -/
inductive MatcherEvent where
  | hydrate (loaded : List IngestOrder)
  | wake
  | consume (id : OrderId)
  | consumedEmpty
  | receive (order : IngestOrder)
  | ordersEmpty
  | execute (batch : Option ExecutionBatch)
  | route (batch : Option RouteBatch)
  | stop
deriving DecidableEq

namespace Matcher

/-- The matcher before its book is hydrated. -/
def new (feed : PriceFeed) (triangularEnabled : Bool) (router : Option RouterHooks) : Matcher where
  book := OrderBook.new feed
  rawNotes := ∅
  arrivals := ∅
  triangularEnabled := triangularEnabled
  router := router
  lastNow := 0
  phase := .booting

variable (m : Matcher)

/-- Adds one order loaded from the database. -/
def hydrateOrder (nowUnix : Nat) (order : IngestOrder) : Matcher :=
  { m with
    book := m.book.addUserOrder order.noteId order.terms
    arrivals := m.arrivals.insert order.noteId nowUnix
    rawNotes := m.rawNotes.insert order.noteId order.rawNoteData }

/-- Hydrates the book; `loaded` is empty when the query failed. -/
def hydrate (nowUnix : Nat) (loaded : List IngestOrder) : Matcher :=
  { loaded.foldl (fun m order => m.hydrateOrder nowUnix order) m with phase := .idle }

/-- The start of a tick: the clock is clamped, since it can step backwards. -/
def wake (nowMillis : Nat) : Matcher :=
  { m with lastNow := max m.lastNow nowMillis, phase := .consuming }

/-- Drops a note the book should no longer hold. -/
def dropNote (id : OrderId) : Matcher :=
  { m with
    book := m.book.removeOrder id
    rawNotes := m.rawNotes.erase id
    arrivals := m.arrivals.erase id }

/-- Adds an order received from the channel; a known arrival time is kept. -/
def receive (nowUnix : Nat) (order : IngestOrder) : Matcher :=
  { m with
    book := m.book.addUserOrder order.noteId order.terms
    arrivals := m.arrivals.insert order.noteId ((m.arrivals.lookup order.noteId).getD nowUnix)
    rawNotes := m.rawNotes.insert order.noteId order.rawNoteData }

/-- Reactivates the parked notes whose window is over. -/
def reactivate : Matcher :=
  match m.router with
  | none => { m with phase := .matching }
  | some r =>
    { m with
      book := (m.book.reactivateParkedOlderThan r.inflightTtlMs m.lastNow).2
      phase := .matching }

end Matcher

/-! ## Internal matching -/

/-- The notes of a batch: every filled order whose raw bytes are known, with all it
received. -/
def filledNotes (book : OrderBook) (rawNotes : FiniteMap OrderId Bytes)
    (arrivals : FiniteMap OrderId Nat) (nowUnix : Nat) (filledOrders : List OrderId) :
    List FilledNote :=
  filledOrders.filterMap fun orderId =>
    (rawNotes.lookup orderId).map fun rawNoteData =>
      { noteId := orderId
        requestedFilled := ((book.orders.lookup orderId).map Order.requestedFilled).getD 0
        rawNoteData := rawNoteData
        arrivalUnix := (arrivals.lookup orderId).getD nowUnix }

theorem mem_filledNotes {b : OrderBook} {rawNotes : FiniteMap OrderId Bytes}
    {arrivals : FiniteMap OrderId Nat} {nowUnix : Nat} {filled : FilledNote} {ids : List OrderId}
    (h : filled ∈ filledNotes b rawNotes arrivals nowUnix ids) :
    filled.noteId ∈ ids ∧ rawNotes.lookup filled.noteId = some filled.rawNoteData ∧
      filled.requestedFilled =
        ((b.orders.lookup filled.noteId).map Order.requestedFilled).getD 0 := by
  obtain ⟨id, hid, hsome⟩ := List.mem_filterMap.mp h
  obtain ⟨raw, hraw, rfl⟩ := Option.map_eq_some_iff.mp hsome
  exact ⟨hid, hraw, rfl⟩

namespace Matcher

/-- The matcher once a batch is with the executor: its orders are dropped and the
balances cleared. -/
def settled (m : Matcher) (book : OrderBook) (filledOrders : List OrderId) : Matcher :=
  let m := filledOrders.foldl dropNote { m with book := book }
  { m with book := { m.book with protocolBalances := ∅ } }

/-- **The outcomes of `internal_match`**: the batch sent, whether the executor's channel
was found closed, and the state left behind. -/
inductive InternalMatch (i : MatcherInputs) (m : Matcher) :
    Option ExecutionBatch → Bool → Matcher → Prop
  | empty (none_left : m.book.orders.keys = ∅) : InternalMatch i m none false m
  | unfilled {p : Progress} (some_left : m.book.orders.keys ≠ ∅)
      (run : EngineRun { m.book with feed := i.feed } m.triangularEnabled p)
      (unfilled : p.filledOrders = ∅) : InternalMatch i m none false { m with book := p.book }
  | sent {p : Progress} {filledOrders : List OrderId} (some_left : m.book.orders.keys ≠ ∅)
      (run : EngineRun { m.book with feed := i.feed } m.triangularEnabled p)
      (filled : p.filledOrders ≠ ∅) (nodup : filledOrders.Nodup)
      (enumerates : filledOrders.toFinset = p.filledOrders) :
      InternalMatch i m
        (some ⟨filledNotes p.book m.rawNotes m.arrivals i.nowUnix filledOrders⟩) false
        (m.settled p.book filledOrders)
  | closed {p : Progress} (some_left : m.book.orders.keys ≠ ∅)
      (run : EngineRun { m.book with feed := i.feed } m.triangularEnabled p)
      (filled : p.filledOrders ≠ ∅) : InternalMatch i m none true { m with book := p.book }

/-- The external pass of this tick. -/
def externalPass (m : Matcher) (quotes : QuotesSnapshot) (order : List Pair) (result : TrySend) :
    PassResult :=
  PswapSolver.externalPass m.book m.rawNotes quotes order m.lastNow result

/-- The matcher after an external pass; a closed channel ends routing for good. -/
def routed (m : Matcher) (pass : PassResult) : Matcher :=
  { m with
    book := pass.book
    router := if pass.closed then none else m.router
    phase := .idle }

/-- **The steps of the matcher.** -/
inductive Step (i : MatcherInputs) : Matcher → MatcherEvent → Matcher → Prop
  | hydrate {m : Matcher} (loaded : List IngestOrder) (phase : m.phase = .booting) :
      Step i m (.hydrate loaded) (m.hydrate i.nowUnix loaded)
  | stop {m : Matcher} (phase : m.phase = .idle) : Step i m .stop { m with phase := .stopped }
  | wake {m : Matcher} (phase : m.phase = .idle) : Step i m .wake (m.wake i.nowMillis)
  | consume {m : Matcher} (id : OrderId) (phase : m.phase = .consuming) :
      Step i m (.consume id) (m.dropNote id)
  | consumedEmpty {m : Matcher} (phase : m.phase = .consuming) :
      Step i m .consumedEmpty { m with phase := .receiving }
  | receive {m : Matcher} (order : IngestOrder) (phase : m.phase = .receiving) :
      Step i m (.receive order) (m.receive i.nowUnix order)
  | ordersEmpty {m : Matcher} (phase : m.phase = .receiving) :
      Step i m .ordersEmpty m.reactivate
  | execute {m m' : Matcher} {batch : Option ExecutionBatch} {closed : Bool}
      (phase : m.phase = .matching) (run : InternalMatch i m batch closed m') :
      Step i m (.execute batch) { m' with phase := if closed then .stopped else .routing }
  | noRouter {m : Matcher} (phase : m.phase = .routing) (router : m.router = none) :
      Step i m (.route none) { m with phase := .idle }
  | route {m : Matcher} {r : RouterHooks} {order : List Pair} (result : TrySend)
      (phase : m.phase = .routing) (router : m.router = some r)
      (order_of : VisitsPairs order i.quotes) :
      Step i m (.route (m.externalPass i.quotes order result).sent)
        (m.routed (m.externalPass i.quotes order result))

end Matcher

/-! ## What a step does to a note

Every later argument about the matcher goes through one inversion of its steps
(`Footprint`): where orders come from and which leave, which notes are emitted, how a
parked note gets free, and how the queue and the clock move. -/

namespace MatcherEvent

/-- The notes the matcher is given. -/
def delivers : MatcherEvent → List OrderId
  | hydrate loaded => loaded.map IngestOrder.noteId
  | receive order => [order.noteId]
  | _ => []

/-- The orders it receives from the channel. -/
def received : MatcherEvent → List IngestOrder
  | receive order => [order]
  | _ => []

/-- The notes it is told to drop. -/
def drops : MatcherEvent → List OrderId
  | consume id => [id]
  | _ => []

/-- The notes it sends to the executor. -/
def executes : MatcherEvent → List OrderId
  | execute (some batch) => batch.ids
  | _ => []

/-- The notes it hands over to DEXes. -/
def handsOver : MatcherEvent → List OrderId
  | route (some batch) => batch.items.map RoutedNote.noteId
  | _ => []

end MatcherEvent

namespace Matcher

/-- The book is one the solver can hold, and no park lies in the future. -/
structure Sound (m : Matcher) : Prop where
  reachable : m.book.Reachable
  queue_le : ∀ x ∈ m.book.parkQueue, x.1 ≤ m.lastNow

/-- **What a step does.** -/
structure Footprint (m : Matcher) (e : MatcherEvent) (m' : Matcher) : Prop where
  sound : m'.Sound
  orders : ∀ {N}, N ∈ m'.book.orders → N ∈ m.book.orders ∨ N ∈ e.delivers
  emitted : ∀ {N}, N ∈ e.executes ∨ N ∈ e.handsOver → N ∈ m.book.orders ∧ N ∉ m.book.parked
  gone : ∀ {N}, N ∈ e.executes ∨ N ∈ e.drops → N ∉ m'.book.orders
  handed : ∀ {N}, N ∈ e.handsOver → N ∈ m'.book.parked
  /-- A parked note stays parked until it is delivered anew, leaves the book, or is swept. -/
  parked : ∀ {N}, N ∈ m.book.parked → N ∉ e.delivers → N ∈ m'.book.orders →
    N ∈ m'.book.parked ∨ (e = .ordersEmpty ∧ ∃ r, m.router = some r ∧
      OrderBook.Expired r.inflightTtlMs m.lastNow m.book.parkQueue N)
  queue : ∀ {x}, x ∈ m'.book.parkQueue → x ∈ m.book.parkQueue ∨ x.1 = m.lastNow
  lastNow : m.lastNow ≤ m'.lastNow
  router : ∀ {r}, m'.router = some r → m.router = some r
  booted : m'.phase ≠ .booting

variable {m m' : Matcher} {i : MatcherInputs} {e : MatcherEvent}

theorem reactivate_of_none (h : m.router = none) :
    m.reactivate = { m with phase := .matching } := by
  rw [reactivate, h]

theorem reactivate_of_some {r : RouterHooks} (h : m.router = some r) : m.reactivate =
    { m with
      book := (m.book.reactivateParkedOlderThan r.inflightTtlMs m.lastNow).2
      phase := .matching } := by
  rw [reactivate, h]

theorem hydrateOrders_spec (nowUnix : Nat) (loaded : List IngestOrder) (hm : m.Sound) :
    let m' := loaded.foldl (fun m order => m.hydrateOrder nowUnix order) m
    m'.Sound ∧
    (∀ {N}, N ∈ m'.book.orders ↔ N ∈ loaded.map IngestOrder.noteId ∨ N ∈ m.book.orders) ∧
    (∀ {N}, N ∉ loaded.map IngestOrder.noteId →
      m'.book.parked.lookup N = m.book.parked.lookup N) ∧
    m'.book.parkQueue = m.book.parkQueue ∧ m'.lastNow = m.lastNow ∧ m'.router = m.router := by
  induction loaded generalizing m with
  | nil => exact ⟨hm, by simp, fun _ => rfl, rfl, rfl, rfl⟩
  | cons o loaded ih =>
    have hm' : (m.hydrateOrder nowUnix o).Sound :=
      ⟨hm.reachable.addUserOrder _ _, by
        simpa only [hydrateOrder, OrderBook.addUserOrder_parkQueue] using hm.queue_le⟩
    obtain ⟨hsound, horders, hparked, hqueue, hnow, hrouter⟩ := ih hm'
    refine ⟨hsound, fun {N} => ?_, fun {N} hN => ?_, ?_, hnow, hrouter⟩
    · rw [List.foldl_cons, horders, hydrateOrder, OrderBook.mem_orders_addUserOrder, List.map_cons,
        List.mem_cons]
      tauto
    · rw [List.map_cons, List.mem_cons, not_or] at hN
      rw [List.foldl_cons, hparked hN.2]
      exact OrderBook.addUserOrder_parked_of_ne _ _ _ hN.1
    · rw [List.foldl_cons, hqueue]
      exact OrderBook.addUserOrder_parkQueue _ _ _

theorem dropNotes_spec (ids : List OrderId) (hm : m.Sound) :
    let m' := ids.foldl dropNote m
    m'.Sound ∧
    (∀ {N}, N ∈ m'.book.orders ↔ N ∉ ids ∧ N ∈ m.book.orders) ∧
    (∀ {N}, N ∉ ids → m'.book.parked.lookup N = m.book.parked.lookup N) ∧
    m'.book.parkQueue = m.book.parkQueue ∧ m'.lastNow = m.lastNow ∧ m'.router = m.router ∧
    m'.phase = m.phase := by
  induction ids generalizing m with
  | nil => exact ⟨hm, by simp, fun _ => rfl, rfl, rfl, rfl, rfl⟩
  | cons id ids ih =>
    have hm' : (m.dropNote id).Sound :=
      ⟨hm.reachable.removeOrder _, by
        simpa only [dropNote, OrderBook.removeOrder_parkQueue] using hm.queue_le⟩
    obtain ⟨hsound, horders, hparked, hqueue, hnow, hrouter, hphase⟩ := ih hm'
    refine ⟨hsound, fun {N} => ?_, fun {N} hN => ?_, ?_, hnow, hrouter, hphase⟩
    · rw [List.foldl_cons, horders, dropNote, OrderBook.mem_orders_removeOrder, List.mem_cons]
      tauto
    · rw [List.mem_cons, not_or] at hN
      rw [List.foldl_cons, hparked hN.2]
      exact OrderBook.removeOrder_parked_of_ne _ _ hN.1
    · rw [List.foldl_cons, hqueue]
      exact OrderBook.removeOrder_parkQueue _ _

/-- An engine run inside the matcher: the orders and the parks are those of the book. -/
theorem run_spec (hm : m.Sound) {p : Progress}
    (hrun : EngineRun { m.book with feed := i.feed } m.triangularEnabled p) :
    ({ m with book := p.book } : Matcher).Sound ∧
    (∀ {N}, N ∈ p.book.orders ↔ N ∈ m.book.orders) ∧ p.book.parked = m.book.parked ∧
    p.book.parkQueue = m.book.parkQueue ∧
    ∀ {N}, N ∈ p.filledOrders → N ∈ m.book.orders ∧ N ∉ m.book.parked := by
  have hreach := hm.reachable.setFeed i.feed
  obtain ⟨-, hadv⟩ := hrun.advance hreach.inv.inStep
  refine ⟨⟨hreach.run hrun, ?_⟩, hadv.mem_orders, hadv.parked, hadv.parkQueue, fun hN => ?_⟩
  · show ∀ x ∈ p.book.parkQueue, _
    rw [hadv.parkQueue]
    exact hm.queue_le
  · exact hadv.filled_visible hN (Finset.notMem_empty _)

/-- **What internal matching does**: the notes of the batch were visible and leave the
book, every other order and every other park stays. -/
theorem InternalMatch.spec {batch : Option ExecutionBatch} {closed : Bool} (hm : m.Sound)
    (h : InternalMatch i m batch closed m') :
    m'.Sound ∧ (∀ {N}, N ∈ m'.book.orders → N ∈ m.book.orders) ∧
    (∀ {N}, N ∈ (MatcherEvent.execute batch).executes →
      (N ∈ m.book.orders ∧ N ∉ m.book.parked) ∧ N ∉ m'.book.orders) ∧
    (∀ {N}, N ∈ m.book.parked → N ∈ m'.book.orders → N ∈ m'.book.parked) ∧
    m'.book.parkQueue = m.book.parkQueue ∧ m'.lastNow = m.lastNow ∧ m'.router = m.router := by
  cases h with
  | empty _ => exact ⟨hm, id, by simp [MatcherEvent.executes], fun h _ => h, rfl, rfl, rfl⟩
  | unfilled _ hrun _ =>
    obtain ⟨hsound, horders, hparked, hqueue, -⟩ := run_spec hm hrun
    exact ⟨hsound, horders.mp, by simp [MatcherEvent.executes], fun h _ => hparked ▸ h, hqueue, rfl,
      rfl⟩
  | closed _ hrun _ =>
    obtain ⟨hsound, horders, hparked, hqueue, -⟩ := run_spec hm hrun
    exact ⟨hsound, horders.mp, by simp [MatcherEvent.executes], fun h _ => hparked ▸ h, hqueue, rfl,
      rfl⟩
  | @sent p filledOrders _ hrun _ _ henum =>
    obtain ⟨hsound, horders, hparked, hqueue, hvisible⟩ := run_spec hm hrun
    obtain ⟨hsound', horders', hparked', hqueue', hnow, hrouter, -⟩ :=
      dropNotes_spec filledOrders hsound
    have hfilled : ∀ {N}, N ∈ filledOrders ↔ N ∈ p.filledOrders := fun {N} => by
      rw [← henum, List.mem_toFinset]
    refine ⟨⟨hsound'.reachable.clearBalances, hsound'.queue_le⟩,
      fun hN => horders.mp (horders'.mp hN).2, fun {N} hN => ?_, fun {N} hN hmem => ?_,
      hqueue'.trans hqueue, hnow, hrouter⟩
    · obtain ⟨filled, hfil, rfl⟩ := List.mem_map.mp hN
      have hid := (mem_filledNotes hfil).1
      exact ⟨hvisible (hfilled.mp hid), fun hc => (horders'.mp hc).1 hid⟩
    · have hid : N ∉ filledOrders := fun hc => (hvisible (hfilled.mp hc)).2 hN
      show N ∈ (filledOrders.foldl dropNote { m with book := p.book }).book.parked
      rw [← Finmap.lookup_isSome, hparked' hid, Finmap.lookup_isSome]
      show N ∈ p.book.parked
      rwa [hparked]

/-- A step that leaves the book alone. -/
theorem Footprint.of_book_eq (hm : m.Sound) (hbook : m'.book = m.book)
    (hnow : m.lastNow ≤ m'.lastNow) (hrouter : m'.router = m.router) (hphase : m'.phase ≠ .booting)
    (hexec : e.executes = []) (hdrops : e.drops = []) (hhands : e.handsOver = []) :
    Footprint m e m' where
  sound := ⟨hbook ▸ hm.reachable, fun x hx => (hm.queue_le x (hbook ▸ hx)).trans hnow⟩
  orders := fun hN => Or.inl (hbook ▸ hN)
  emitted := fun hN => by simp [hexec, hhands] at hN
  gone := fun hN => by simp [hexec, hdrops] at hN
  handed := fun hN => by simp [hhands] at hN
  parked := fun hN _ _ => Or.inl (hbook ▸ hN)
  queue := fun hx => Or.inl (hbook ▸ hx)
  lastNow := hnow
  router := fun hr => hrouter ▸ hr
  booted := hphase

/-! ### One case after the other -/

theorem Footprint.hydrate (hm : m.Sound) (nowUnix : Nat) (loaded : List IngestOrder) :
    Footprint m (.hydrate loaded) (m.hydrate nowUnix loaded) := by
  obtain ⟨hsound, horders, hparked, hqueue, hnow, hrouter⟩ := hydrateOrders_spec nowUnix loaded hm
  refine ⟨⟨hsound.reachable, hsound.queue_le⟩, fun hN => (horders.mp hN).symm,
    by simp [MatcherEvent.executes, MatcherEvent.handsOver],
    by simp [MatcherEvent.executes, MatcherEvent.drops], by simp [MatcherEvent.handsOver],
    fun {N} hN hdel _ => Or.inl ?_, fun hx => Or.inl (hqueue ▸ hx), Nat.le_of_eq hnow.symm,
    fun hr => hrouter ▸ hr, by simp [Matcher.hydrate]⟩
  show N ∈ (loaded.foldl (fun m order => m.hydrateOrder nowUnix order) m).book.parked
  rw [← Finmap.lookup_isSome, hparked hdel, Finmap.lookup_isSome]
  exact hN

theorem Footprint.consume (hm : m.Sound) (id : OrderId) (hphase : m.phase = .consuming) :
    Footprint m (.consume id) (m.dropNote id) := by
  obtain ⟨hsound, horders, hparked, hqueue, hnow, hrouter, hphase'⟩ := dropNotes_spec [id] hm
  refine ⟨hsound, fun hN => Or.inl (horders.mp hN).2,
    by simp [MatcherEvent.executes, MatcherEvent.handsOver], fun {N} hN hc => ?_,
    by simp [MatcherEvent.handsOver], fun {N} hN _ hmem => Or.inl ?_,
    fun hx => Or.inl (hqueue ▸ hx), Nat.le_of_eq hnow.symm, fun hr => hrouter ▸ hr, ?_⟩
  · have hN : N = id := by simpa [MatcherEvent.executes, MatcherEvent.drops] using hN
    exact (horders.mp hc).1 (hN ▸ List.mem_singleton_self _)
  · show N ∈ (m.dropNote id).book.parked
    rw [← Finmap.lookup_isSome]
    rw [show (m.dropNote id).book.parked.lookup N = _ from hparked (horders.mp hmem).1]
    rw [Finmap.lookup_isSome]
    exact hN
  · show (m.dropNote id).phase ≠ _
    rw [show (m.dropNote id).phase = _ from hphase', hphase]
    nofun

theorem Footprint.receive (hm : m.Sound) (nowUnix : Nat) (order : IngestOrder)
    (hphase : m.phase = .receiving) : Footprint m (.receive order) (m.receive nowUnix order) := by
  refine ⟨⟨hm.reachable.addUserOrder _ _, ?_⟩, fun {N} hN => ?_,
    by simp [MatcherEvent.executes, MatcherEvent.handsOver],
    by simp [MatcherEvent.executes, MatcherEvent.drops], by simp [MatcherEvent.handsOver],
    fun {N} hN hdel _ => Or.inl ?_, fun hx => Or.inl ?_, Nat.le_refl _, fun hr => hr, ?_⟩
  · simpa only [Matcher.receive, OrderBook.addUserOrder_parkQueue] using hm.queue_le
  · rw [Matcher.receive, OrderBook.mem_orders_addUserOrder] at hN
    exact hN.symm.imp id fun h => List.mem_singleton.mpr h
  · have hne : N ≠ order.noteId := fun h => hdel (List.mem_singleton.mpr h)
    rw [Matcher.receive, ← Finmap.lookup_isSome,
      OrderBook.addUserOrder_parked_of_ne _ _ _ hne, Finmap.lookup_isSome]
    exact hN
  · simpa only [Matcher.receive, OrderBook.addUserOrder_parkQueue] using hx
  · simp [Matcher.receive, hphase]

/-- The sweep frees the notes with an expired entry in the queue. -/
theorem Footprint.reactivate (hm : m.Sound) : Footprint m .ordersEmpty m.reactivate := by
  cases hr : m.router with
  | none =>
    rw [reactivate_of_none hr]
    exact .of_book_eq hm rfl (Nat.le_refl _) rfl nofun rfl rfl rfl
  | some r =>
    rw [reactivate_of_some hr]
    obtain ⟨-, hparked, horders, hqueue⟩ := OrderBook.reactivateLoop_spec r.inflightTtlMs
      m.lastNow hm.reachable.inv rfl
    refine ⟨⟨hm.reachable.reactivate _ _, fun x hx => hm.queue_le x (hqueue hx)⟩,
      fun {N} hN => Or.inl ?_, by simp [MatcherEvent.executes, MatcherEvent.handsOver],
      by simp [MatcherEvent.executes, MatcherEvent.drops], by simp [MatcherEvent.handsOver],
      fun {N} hN _ _ => ?_, fun hx => Or.inl (hqueue hx), Nat.le_refl _, fun h => h,
      nofun⟩
    · exact horders ▸ hN
    · by_cases hexp : OrderBook.Expired r.inflightTtlMs m.lastNow m.book.parkQueue N
      · exact Or.inr ⟨rfl, r, hr, hexp⟩
      · refine Or.inl ?_
        show N ∈ (OrderBook.reactivateLoop r.inflightTtlMs m.lastNow m.book.parkQueue
          m.book).2.parked
        rw [← Finmap.lookup_isSome, hparked, if_neg hexp, Finmap.lookup_isSome]
        exact hN

theorem Footprint.execute (hm : m.Sound) {batch : Option ExecutionBatch} {closed : Bool}
    (hrun : InternalMatch i m batch closed m') : Footprint m (.execute batch)
      { m' with phase := if closed then .stopped else .routing } := by
  obtain ⟨hsound, horders, hexec, hparked, hqueue, hnow, hrouter⟩ := hrun.spec hm
  refine ⟨⟨hsound.reachable, hsound.queue_le⟩, fun hN => Or.inl (horders hN), fun {N} hN => ?_,
    fun {N} hN => ?_, by simp [MatcherEvent.handsOver], fun hN _ hmem => Or.inl (hparked hN hmem),
    fun hx => Or.inl (hqueue ▸ hx), Nat.le_of_eq hnow.symm, fun hr => hrouter ▸ hr, ?_⟩
  · exact (hexec (hN.resolve_right (by simp [MatcherEvent.handsOver]))).1
  · exact (hexec (hN.resolve_right (by simp [MatcherEvent.drops]))).2
  · show (if _ then Phase.stopped else Phase.routing) ≠ _
    split <;> nofun

theorem handsOver_route {pass : PassResult} {N : OrderId} :
    N ∈ (MatcherEvent.route pass.sent).handsOver ↔
      N ∈ pass.sentItems.map RoutedNote.noteId := by
  rw [PassResult.sentItems]
  cases pass.sent with
  | none => simp [MatcherEvent.handsOver]
  | some batch => exact Iff.rfl

theorem Footprint.route (hm : m.Sound) {quotes : QuotesSnapshot} {order : List Pair}
    (horder : VisitsPairs order quotes) (result : TrySend) :
    Footprint m (.route (m.externalPass quotes order result).sent)
      (m.routed (m.externalPass quotes order result)) := by
  obtain ⟨hreach, hqueue⟩ := externalPass_reachable m.rawNotes hm.reachable hm.queue_le horder
    result
  obtain ⟨horders, hitems, hparked⟩ := externalPass_frame m.rawNotes m.lastNow
    hm.reachable.inv.inStep horder result
  refine ⟨⟨hreach, fun x hx => (hqueue x hx).elim (hm.queue_le x) Nat.le_of_eq⟩,
    fun hN => Or.inl (horders ▸ hN), fun {N} hN => ?_,
    by simp [MatcherEvent.executes, MatcherEvent.drops],
    fun {N} hN => (hparked N).mpr (Or.inr (handsOver_route.mp hN)),
    fun {N} hN _ _ => Or.inl ((hparked N).mpr (Or.inl hN)), fun {x} hx => hqueue x hx,
    Nat.le_refl _, fun {r'} hr => ?_, nofun⟩
  · have hhands := hN.resolve_left (by simp [MatcherEvent.executes])
    obtain ⟨item, hitem, rfl⟩ := List.mem_map.mp (handsOver_route.mp hhands)
    exact hitems item hitem
  · simp only [Matcher.routed] at hr
    split at hr
    · cases hr
    · exact hr

/-- **The inversion of the matcher's steps.** -/
theorem Step.footprint (hm : m.Sound) (h : Step i m e m') : Footprint m e m' := by
  cases h with
  | hydrate loaded _ => exact .hydrate hm i.nowUnix loaded
  | stop _ => exact .of_book_eq hm rfl (Nat.le_refl _) rfl nofun rfl rfl rfl
  | wake _ => exact .of_book_eq hm rfl (Nat.le_max_left _ _) rfl nofun rfl rfl rfl
  | consume id hphase => exact .consume hm id hphase
  | consumedEmpty _ => exact .of_book_eq hm rfl (Nat.le_refl _) rfl nofun rfl rfl rfl
  | receive order hphase => exact .receive hm i.nowUnix order hphase
  | ordersEmpty _ => exact .reactivate hm
  | execute _ hrun => exact .execute hm hrun
  | noRouter _ _ => exact .of_book_eq hm rfl (Nat.le_refl _) rfl nofun rfl rfl rfl
  | route result _ _ horder => exact .route hm horder result

/-- The first thing the matcher does is to hydrate its book. -/
theorem Step.hydrates (h : Step i m e m') (hbooting : m.phase = .booting) :
    ∃ loaded, e = .hydrate loaded := by
  cases h with
  | hydrate loaded _ => exact ⟨loaded, rfl⟩
  | stop hphase => cases hbooting.symm.trans hphase
  | wake hphase => cases hbooting.symm.trans hphase
  | consume _ hphase => cases hbooting.symm.trans hphase
  | consumedEmpty hphase => cases hbooting.symm.trans hphase
  | receive _ hphase => cases hbooting.symm.trans hphase
  | ordersEmpty hphase => cases hbooting.symm.trans hphase
  | execute hphase _ => cases hbooting.symm.trans hphase
  | noRouter hphase _ => cases hbooting.symm.trans hphase
  | route _ hphase _ _ => cases hbooting.symm.trans hphase

/-- After the boot, orders come from the channel only. -/
theorem Step.delivers_eq (h : Step i m e m') (hbooted : m.phase ≠ .booting) :
    e.delivers = e.received.map IngestOrder.noteId := by
  cases h with
  | hydrate loaded hphase => exact absurd hphase hbooted
  | stop _ => rfl
  | wake _ => rfl
  | consume _ _ => rfl
  | consumedEmpty _ => rfl
  | receive _ _ => rfl
  | ordersEmpty _ => rfl
  | execute _ _ => rfl
  | noRouter _ _ => rfl
  | route _ _ _ _ => rfl

theorem filledNotes_sublist (b : OrderBook) (rawNotes : FiniteMap OrderId Bytes)
    (arrivals : FiniteMap OrderId Nat) (nowUnix : Nat) (ids : List OrderId) :
    ((filledNotes b rawNotes arrivals nowUnix ids).map FilledNote.noteId).Sublist ids := by
  induction ids with
  | nil => exact List.Sublist.slnil
  | cons id ids ih =>
    unfold filledNotes at ih ⊢
    rw [List.filterMap_cons]
    cases rawNotes.lookup id with
    | none => exact ih.cons id
    | some raw => exact ih.cons_cons id

/-- A batch holds no note twice. -/
theorem Step.executes_nodup (h : Step i m e m') : e.executes.Nodup := by
  cases h with
  | execute _ hrun =>
    cases hrun with
    | sent _ _ _ hnodup _ => exact (filledNotes_sublist _ _ _ _ _).nodup hnodup
    | empty _ => exact List.nodup_nil
    | unfilled _ _ _ => exact List.nodup_nil
    | closed _ _ _ => exact List.nodup_nil
  | _ => exact List.nodup_nil

end Matcher

end PswapSolver
