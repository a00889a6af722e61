import PswapSolver.Nullified
import PswapSolver.Exclusivity
import PswapSolver.Crossing

/-! # The matcher between two ticks

The matcher keeps three maps in step by hand: the orders of the book, the raw bytes of
their notes, and their arrival times.  Each event updates all three, and what an engine run
has filled leaves them together once its batch is sent.  So at the start of a tick every
order is unfilled, the three maps have the same keys and no balance is left over
(`Aligned`); it also holds in the middle of a tick, until the executor's channel is found
closed and the matcher stops.

A batch therefore carries what the run of its own tick has filled, no more and no less.
-/
namespace PswapSolver
open Runs

/-! ## What parking leaves alone -/

namespace OrderBook

/-- The orders and the balances of `b'` are those of `b`. -/
structure SameHoldings (b b' : OrderBook) : Prop where
  orders : b'.orders = b.orders
  protocolBalances : b'.protocolBalances = b.protocolBalances

variable {b b' b'' : OrderBook}

theorem SameHoldings.refl (b : OrderBook) : SameHoldings b b := ⟨rfl, rfl⟩

theorem SameHoldings.trans (h : SameHoldings b b') (h' : SameHoldings b' b'') :
    SameHoldings b b'' :=
  ⟨h'.orders.trans h.orders, h'.protocolBalances.trans h.protocolBalances⟩

theorem sameHoldings_park (b : OrderBook) (id : OrderId) (dex : DexId) (time : Nat) :
    SameHoldings b (b.park id dex time) := by
  unfold park
  split
  · exact .refl b
  · split
    · exact .refl b
    · split
      · exact .refl b
      · exact ⟨rfl, rfl⟩

theorem sameHoldings_unpark (b : OrderBook) (id : OrderId) : SameHoldings b (b.unpark id).2 := by
  unfold unpark
  split
  · exact .refl b
  · unfold reindex
    split
    · exact ⟨rfl, rfl⟩
    · split
      · exact ⟨rfl, rfl⟩
      · exact ⟨rfl, rfl⟩

theorem sameHoldings_reactivateLoop (ttl time : Nat) (queue : List (Nat × OrderId))
    (b : OrderBook) : SameHoldings b (reactivateLoop ttl time queue b).2 := by
  induction queue generalizing b with
  | nil => exact .refl b
  | cons e rest ih =>
    obtain ⟨parkedAt, id⟩ := e
    by_cases hexp : satAdd64 parkedAt ttl ≤ time
    · rw [reactivateLoop_cons hexp]
      have hpop : SameHoldings b { b with parkQueue := rest } := ⟨rfl, rfl⟩
      exact (hpop.trans (sameHoldings_unpark _ id)).trans (ih _)
    · rw [reactivateLoop, if_pos (Nat.lt_of_not_le hexp)]
      exact .refl b

theorem sameHoldings_routePicks (rawNotes : FiniteMap OrderId Bytes) (now : Nat)
    (picks : List Pick) (b : OrderBook) : SameHoldings b (routePicks rawNotes now picks b).2 := by
  induction picks generalizing b with
  | nil => exact .refl b
  | cons pick picks ih =>
    rw [routePicks]
    split
    · exact ih b
    · exact (sameHoldings_park b pick.noteId pick.dex now).trans (ih _)

theorem sameHoldings_rollback (items : List RoutedNote) (b : OrderBook) :
    SameHoldings b (rollback items b) := by
  induction items generalizing b with
  | nil => exact .refl b
  | cons item items ih => exact (sameHoldings_unpark b item.noteId).trans (ih _)

/-- **The external pass parks and unparks, and does nothing else.** -/
theorem sameHoldings_externalPass (b : OrderBook) (rawNotes : FiniteMap OrderId Bytes)
    (quotes : QuotesSnapshot) (order : List Pair) (now : Nat) (result : TrySend) :
    SameHoldings b (externalPass b rawNotes quotes order now result).book := by
  have hroute : SameHoldings b (routeExternal b rawNotes quotes order now).2 := by
    unfold routeExternal
    split
    · exact .refl b
    · split
      · exact .refl b
      · exact sameHoldings_routePicks ..
  unfold externalPass
  dsimp only
  split
  · exact hroute
  · cases result with
    | ok => exact hroute
    | full => exact hroute.trans (sameHoldings_rollback ..)
    | closed => exact hroute.trans (sameHoldings_rollback ..)

variable (b)

/-- An order of a book to which one is added: it was there before, or it is that one, and is
unfilled. -/
theorem lookup_addUserOrder_cases {b : OrderBook} {id i : OrderId} {terms : OrderTerms} {o : Order}
    (h : (b.addUserOrder id terms).orders.lookup i = some o) :
    b.orders.lookup i = some o ∨ i = id ∧ o = Order.fresh id terms := by
  unfold addUserOrder at h
  split at h
  · exact Or.inl h
  · dsimp only at h
    rw [FiniteMap.lookup_insert_if] at h
    split at h
    · rename_i hid
      exact Or.inr ⟨hid, (Option.some.inj h).symm⟩
    · exact Or.inl h

theorem addUserOrder_protocolBalances (id : OrderId) (terms : OrderTerms) :
    (b.addUserOrder id terms).protocolBalances = b.protocolBalances := by
  unfold addUserOrder
  split <;> rfl

theorem lookup_removeOrder (id i : OrderId) :
    (b.removeOrder id).orders.lookup i = if i = id then none else b.orders.lookup i := by
  by_cases hi : i = id
  · rw [if_pos hi, Finmap.lookup_eq_none, hi, mem_orders_removeOrder]
    tauto
  · rw [if_neg hi, removeOrder_lookup_of_ne b hi]

theorem removeOrder_protocolBalances (id : OrderId) :
    (b.removeOrder id).protocolBalances = b.protocolBalances := by
  unfold removeOrder
  split
  · rfl
  · dsimp only
    split <;> rfl

end OrderBook

/-! ## What a run fills -/

/-- What a run that starts from unfilled orders has filled of one that it recorded. -/
theorem EngineRun.filled_of_unfilled {b : OrderBook} (hb : b.Reachable)
    (hfresh : ∀ {id o}, b.orders.lookup id = some o → o.Unfilled) {triangular : Bool} {p : Progress}
    (hrun : EngineRun b triangular p) {id : OrderId} (hid : id ∈ p.filledOrders) :
    ∃ o o', b.orders.lookup id = some o ∧ p.book.orders.lookup id = some o' ∧
      0 < o'.requestedFilled ∧
      o'.requestedFilled + o'.requestedRemaining = o.requestedRemaining := by
  have hstep := hb.inv.inStep
  have htouched := ((hrun.trades hstep).invariant ⟨hstep, touched_start b⟩
    fun _ h ht => h.trade ht).2
  obtain ⟨o, o', ho, ho', hlt, -⟩ := htouched.recorded hid
  obtain ⟨o₁, ho₁, hterms, -⟩ := htouched.shrinks ho'
  cases ho.symm.trans ho₁
  have hrequested : o'.requested = o.requested := congrArg OrderTerms.requested hterms
  have hunfilled : o.requestedRemaining = o.requested := hfresh ho
  refine ⟨o, o', ho, ho', ?_, ?_⟩
  · unfold Order.requestedFilled
    omega
  · unfold Order.requestedFilled
    omega

/-! ## The invariant -/

namespace MatcherEvent

/-- The orders the matcher is given, with the bytes of their notes. -/
def given : MatcherEvent → List IngestOrder
  | hydrate loaded => loaded
  | receive order => [order]
  | _ => []

end MatcherEvent

namespace Matcher

/-- **The tick-boundary invariant**: every order is unfilled, each has its bytes and its
arrival time and nothing else has, and no balance is left over. -/
structure Aligned (m : Matcher) : Prop where
  unfilled : ∀ {id o}, m.book.orders.lookup id = some o → o.Unfilled
  rawNotes : ∀ {id}, id ∈ m.rawNotes ↔ id ∈ m.book.orders
  arrivals : ∀ {id}, id ∈ m.arrivals ↔ id ∈ m.book.orders
  balances : m.book.protocolBalances = ∅

variable {m m' : Matcher} {i : MatcherInputs} {e : MatcherEvent}

theorem Aligned.of_eq (h : m.Aligned) (hbook : m.book.SameHoldings m'.book)
    (hraw : m'.rawNotes = m.rawNotes) (harr : m'.arrivals = m.arrivals) : m'.Aligned where
  unfilled := fun ho => h.unfilled (hbook.orders ▸ ho)
  rawNotes := by rw [hraw, hbook.orders]; exact h.rawNotes
  arrivals := by rw [harr, hbook.orders]; exact h.arrivals
  balances := hbook.protocolBalances.trans h.balances

/-! ### The maps under each operation -/

/-- **An order is added**, or it is already there and its bytes are stored again. -/
theorem Aligned.add (h : m.Aligned) (order : IngestOrder) (arrival : Nat) :
    ({ m with
      book := m.book.addUserOrder order.noteId order.terms
      arrivals := m.arrivals.insert order.noteId arrival
      rawNotes := m.rawNotes.insert order.noteId order.rawNoteData } : Matcher).Aligned where
  unfilled := fun ho => by
    rcases OrderBook.lookup_addUserOrder_cases ho with hold | ⟨-, rfl⟩
    · exact h.unfilled hold
    · exact rfl
  rawNotes := by
    intro id
    rw [Finmap.mem_insert, OrderBook.mem_orders_addUserOrder, h.rawNotes]
  arrivals := by
    intro id
    rw [Finmap.mem_insert, OrderBook.mem_orders_addUserOrder, h.arrivals]
  balances := by rw [OrderBook.addUserOrder_protocolBalances]; exact h.balances

theorem Aligned.hydrate (h : m.Aligned) (nowUnix : Nat) (loaded : List IngestOrder) :
    (m.hydrate nowUnix loaded).Aligned := by
  have hfold : (loaded.foldl (fun m order => m.hydrateOrder nowUnix order) m).Aligned := by
    induction loaded generalizing m with
    | nil => exact h
    | cons order loaded ih => exact ih (h.add order nowUnix)
  exact hfold.of_eq (.refl _) rfl rfl

/-! Dropping notes takes them out of all three maps. -/

theorem dropNotes_lookup {β : Type} (part : Matcher → FiniteMap OrderId β)
    (hpart : ∀ m i id, (part (m.dropNote i)).lookup id =
      if id = i then none else (part m).lookup id)
    (ids : List OrderId) (m : Matcher) (id : OrderId) :
    (part (ids.foldl dropNote m)).lookup id =
      if id ∈ ids then none else (part m).lookup id := by
  induction ids generalizing m with
  | nil => rfl
  | cons i ids ih =>
    rw [List.foldl_cons, ih, hpart]
    by_cases hid : id = i <;> simp [hid]

theorem dropNotes_orders (ids : List OrderId) (m : Matcher) (id : OrderId) :
    (ids.foldl dropNote m).book.orders.lookup id =
      if id ∈ ids then none else m.book.orders.lookup id :=
  dropNotes_lookup (fun m => m.book.orders) (fun _ _ _ => OrderBook.lookup_removeOrder ..) ids m id

theorem dropNotes_rawNotes (ids : List OrderId) (m : Matcher) (id : OrderId) :
    (ids.foldl dropNote m).rawNotes.lookup id =
      if id ∈ ids then none else m.rawNotes.lookup id :=
  dropNotes_lookup (fun m => m.rawNotes) (fun _ _ _ => FiniteMap.lookup_erase_if ..) ids m id

theorem dropNotes_arrivals (ids : List OrderId) (m : Matcher) (id : OrderId) :
    (ids.foldl dropNote m).arrivals.lookup id =
      if id ∈ ids then none else m.arrivals.lookup id :=
  dropNotes_lookup (fun m => m.arrivals) (fun _ _ _ => FiniteMap.lookup_erase_if ..) ids m id

/-- What is left once the notes `ids` are dropped from `m`, if all others are in order. -/
theorem aligned_of_dropNotes (ids : List OrderId)
    (horders : m'.book.orders = (ids.foldl Matcher.dropNote m).book.orders)
    (hraw : m'.rawNotes = (ids.foldl Matcher.dropNote m).rawNotes)
    (harr : m'.arrivals = (ids.foldl Matcher.dropNote m).arrivals)
    (hunfilled : ∀ {id o}, id ∉ ids → m.book.orders.lookup id = some o → o.Unfilled)
    (hrawNotes : ∀ {id}, id ∈ m.rawNotes ↔ id ∈ m.book.orders)
    (harrivals : ∀ {id}, id ∈ m.arrivals ↔ id ∈ m.book.orders)
    (hbal : m'.book.protocolBalances = ∅) : m'.Aligned where
  unfilled := by
    intro id o ho
    rw [horders, dropNotes_orders] at ho
    split at ho
    · cases ho
    · rename_i hid
      exact hunfilled hid ho
  rawNotes := by
    intro id
    rw [← Finmap.lookup_isSome, ← Finmap.lookup_isSome, hraw, horders, dropNotes_rawNotes,
      dropNotes_orders]
    split
    · exact Iff.rfl
    · rw [Finmap.lookup_isSome, Finmap.lookup_isSome]
      exact hrawNotes
  arrivals := by
    intro id
    rw [← Finmap.lookup_isSome, ← Finmap.lookup_isSome, harr, horders, dropNotes_arrivals,
      dropNotes_orders]
    split
    · exact Iff.rfl
    · rw [Finmap.lookup_isSome, Finmap.lookup_isSome]
      exact harrivals
  balances := hbal

theorem Aligned.dropNote (h : m.Aligned) (id : OrderId) : (m.dropNote id).Aligned :=
  aligned_of_dropNotes [id] rfl rfl rfl (fun _ ho => h.unfilled ho) h.rawNotes h.arrivals
    ((OrderBook.removeOrder_protocolBalances ..).trans h.balances)

/-- Once the batch is sent, what the run has filled is gone and the rest is as it was. -/
theorem Aligned.settled (h : m.Aligned) (hm : m.Sound) {p : Progress}
    (hrun : EngineRun { m.book with feed := i.feed } m.triangularEnabled p)
    {filledOrders : List OrderId} (henum : filledOrders.toFinset = p.filledOrders) :
    (m.settled p.book filledOrders).Aligned := by
  have hadv := (hrun.advance (hm.reachable.setFeed i.feed).inv.inStep).2
  have horders : ∀ {id}, id ∈ p.book.orders ↔ id ∈ m.book.orders := hadv.mem_orders
  refine aligned_of_dropNotes (m := { m with book := p.book }) filledOrders rfl rfl rfl
    ?_ (h.rawNotes.trans horders.symm) (h.arrivals.trans horders.symm) rfl
  intro id o hid ho
  rw [← List.mem_toFinset, henum] at hid
  exact h.unfilled ((hadv.untouched hid).symm.trans ho)

theorem Aligned.reactivate (h : m.Aligned) : m.reactivate.Aligned := by
  cases hr : m.router with
  | none =>
    rw [reactivate_of_none hr]
    exact h.of_eq (.refl _) rfl rfl
  | some r =>
    rw [reactivate_of_some hr]
    exact h.of_eq (OrderBook.sameHoldings_reactivateLoop ..) rfl rfl

/-- After internal matching the maps are in order, unless the executor is gone. -/
theorem Aligned.internalMatch (h : m.Aligned) (hm : m.Sound) {batch : Option ExecutionBatch}
    (hmatch : InternalMatch i m batch false m') : m'.Aligned := by
  cases hmatch with
  | empty _ => exact h
  | unfilled _ hrun hnone =>
    have hp := (hrun.trades (hm.reachable.setFeed i.feed).inv.inStep).eq_of_unfilled hnone
    rw [hp]
    exact h.of_eq ⟨rfl, rfl⟩ rfl rfl
  | sent _ hrun _ _ henum => exact h.settled hm hrun henum

/-- **One step**, if the matcher goes on after it. -/
theorem Aligned.step (h : m.Aligned) (hm : m.Sound) (hstep : Step i m e m')
    (hlive : m'.phase ≠ .stopped) : m'.Aligned := by
  cases hstep with
  | hydrate loaded _ => exact h.hydrate i.nowUnix loaded
  | stop _ => exact absurd rfl hlive
  | wake _ => exact h.of_eq (.refl _) rfl rfl
  | consume id _ => exact h.dropNote id
  | consumedEmpty _ => exact h.of_eq (.refl _) rfl rfl
  | receive order _ => exact h.add order _
  | ordersEmpty _ => exact h.reactivate
  | @execute _ _ closed _ hmatch =>
    cases closed with
    | true => exact absurd rfl hlive
    | false => exact (h.internalMatch hm hmatch).of_eq (.refl _) rfl rfl
  | noRouter _ _ => exact h.of_eq (.refl _) rfl rfl
  | route result _ _ _ => exact h.of_eq (OrderBook.sameHoldings_externalPass ..) rfl rfl

/-- A stopped matcher takes no step. -/
theorem Step.not_stopped (h : Step i m e m') : m.phase ≠ .stopped := by
  intro hstopped
  cases h with
  | hydrate _ hphase => cases hstopped.symm.trans hphase
  | stop hphase => cases hstopped.symm.trans hphase
  | wake hphase => cases hstopped.symm.trans hphase
  | consume _ hphase => cases hstopped.symm.trans hphase
  | consumedEmpty hphase => cases hstopped.symm.trans hphase
  | receive _ hphase => cases hstopped.symm.trans hphase
  | ordersEmpty hphase => cases hstopped.symm.trans hphase
  | execute hphase _ => cases hstopped.symm.trans hphase
  | noRouter hphase _ => cases hstopped.symm.trans hphase
  | route _ hphase _ _ => cases hstopped.symm.trans hphase

/-! ### Where the bytes come from -/

theorem hydrateOrders_rawNotes (nowUnix : Nat) (loaded : List IngestOrder) {id : OrderId}
    {raw : Bytes}
    (h : (loaded.foldl (fun m order => m.hydrateOrder nowUnix order) m).rawNotes.lookup id =
      some raw) :
    m.rawNotes.lookup id = some raw ∨ ∃ d ∈ loaded, d.noteId = id ∧ d.rawNoteData = raw := by
  induction loaded generalizing m with
  | nil => exact Or.inl h
  | cons order loaded ih =>
    rcases ih h with hold | ⟨d, hd, hid⟩
    · unfold hydrateOrder at hold
      rw [FiniteMap.lookup_insert_if] at hold
      split at hold
      · rename_i heq
        exact Or.inr ⟨order, List.mem_cons_self .., heq.symm, Option.some.inj hold⟩
      · exact Or.inl hold
    · exact Or.inr ⟨d, List.mem_cons_of_mem _ hd, hid⟩

/-- Bytes that are dropped were there. -/
theorem dropNotes_rawNotes_some (ids : List OrderId) {id : OrderId} {raw : Bytes}
    (h : (ids.foldl Matcher.dropNote m).rawNotes.lookup id = some raw) :
    m.rawNotes.lookup id = some raw := by
  rw [dropNotes_rawNotes] at h
  split at h
  · cases h
  · exact h

/-- **The bytes of a note were given with it**, in this step or before. -/
theorem Step.rawNotes_origin (hstep : Step i m e m') {id : OrderId} {raw : Bytes}
    (h : m'.rawNotes.lookup id = some raw) :
    m.rawNotes.lookup id = some raw ∨ ∃ d ∈ e.given, d.noteId = id ∧ d.rawNoteData = raw := by
  cases hstep with
  | hydrate loaded _ => exact hydrateOrders_rawNotes i.nowUnix loaded h
  | receive order _ => exact hydrateOrders_rawNotes 0 [order] h
  | consume i _ => exact Or.inl (dropNotes_rawNotes_some [i] h)
  | execute _ hmatch =>
    cases hmatch with
    | empty _ => exact Or.inl h
    | unfilled _ _ _ => exact Or.inl h
    | @sent p filledOrders _ _ _ _ _ =>
      exact Or.inl (dropNotes_rawNotes_some (m := { m with book := p.book }) filledOrders h)
    | closed _ _ _ => exact Or.inl h
  | ordersEmpty _ =>
    refine Or.inl ?_
    unfold Matcher.reactivate at h
    split at h
    · exact h
    · exact h
  | stop _ => exact Or.inl h
  | wake _ => exact Or.inl h
  | consumedEmpty _ => exact Or.inl h
  | noRouter _ _ => exact Or.inl h
  | route _ _ _ _ => exact Or.inl h

/-- The invariant of a run. -/
structure BoundaryInv (history : List (Matcher × MatcherEvent)) (m : Matcher) : Prop where
  sound : m.Sound
  aligned : m.phase ≠ .stopped → m.Aligned
  given : ∀ {id raw}, m.rawNotes.lookup id = some raw →
    ∃ x ∈ history, ∃ d ∈ x.2.given, d.noteId = id ∧ d.rawNoteData = raw

theorem boundaryInv_new (feed : PriceFeed) (triangularEnabled : Bool)
    (router : Option RouterHooks) :
    BoundaryInv [] (Matcher.new feed triangularEnabled router) where
  sound := ⟨OrderBook.Reachable.new feed, fun _ hx => absurd hx List.not_mem_nil⟩
  aligned := fun _ =>
    { unfilled := fun h => absurd h nofun
      rawNotes := Iff.rfl
      arrivals := Iff.rfl
      balances := rfl }
  given := fun h => by cases h

theorem BoundaryInv.step {history : List (Matcher × MatcherEvent)} (hinv : BoundaryInv history m)
    (hstep : MatcherStep m e m') : BoundaryInv (history ++ [(m, e)]) m' := by
  obtain ⟨i, hstep⟩ := hstep
  refine ⟨(hstep.footprint hinv.sound).sound, fun hlive => ?_, fun {id raw} hraw => ?_⟩
  · exact (hinv.aligned hstep.not_stopped).step hinv.sound hstep hlive
  · rcases hstep.rawNotes_origin hraw with hold | hnew
    · obtain ⟨x, hx, hgiven⟩ := hinv.given hold
      exact ⟨x, List.mem_append_left _ hx, hgiven⟩
    · exact ⟨_, List.mem_append_right _ (List.mem_singleton_self _), hnew⟩

/-! ### What a batch carries -/

/-- The batch of this tick: the notes that the run `p` filled, all of them, each with what it
was filled with in this run and the bytes that were given for it. -/
structure CarriesRun (history : List (Matcher × MatcherEvent)) (m : Matcher) (p : Progress)
    (batch : ExecutionBatch) : Prop where
  nodup : batch.ids.Nodup
  ids : batch.ids.toFinset = p.filledOrders
  filled : ∀ filled ∈ batch.filledNotes, ∃ o o', m.book.orders.lookup filled.noteId = some o ∧
    p.book.orders.lookup filled.noteId = some o' ∧ 0 < filled.requestedFilled ∧
    filled.requestedFilled + o'.requestedRemaining = o.requestedRemaining
  raw : ∀ filled ∈ batch.filledNotes, m.rawNotes.lookup filled.noteId = some filled.rawNoteData ∧
    ∃ x ∈ history, ∃ d ∈ x.2.given, d.noteId = filled.noteId ∧ d.rawNoteData = filled.rawNoteData

/-- If all bytes are known, no filled note is left out of the batch. -/
theorem filledNotes_ids {b : OrderBook} {rawNotes : FiniteMap OrderId Bytes}
    {arrivals : FiniteMap OrderId Nat} {nowUnix : Nat} {ids : List OrderId}
    (h : ∀ id ∈ ids, id ∈ rawNotes) :
    (filledNotes b rawNotes arrivals nowUnix ids).map FilledNote.noteId = ids := by
  induction ids with
  | nil => rfl
  | cons id ids ih =>
    obtain ⟨raw, hraw⟩ := Finmap.mem_iff.mp (h id (List.mem_cons_self ..))
    have hrest := ih fun i hi => h i (List.mem_cons_of_mem _ hi)
    unfold filledNotes at hrest ⊢
    rw [List.filterMap_cons, hraw]
    exact congrArg (id :: ·) hrest

/-- A batch holds a note for every order the run filled. -/
theorem Aligned.sent_ids (h : m.Aligned) (hm : m.Sound) {p : Progress}
    (hrun : EngineRun { m.book with feed := i.feed } m.triangularEnabled p)
    {filledOrders : List OrderId} (henum : filledOrders.toFinset = p.filledOrders) :
    (ExecutionBatch.mk (filledNotes p.book m.rawNotes m.arrivals i.nowUnix filledOrders)).ids =
      filledOrders := by
  refine filledNotes_ids fun id hid => h.rawNotes.mpr ?_
  rw [← List.mem_toFinset, henum] at hid
  exact ((run_spec hm hrun).2.2.2.2 hid).1

theorem BoundaryInv.carriesRun {history : List (Matcher × MatcherEvent)}
    (hinv : BoundaryInv history m) {batch : ExecutionBatch}
    (hstep : Step i m (.execute (some batch)) m') :
    ∃ p, EngineRun { m.book with feed := i.feed } m.triangularEnabled p ∧
      CarriesRun history m p batch := by
  have haligned := hinv.aligned hstep.not_stopped
  have hreach := hinv.sound.reachable.setFeed i.feed
  cases hstep with
  | execute _ hmatch =>
    cases hmatch with
    | @sent p filledOrders _ hrun _ hnodup henum =>
      have hids : ∀ {id}, id ∈ filledOrders ↔ id ∈ p.filledOrders := fun {id} => by
        rw [← henum, List.mem_toFinset]
      have hbatch := haligned.sent_ids hinv.sound hrun henum
      refine ⟨p, hrun, ⟨?_, ?_, fun filled hfilled => ?_, fun filled hfilled => ?_⟩⟩
      · rw [hbatch]
        exact hnodup
      · rw [hbatch]
        exact henum
      · obtain ⟨hid, -, hamount⟩ := mem_filledNotes hfilled
        obtain ⟨o, o', ho, ho', hpos, hsum⟩ := hrun.filled_of_unfilled hreach
          haligned.unfilled (hids.mp hid)
        rw [ho'] at hamount
        have hamount : filled.requestedFilled = o'.requestedFilled := hamount
        exact ⟨o, o', ho, ho', hamount ▸ hpos, hamount ▸ hsum⟩
      · obtain ⟨-, hraw, -⟩ := mem_filledNotes hfilled
        exact ⟨hraw, hinv.given hraw⟩

end Matcher

/-- **The matcher at a tick boundary.**  Whatever was loaded, received, consumed, priced,
routed and reactivated before: at the start of a tick every order of the book is unfilled,
the book, the raw notes and the arrival times have the same keys, and no balance is left
over.  And a batch is emitted only with an engine run of the same tick, of which it holds
exactly the filled notes, each with what this run filled and with the bytes it was given. -/
theorem tick_boundary (feed : PriceFeed) (triangularEnabled : Bool) (router : Option RouterHooks)
    {history : List (Matcher × MatcherEvent)} {m : Matcher}
    (hrun : Run MatcherStep unguarded (Matcher.new feed triangularEnabled router) history m) :
    (m.phase = .idle →
      (∀ id o, m.book.orders.lookup id = some o → o.requestedRemaining = o.requested) ∧
      m.rawNotes.keys = m.book.orders.keys ∧ m.arrivals.keys = m.book.orders.keys ∧
      m.book.protocolBalances = ∅) ∧
    ∀ (i : MatcherInputs) (batch : ExecutionBatch) (m' : Matcher),
      Matcher.Step i m (.execute (some batch)) m' →
      ∃ p, EngineRun { m.book with feed := i.feed } m.triangularEnabled p ∧
        Matcher.CarriesRun history m p batch := by
  have hinv : Matcher.BoundaryInv history m := hrun.invariant
    (Matcher.boundaryInv_new feed triangularEnabled router) fun hinv _ hstep => hinv.step hstep
  refine ⟨fun hidle => ?_, fun i batch m' hstep => hinv.carriesRun hstep⟩
  have haligned := hinv.aligned (by rw [hidle]; nofun)
  refine ⟨fun id o ho => haligned.unfilled ho, ?_, ?_, haligned.balances⟩
  · ext id
    rw [Finmap.mem_keys, Finmap.mem_keys]
    exact haligned.rawNotes
  · ext id
    rw [Finmap.mem_keys, Finmap.mem_keys]
    exact haligned.arrivals

/-- The first tick of the two crossing orders. -/
theorem tick_boundary_crossing :
    ∃ history p, Run MatcherStep unguarded unloaded history ready ∧
      Matcher.Step crossingInputs ready (.execute (some crossingBatch)) emptied ∧
      Matcher.CarriesRun history ready p crossingBatch := by
  have h₁ : Run MatcherStep unguarded unloaded _ _ :=
    Run.single ⟨crossingInputs, .hydrate loadedCrossing rfl⟩
  have h₂ := h₁.step trivial ⟨crossingInputs, .wake rfl⟩
  have h₃ := h₂.step trivial ⟨crossingInputs, .consumedEmpty rfl⟩
  have h₄ := h₃.step trivial ⟨crossingInputs, .ordersEmpty rfl⟩
  have hexec : Matcher.Step crossingInputs ready (.execute (some crossingBatch)) emptied :=
    .execute rfl (.sent (by decide) crossingRun_run (by decide) (by decide) (by decide))
  obtain ⟨p, -, hcarries⟩ := (tick_boundary _ _ _ h₄).2 _ _ _ hexec
  exact ⟨_, p, h₄, hexec, hcarries⟩

end PswapSolver
