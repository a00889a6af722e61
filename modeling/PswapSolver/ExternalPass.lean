import PswapSolver.BookViews
import PswapSolver.Engine
import PswapSolver.Notes
import PswapSolver.Parking
import PswapSolver.Select

/-! # The external pass

The model of `external_pass` and `route_external` in `matcher/matcher.rs`.  The notes
left after internal matching are selected against the standing quotes, each pick with
raw bytes is parked, and the whole batch is offered to the router's channel.  If the
channel does not take it, every item is unparked again.

Parking erases an id from its queue, unparking enqueues it.  After a failed send the
queue of a pair has thus lost its routed notes and got them back, in the order they
stood, behind the others of their rate.  By `StableQueue.foldl_enqueue_eq_iff` that is
the old queue exactly when no unrouted note stood behind a routed one of its rate.
-/
namespace PswapSolver
open StableQueue

/-- A note handed to a DEX. -/
structure RoutedNote where
  dex : DexId
  noteId : OrderId
  fill : Nat
  pair : Pair
  noteBytes : Bytes
  serial : Nat
deriving DecidableEq

/-- The notes selected in one tick. -/
structure RouteBatch where
  items : List RoutedNote
deriving DecidableEq

/-- What `try_send` on the route channel returns. -/
inductive TrySend where
  | ok
  | full
  | closed
deriving DecidableEq

/-- Candidates of a pair: whole notes only, in rate order. -/
def wholeNotes (book : OrderBook) (p : Pair) : List Order :=
  (book.notesForPair p.1 p.2).filter fun o => decide (o.requestedRemaining = o.requested)

/-- Parks each pick whose raw bytes are known and builds its handover. -/
def routePicks (rawNotes : FiniteMap OrderId Bytes) (now : Nat) :
    List Pick → OrderBook → List RoutedNote × OrderBook
  | [], book => ([], book)
  | pick :: picks, book =>
    match rawNotes.lookup pick.noteId with
    -- Parking a note without a handover would strand it.
    | none => routePicks rawNotes now picks book
    | some bytes =>
      (⟨pick.dex, pick.noteId, pick.fill, pick.pair, bytes, pick.serial⟩ ::
          (routePicks rawNotes now picks (book.park pick.noteId pick.dex now)).1,
        (routePicks rawNotes now picks (book.park pick.noteId pick.dex now)).2)

/-- Selects residual notes against the quotes and parks them.  `order` is the order in
which the quoted pairs are visited. -/
def routeExternal (book : OrderBook) (rawNotes : FiniteMap OrderId Bytes)
    (quotes : QuotesSnapshot) (order : List Pair) (now : Nat) : List RoutedNote × OrderBook :=
  if quotes.keys = ∅ then ([], book)
  else if order.all fun p => (wholeNotes book p).isEmpty then ([], book)
  else routePicks rawNotes now (selectNotes order (wholeNotes book) quotes now) book

/-- Unparks the items of a batch that was not delivered. -/
def rollback (items : List RoutedNote) (book : OrderBook) : OrderBook :=
  items.foldl (fun book item => (book.unpark item.noteId).2) book

/-- The outcome of an external pass: whether the router is gone, the batch handed over,
and the book. -/
structure PassResult where
  closed : Bool
  sent : Option RouteBatch
  book : OrderBook

/-- The external pass, when the channel answers `result`. -/
def externalPass (book : OrderBook) (rawNotes : FiniteMap OrderId Bytes) (quotes : QuotesSnapshot)
    (order : List Pair) (now : Nat) (result : TrySend) : PassResult :=
  let (items, book) := routeExternal book rawNotes quotes order now
  if items = [] then ⟨false, none, book⟩
  else
    match result with
    | .ok => ⟨false, some ⟨items⟩, book⟩
    | .full => ⟨false, none, rollback items book⟩
    | .closed => ⟨true, none, rollback items book⟩

/-- `order` visits every quoted pair once. -/
def VisitsPairs (order : List Pair) (quotes : QuotesSnapshot) : Prop :=
  order.Nodup ∧ order.toFinset = quotes.keys

/-! ## The picks -/

section Picks
variable {b : OrderBook} {quotes : QuotesSnapshot} {order : List Pair} {now : Nat}

/-- A pair's picks are some of its queue, in queue order. -/
theorem picksOf_sublist (hb : b.InStep ∅) (p : Pair) :
    ((picksOf (wholeNotes b) quotes now p).map Pick.noteId).Sublist (b.queue p) := by
  have hwhole : ((wholeNotes b p).map Order.id).Sublist (b.queue p) := by
    rw [← hb.notesForPair_ids p.1 p.2]
    exact List.filter_sublist.map _
  exact (matchNotes_sublist p now (wholeNotes b p) _).trans hwhole

/-- A pick is of a whole note of its pair's queue. -/
theorem mem_picksOf (hb : b.InStep ∅) {p : Pair} {k : Pick}
    (hk : k ∈ picksOf (wholeNotes b) quotes now p) :
    k.pair = p ∧ k.noteId ∈ b.queue p ∧
      ∃ o, b.orders.lookup k.noteId = some o ∧ k.fill = o.requested := by
  obtain ⟨note, hnote, hid, hfill, hpair⟩ := matchNotes_mem hk
  have hnote := (List.mem_filter.mp hnote).1
  rw [hb.notesForPair] at hnote
  obtain ⟨i, hi, hlookup⟩ := List.mem_filterMap.mp hnote
  rw [hid, hb.ids hlookup]
  exact ⟨hpair, hi, note, hlookup, hfill⟩

/-- The early returns of `route_external` return what the loop would. -/
theorem routeExternal_eq (rawNotes : FiniteMap OrderId Bytes) (horder : VisitsPairs order quotes) :
    routeExternal b rawNotes quotes order now =
      routePicks rawNotes now (order.flatMap (picksOf (wholeNotes b) quotes now)) b := by
  unfold routeExternal
  split
  · rename_i hempty
    have : order = [] := List.toFinset_eq_empty_iff _ |>.mp (horder.2.trans hempty)
    rw [this]
    rfl
  · split
    · rename_i hall
      have hnil : order.flatMap (picksOf (wholeNotes b) quotes now) = [] := by
        refine List.flatMap_eq_nil_iff.mpr fun p hp => ?_
        have hw := List.all_eq_true.mp hall p hp
        rw [List.isEmpty_iff] at hw
        rw [picksOf, hw]
        rfl
      rw [hnil]
      rfl
    · rfl

end Picks

/-! ## Parking the picks -/

/-- Parking a queued note takes it out of its queue and records the park. -/
theorem park_of_queued {b : OrderBook} (hb : b.InStep ∅) {id : OrderId} {p : Pair}
    (hq : id ∈ b.queue p) (dex : DexId) (now : Nat) :
    (b.park id dex now).InStep ∅ ∧ (b.park id dex now).orders = b.orders ∧
      (b.park id dex now).parked = b.parked.insert id (dex, now) ∧
      ∀ p', (b.park id dex now).queue p' = (b.queue p').filter (· ≠ id) := by
  obtain ⟨o, ho, hp, hnp, hact⟩ := hb.mem_queue.mp hq
  have hact : o.isActive = true := hact.resolve_right (Finset.notMem_empty _)
  have heq : b.park id dex now =
      { b with
        toIndex := (b.decrementCount o.pair).removeFromIndex o.pair o.rateKey id
        parked := b.parked.insert id (dex, now)
        parkQueue := b.parkQueue ++ [(now, id)] } := by
    rw [OrderBook.park, if_neg hnp, ho]
    dsimp only
    rw [hact]
    rfl
  have hdeq : (b.park id dex now).InStep (∅ \ {id}) ∧ ∀ p', (b.park id dex now).queue p' =
      if p' = o.pair then (b.queue p').erase id else b.queue p' := by
    rw [heq]
    refine hb.dequeue ho (hp ▸ hq) ?_ ?_ ?_ ?_
    · rfl
    · exact fun i hi => ⟨rfl, Finmap.mem_insert.trans (or_iff_right hi)⟩
    · exact Or.inr ⟨ho, iff_of_true (Finmap.mem_insert.mpr (Or.inl rfl)) hact⟩
    · rfl
  refine ⟨hdeq.1, by rw [heq], by rw [heq], fun p' => ?_⟩
  rw [hdeq.2]
  split
  · rw [(hb.indexed.nodup p').erase_eq_filter id]
    simp only [ne_eq, bne, beq_eq_decide, decide_not]
  · rename_i hne
    refine (List.filter_eq_self.mpr fun i hi => ?_).symm
    rw [decide_eq_true_eq]
    rintro rfl
    exact hne (hb.pair_eq hi ho).symm

/-- The handover of a pick, if its raw bytes are known. -/
def handover (rawNotes : FiniteMap OrderId Bytes) (k : Pick) : Option RoutedNote :=
  (rawNotes.lookup k.noteId).map fun bytes =>
    ⟨k.dex, k.noteId, k.fill, k.pair, bytes, k.serial⟩

/-- **`b'` is `b` with the items parked**: each is taken out of its queue and recorded,
and nothing else changes. -/
structure ParkedItems (items : List RoutedNote) (now : Nat) (b b' : OrderBook) : Prop where
  inStep : b'.InStep ∅
  orders : b'.orders = b.orders
  parked : ∀ i v, b'.parked.lookup i = some v ↔
    b.parked.lookup i = some v ∨ ∃ item ∈ items, item.noteId = i ∧ v = (item.dex, now)
  queue : ∀ p, b'.queue p = (b.queue p).filter (· ∉ items.map RoutedNote.noteId)

theorem mem_handover_noteId {rawNotes : FiniteMap OrderId Bytes} {picks : List Pick}
    {item : RoutedNote} (h : item ∈ picks.filterMap (handover rawNotes)) :
    ∃ k ∈ picks, item.noteId = k.noteId ∧ item.dex = k.dex ∧ item.fill = k.fill ∧
      item.pair = k.pair ∧ item.serial = k.serial ∧
      rawNotes.lookup k.noteId = some item.noteBytes := by
  obtain ⟨k, hk, hitem⟩ := List.mem_filterMap.mp h
  obtain ⟨bytes, hraw, rfl⟩ := Option.map_eq_some_iff.mp hitem
  exact ⟨k, hk, rfl, rfl, rfl, rfl, rfl, hraw⟩

theorem handover_none {rawNotes : FiniteMap OrderId Bytes} {k : Pick}
    (h : rawNotes.lookup k.noteId = none) : handover rawNotes k = none := by
  rw [handover, h]
  rfl

theorem handover_some {rawNotes : FiniteMap OrderId Bytes} {k : Pick} {bytes : Bytes}
    (h : rawNotes.lookup k.noteId = some bytes) :
    handover rawNotes k = some ⟨k.dex, k.noteId, k.fill, k.pair, bytes, k.serial⟩ := by
  rw [handover, h]
  rfl

/-- The items are the picks whose raw bytes are known. -/
theorem routePicks_fst (rawNotes : FiniteMap OrderId Bytes) (now : Nat) (picks : List Pick)
    (b : OrderBook) :
    (routePicks rawNotes now picks b).1 = picks.filterMap (handover rawNotes) := by
  induction picks generalizing b with
  | nil => rfl
  | cons k picks ih =>
    rw [routePicks]
    cases hraw : rawNotes.lookup k.noteId with
    | none =>
      rw [List.filterMap_cons_none (handover_none hraw)]
      exact ih b
    | some bytes =>
      rw [List.filterMap_cons_some (handover_some hraw)]
      exact congrArg _ (ih _)

/-- **What `route_external`'s loop does**: each pick with raw bytes becomes an item, and
the items are parked. -/
theorem routePicks_spec (rawNotes : FiniteMap OrderId Bytes) (now : Nat) {picks : List Pick}
    {b : OrderBook} (hb : b.InStep ∅) (hq : ∀ k ∈ picks, k.noteId ∈ b.queue k.pair)
    (hnd : (picks.map Pick.noteId).Nodup) :
    (routePicks rawNotes now picks b).1 = picks.filterMap (handover rawNotes) ∧
    ParkedItems (picks.filterMap (handover rawNotes)) now b
      (routePicks rawNotes now picks b).2 := by
  refine ⟨routePicks_fst rawNotes now picks b, ?_⟩
  induction picks generalizing b with
  | nil => exact ⟨hb, rfl, by simp [routePicks], by simp [routePicks]⟩
  | cons k picks ih =>
    rw [List.map_cons, List.nodup_cons] at hnd
    have hrest : ∀ k' ∈ picks, k'.noteId ∈ b.queue k'.pair := fun k' hk' =>
      hq k' (List.mem_cons_of_mem _ hk')
    rw [routePicks]
    cases hraw : rawNotes.lookup k.noteId with
    | none =>
      rw [List.filterMap_cons_none (handover_none hraw)]
      exact ih hb hrest hnd.2
    | some bytes =>
      obtain ⟨hb', horders, hparked, hqueue⟩ :=
        park_of_queued hb (hq k (List.mem_cons_self ..)) k.dex now
      have hne : ∀ k' ∈ picks, k'.noteId ≠ k.noteId := fun k' hk' he =>
        hnd.1 (he ▸ List.mem_map_of_mem hk')
      have hq' : ∀ k' ∈ picks, k'.noteId ∈ (b.park k.noteId k.dex now).queue k'.pair := by
        intro k' hk'
        rw [hqueue]
        exact List.mem_filter.mpr ⟨hrest k' hk', by simpa using hne k' hk'⟩
      have hpk := ih hb' hq' hnd.2
      have hnp : k.noteId ∉ b.parked := by
        obtain ⟨-, -, -, hnp, -⟩ := hb.mem_queue.mp (hq k (List.mem_cons_self ..))
        exact hnp
      rw [List.filterMap_cons_some (handover_some hraw)]
      refine ⟨hpk.inStep, hpk.orders.trans horders, fun i v => ?_, fun p => ?_⟩
      · rw [hpk.parked, hparked, FiniteMap.lookup_insert_if]
        by_cases hi : i = k.noteId
        · subst hi
          have hnone : b.parked.lookup k.noteId = none := Finmap.lookup_eq_none.mpr hnp
          have hno : ¬ ∃ item ∈ picks.filterMap (handover rawNotes), item.noteId = k.noteId ∧
              v = (item.dex, now) := by
            rintro ⟨item, hitem, hid, -⟩
            obtain ⟨k', hk', hid', -⟩ := mem_handover_noteId hitem
            exact hne k' hk' (hid'.symm.trans hid)
          simp only [if_true, hno, or_false, hnone, List.mem_cons, exists_eq_or_imp, true_and]
          simp [eq_comm]
        · simp [hi, Ne.symm hi]
      · rw [hpk.queue, hqueue, List.filter_filter]
        refine List.filter_congr fun i _ => ?_
        rw [← Bool.decide_and, decide_eq_decide, List.map_cons, List.mem_cons, not_or, and_comm]

/-! ## Rolling back -/

/-- **What the rollback does**: the items are unparked, and each is enqueued in turn. -/
theorem rollback_spec {items : List RoutedNote} {b : OrderBook} (hb : b.InStep ∅)
    (hparked : ∀ item ∈ items, item.noteId ∈ b.parked)
    (hnd : (items.map RoutedNote.noteId).Nodup) (pairOf : OrderId → Pair)
    (hpair : ∀ item ∈ items, ∀ o, b.orders.lookup item.noteId = some o →
      o.pair = pairOf item.noteId) :
    (rollback items b).InStep ∅ ∧ (rollback items b).orders = b.orders ∧
    (∀ i, (rollback items b).parked.lookup i =
      if i ∈ items.map RoutedNote.noteId then none else b.parked.lookup i) ∧
    ∀ p, (rollback items b).queue p =
      (((items.map RoutedNote.noteId).filter fun i => pairOf i = p).foldl
        (fun acc i => enqueue b.keyOf i acc) (b.queue p)) := by
  induction items generalizing b with
  | nil => exact ⟨hb, rfl, fun i => by simp [rollback], fun p => rfl⟩
  | cons item items ih =>
    rw [List.map_cons, List.nodup_cons] at hnd
    obtain ⟨o, ho, hb', horders, hpk, hqueue⟩ :=
      hb.unpark_of_parked (hparked item (List.mem_cons_self ..))
    have hop : o.pair = pairOf item.noteId := hpair item (List.mem_cons_self ..) o ho
    have hkey : (b.unpark item.noteId).2.keyOf = b.keyOf := funext fun i =>
      OrderBook.keyOf_congr (by rw [horders])
    have hparked' : ∀ item' ∈ items, item'.noteId ∈ (b.unpark item.noteId).2.parked := by
      intro item' hmem
      rw [hpk, Finmap.mem_erase]
      exact ⟨fun he => hnd.1 (he ▸ List.mem_map_of_mem hmem),
        hparked item' (List.mem_cons_of_mem _ hmem)⟩
    obtain ⟨h1, h2, h3, h4⟩ := ih hb' hparked' hnd.2 fun item' hmem o' ho' =>
      hpair item' (List.mem_cons_of_mem _ hmem) o' (horders ▸ ho')
    refine ⟨h1, h2.trans horders, fun i => ?_, fun p => ?_⟩
    · change (rollback items (b.unpark item.noteId).2).parked.lookup i = _
      rw [h3, hpk, FiniteMap.lookup_erase_if, List.map_cons]
      by_cases hi : i = item.noteId <;> simp [hi]
    · change (rollback items (b.unpark item.noteId).2).queue p = _
      rw [h4, hkey, hqueue, hop, List.map_cons]
      by_cases hp : pairOf item.noteId = p
      · rw [if_pos hp, List.filter_cons_of_pos (by simpa using hp)]
        rfl
      · rw [if_neg hp, List.filter_cons_of_neg (by simpa using hp)]

/-! ## Atomicity -/

section Pass
variable {b : OrderBook} {rawNotes : FiniteMap OrderId Bytes} {quotes : QuotesSnapshot}
  {order : List Pair} {now : Nat}

/-- The ids handed over: those `select_notes` picks and whose raw bytes are known. -/
def routedIds (b : OrderBook) (rawNotes : FiniteMap OrderId Bytes) (quotes : QuotesSnapshot)
    (order : List Pair) (now : Nat) : List OrderId :=
  ((selectNotes order (wholeNotes b) quotes now).map Pick.noteId).filter (· ∈ rawNotes)

/-- The part of the routed ids that one pair contributes. -/
def routedFor (b : OrderBook) (rawNotes : FiniteMap OrderId Bytes) (quotes : QuotesSnapshot)
    (now : Nat) (p : Pair) : List OrderId :=
  ((picksOf (wholeNotes b) quotes now p).map Pick.noteId).filter (· ∈ rawNotes)

theorem routedIds_eq : routedIds b rawNotes quotes order now =
    order.flatMap (routedFor b rawNotes quotes now) := by
  rw [routedIds, selectNotes_eq, List.map_flatMap, List.filter_flatMap]
  rfl

theorem routedFor_sublist (hb : b.InStep ∅) (p : Pair) :
    (routedFor b rawNotes quotes now p).Sublist (b.queue p) :=
  List.filter_sublist.trans (picksOf_sublist hb p)

theorem handover_noteId (picks : List Pick) :
    (picks.filterMap (handover rawNotes)).map RoutedNote.noteId =
      (picks.map Pick.noteId).filter (· ∈ rawNotes) := by
  induction picks with
  | nil => rfl
  | cons k picks ih =>
    cases hraw : rawNotes.lookup k.noteId with
    | none =>
      have hmem : k.noteId ∉ rawNotes := Finmap.lookup_eq_none.mp hraw
      rw [List.filterMap_cons_none (handover_none hraw), List.map_cons,
        List.filter_cons_of_neg (by simpa using hmem)]
      exact ih
    | some bytes =>
      have hmem : k.noteId ∈ rawNotes := FiniteMap.mem_of_lookup hraw
      rw [List.filterMap_cons_some (handover_some hraw), List.map_cons, List.map_cons,
        List.filter_cons_of_pos (by simpa using hmem), ih]

/-- The pair of the order stored under an id. -/
def pairOf (b : OrderBook) (id : OrderId) : Pair :=
  ((b.orders.lookup id).map Order.pair).getD (0, 0)

theorem pairOf_of_queued (hb : b.InStep ∅) {p : Pair} {id : OrderId} (hid : id ∈ b.queue p) :
    pairOf b id = p := by
  obtain ⟨o, ho, hp, -⟩ := hb.mem_queue.mp hid
  rw [pairOf, ho]
  exact hp

/-- Of the concatenated segments, only a pair's own holds ids of that pair. -/
theorem filter_pairOf_flatMap (hb : b.InStep ∅) (hnd : order.Nodup) (p : Pair) :
    (order.flatMap (routedFor b rawNotes quotes now)).filter (fun i => pairOf b i = p) =
      if p ∈ order then routedFor b rawNotes quotes now p else [] := by
  have hseg : ∀ q, (routedFor b rawNotes quotes now q).filter (fun i => pairOf b i = p) =
      if q = p then routedFor b rawNotes quotes now q else [] := by
    intro q
    have hq : ∀ i ∈ routedFor b rawNotes quotes now q, pairOf b i = q := fun i hi =>
      pairOf_of_queued hb ((routedFor_sublist hb q).subset hi)
    split
    · rename_i h
      exact List.filter_eq_self.mpr fun i hi => by simpa using (hq i hi).trans h
    · rename_i h
      exact List.filter_eq_nil_iff.mpr fun i hi hc =>
        h ((hq i hi).symm.trans (of_decide_eq_true hc))
  induction order with
  | nil => rfl
  | cons q order ih =>
    rw [List.nodup_cons] at hnd
    rw [List.flatMap_cons, List.filter_append, hseg, ih hnd.2]
    by_cases hqp : q = p
    · subst hqp
      simp [hnd.1]
    · simp [hqp, Ne.symm hqp]

/-- **The routed notes of a pair, in the order they are routed, are those of its queue.** -/
theorem routedIds_filter (hb : b.InStep ∅) (horder : VisitsPairs order quotes) (p : Pair) :
    (routedIds b rawNotes quotes order now).filter (fun i => pairOf b i = p) =
      (b.queue p).filter (· ∈ routedIds b rawNotes quotes order now) := by
  have hsub : ((routedIds b rawNotes quotes order now).filter fun i => pairOf b i = p).Sublist
      (b.queue p) := by
    rw [routedIds_eq, filter_pairOf_flatMap hb horder.1]
    split
    · exact routedFor_sublist hb p
    · exact List.nil_sublist _
  rw [← sublist_eq_filter hsub (hb.indexed.nodup p)]
  refine List.filter_congr fun i hi => ?_
  simp [List.mem_filter, pairOf_of_queued hb hi]

theorem picks_nodup (hb : b.InStep ∅) (horder : VisitsPairs order quotes) :
    ((order.flatMap (picksOf (wholeNotes b) quotes now)).map Pick.noteId).Nodup := by
  rw [List.map_flatMap, List.nodup_flatMap]
  refine ⟨fun p _ => (picksOf_sublist hb p).nodup (hb.indexed.nodup p), ?_⟩
  refine List.Pairwise.imp (fun {p q} hne => ?_) horder.1
  intro i hp hq
  have hp := pairOf_of_queued hb ((picksOf_sublist hb p).subset hp)
  have hq := pairOf_of_queued hb ((picksOf_sublist hb q).subset hq)
  exact hne (hp.symm.trans hq)

/-- **What the pass offers to the channel**: the routed notes, each once, each whole and
visible before, and all of them parked. -/
theorem routeExternal_spec (rawNotes : FiniteMap OrderId Bytes) (now : Nat) (hb : b.InStep ∅)
    (horder : VisitsPairs order quotes) :
    let r := routeExternal b rawNotes quotes order now
    r.1.map RoutedNote.noteId = routedIds b rawNotes quotes order now ∧
    (r.1.map RoutedNote.noteId).Nodup ∧ ParkedItems r.1 now b r.2 ∧
    ∀ item ∈ r.1, item.noteId ∉ b.parked ∧
      ∃ o, b.orders.lookup item.noteId = some o ∧ item.fill = o.requested := by
  have hmem : ∀ k ∈ order.flatMap (picksOf (wholeNotes b) quotes now), k.noteId ∈ b.queue k.pair ∧
      ∃ o, b.orders.lookup k.noteId = some o ∧ k.fill = o.requested := by
    intro k hk
    obtain ⟨p, -, hk⟩ := List.mem_flatMap.mp hk
    obtain ⟨hp, hq, ho⟩ := mem_picksOf hb hk
    exact ⟨hp ▸ hq, ho⟩
  obtain ⟨hitems, hpk⟩ := routePicks_spec rawNotes now hb
    (fun k hk => (hmem k hk).1) (picks_nodup hb horder)
  intro r
  have hr : r = routePicks rawNotes now (order.flatMap (picksOf (wholeNotes b) quotes now)) b :=
    routeExternal_eq rawNotes horder
  rw [hr, hitems]
  refine ⟨handover_noteId _, ?_, hpk, fun item hitem => ?_⟩
  · rw [handover_noteId]
    exact (picks_nodup hb horder).filter _
  · obtain ⟨k, hk, hid, -, hfill, -⟩ := mem_handover_noteId hitem
    obtain ⟨hq, ho⟩ := hmem k hk
    obtain ⟨-, -, -, hnp, -⟩ := hb.mem_queue.mp hq
    rw [hid, hfill]
    exact ⟨hnp, ho⟩

/-- The items of the batch a pass handed over. -/
def PassResult.sentItems (r : PassResult) : List RoutedNote := (r.sent.map RouteBatch.items).getD []

/-- **A handover that was sent**: the newly parked notes are exactly the items, each once,
for the item's DEX and at the tick time, each whole; every other order is untouched. -/
structure Handed (items : List RoutedNote) (now : Nat) (b b' : OrderBook) : Prop where
  once : (items.map RoutedNote.noteId).Nodup
  whole : ∀ item ∈ items, item.noteId ∉ b.parked ∧
    ∃ o, b.orders.lookup item.noteId = some o ∧ item.fill = o.requested
  parked : ∀ i v, b'.parked.lookup i = some v ↔
    b.parked.lookup i = some v ∨ ∃ item ∈ items, item.noteId = i ∧ v = (item.dex, now)
  orders : b'.orders = b.orders
  queue : ∀ p, b'.queue p = (b.queue p).filter (· ∉ items.map RoutedNote.noteId)

/-- **Atomicity of a pass**: when the channel takes the batch its items are handed over,
and when it does not the book looks as before. -/
def AtomicPass (b : OrderBook) (now : Nat) (result : TrySend) (r : PassResult) : Prop :=
  match result with
  | .ok => Handed r.sentItems now b r.book
  | .full => r.sent = none ∧ b.LooksAlike r.book
  | .closed => r.sent = none ∧ b.LooksAlike r.book

/-- In every pair, no unrouted note stands behind a routed one of its rate. -/
def RoutedLast (b : OrderBook) (routed : List OrderId) : Prop :=
  ∀ p, (b.queue p).Pairwise fun i j =>
    compare (b.keyOf i) (b.keyOf j) = .eq → i ∈ routed → j ∈ routed

/-- **Rolling a whole batch back** restores the parked notes and enqueues the items behind
the others of their rate. -/
theorem rollback_routeExternal (rawNotes : FiniteMap OrderId Bytes) (now : Nat)
    (hb : b.InStep ∅) (horder : VisitsPairs order quotes) :
    let r := routeExternal b rawNotes quotes order now
    (rollback r.1 r.2).InStep ∅ ∧ (rollback r.1 r.2).orders = b.orders ∧
    (rollback r.1 r.2).parked = b.parked ∧
    ∀ p, (rollback r.1 r.2).queue p =
      ((b.queue p).filter (· ∈ routedIds b rawNotes quotes order now)).foldl
        (fun acc i => enqueue b.keyOf i acc)
        ((b.queue p).filter (· ∉ routedIds b rawNotes quotes order now)) := by
  dsimp only
  obtain ⟨hids, hnd, hpk, hwhole⟩ := routeExternal_spec rawNotes now hb horder
  generalize (routeExternal b rawNotes quotes order now).1 = items at *
  generalize (routeExternal b rawNotes quotes order now).2 = b₁ at *
  have hkey : b₁.keyOf = b.keyOf := funext fun i => OrderBook.keyOf_congr (by rw [hpk.orders])
  have hparked : ∀ item ∈ items, item.noteId ∈ b₁.parked := fun item hitem =>
    FiniteMap.mem_of_lookup ((hpk.parked _ (item.dex, now)).mpr (Or.inr ⟨item, hitem, rfl, rfl⟩))
  obtain ⟨hstep, horders, hpark, hqueue⟩ := rollback_spec hpk.inStep hparked
    hnd (pairOf b) fun item _ o ho => by
      rw [hpk.orders] at ho
      rw [pairOf, ho]
      rfl
  have hparkEq : (rollback items b₁).parked = b.parked := Finmap.ext_lookup fun i => by
    rw [hpark]
    split
    · rename_i hi
      obtain ⟨item, hitem, rfl⟩ := List.mem_map.mp hi
      exact (Finmap.lookup_eq_none.mpr (hwhole item hitem).1).symm
    · rename_i hi
      refine Option.ext fun v => ?_
      rw [hpk.parked]
      refine or_iff_left ?_
      rintro ⟨item, hitem, rfl, -⟩
      exact hi (List.mem_map_of_mem hitem)
  refine ⟨hstep, horders.trans hpk.orders, hparkEq, fun p => ?_⟩
  rw [hqueue, hids, routedIds_filter hb horder, hkey, hpk.queue, hids]

/-- A rolled back book looks like the one before iff the routed notes stood last in their
rates. -/
theorem rollback_looksAlike_iff (hb : b.InStep ∅) (horder : VisitsPairs order quotes) :
    b.LooksAlike (rollback (routeExternal b rawNotes quotes order now).1
      (routeExternal b rawNotes quotes order now).2) ↔
    RoutedLast b (routedIds b rawNotes quotes order now) := by
  obtain ⟨hstep, horders, hparked, hqueue⟩ :=
    rollback_routeExternal rawNotes now hb horder
  rw [hb.looksAlike_iff hstep horders hparked]
  refine forall_congr' fun p => ?_
  rw [hqueue]
  have := foldl_enqueue_eq_iff (hb.indexed.sorted p) fun i =>
    decide (i ∈ routedIds b rawNotes quotes order now)
  simpa using this

variable (b rawNotes quotes order now) in
/-- The outcome of a pass in terms of what `route_external` returns. -/
theorem externalPass_ok :
    (externalPass b rawNotes quotes order now .ok).sentItems =
      (routeExternal b rawNotes quotes order now).1 ∧
    (externalPass b rawNotes quotes order now .ok).book =
      (routeExternal b rawNotes quotes order now).2 := by
  unfold externalPass
  dsimp only
  split
  · rename_i hnil
    exact ⟨hnil.symm, rfl⟩
  · exact ⟨rfl, rfl⟩

variable (b rawNotes quotes order now) in
theorem externalPass_not_ok {result : TrySend} (h : result ≠ .ok) :
    (externalPass b rawNotes quotes order now result).sent = none ∧
    (externalPass b rawNotes quotes order now result).book =
      rollback (routeExternal b rawNotes quotes order now).1
        (routeExternal b rawNotes quotes order now).2 := by
  unfold externalPass
  dsimp only
  split
  · rename_i hnil
    rw [hnil]
    exact ⟨rfl, rfl⟩
  · cases result with
    | ok => exact absurd rfl h
    | full => exact ⟨rfl, rfl⟩
    | closed => exact ⟨rfl, rfl⟩

/-! ### What a pass keeps -/

/-- Parking at a time not before the earlier parks keeps the book reachable, and adds
entries of that time only. -/
theorem routePicks_reachable {picks : List Pick} {b : OrderBook} (hb : b.Reachable)
    (htime : ∀ e ∈ b.parkQueue, e.1 ≤ now) :
    (routePicks rawNotes now picks b).2.Reachable ∧
    ∀ e ∈ (routePicks rawNotes now picks b).2.parkQueue, e ∈ b.parkQueue ∨ e.1 = now := by
  induction picks generalizing b with
  | nil => exact ⟨hb, fun e he => Or.inl he⟩
  | cons k picks ih =>
    rw [routePicks]
    split
    · exact ih hb htime
    · have hqueue : ∀ e ∈ (b.park k.noteId k.dex now).parkQueue, e ∈ b.parkQueue ∨ e.1 = now := by
        intro e he
        exact (b.mem_parkQueue_park k.noteId he).imp id fun h => congrArg Prod.fst h
      obtain ⟨hreach, hrest⟩ := ih (hb.park k.noteId k.dex htime) fun e he =>
        (hqueue e he).elim (htime e) Nat.le_of_eq
      exact ⟨hreach, fun e he => (hrest e he).elim (hqueue e) Or.inr⟩

theorem rollback_reachable {items : List RoutedNote} {b : OrderBook} (hb : b.Reachable) :
    (rollback items b).Reachable ∧ (rollback items b).parkQueue = b.parkQueue := by
  induction items generalizing b with
  | nil => exact ⟨hb, rfl⟩
  | cons item items ih =>
    obtain ⟨hreach, hqueue⟩ := ih (hb.unpark item.noteId)
    exact ⟨hreach, hqueue.trans (OrderBook.unpark_parkQueue _ _)⟩

/-- **A pass keeps the book reachable** and adds entries of its own time to the queue. -/
theorem externalPass_reachable (rawNotes : FiniteMap OrderId Bytes) (hb : b.Reachable)
    (htime : ∀ e ∈ b.parkQueue, e.1 ≤ now)
    (horder : VisitsPairs order quotes) (result : TrySend) :
    (externalPass b rawNotes quotes order now result).book.Reachable ∧
    ∀ e ∈ (externalPass b rawNotes quotes order now result).book.parkQueue,
      e ∈ b.parkQueue ∨ e.1 = now := by
  have hroute : (routeExternal b rawNotes quotes order now).2.Reachable ∧
      ∀ e ∈ (routeExternal b rawNotes quotes order now).2.parkQueue,
        e ∈ b.parkQueue ∨ e.1 = now := by
    rw [routeExternal_eq rawNotes horder]
    exact routePicks_reachable hb htime
  by_cases hok : result = .ok
  · rw [hok, (externalPass_ok b rawNotes quotes order now).2]
    exact hroute
  · rw [(externalPass_not_ok b rawNotes quotes order now hok).2]
    obtain ⟨hreach, hqueue⟩ := rollback_reachable hroute.1
    exact ⟨hreach, hqueue ▸ hroute.2⟩

/-- **What becomes of an order in a pass**: the orders stay, the items are now parked, and
a note that was parked or not sent is as it was. -/
theorem externalPass_frame (rawNotes : FiniteMap OrderId Bytes) (now : Nat) (hb : b.InStep ∅)
    (horder : VisitsPairs order quotes) (result : TrySend) :
    let r := externalPass b rawNotes quotes order now result
    r.book.orders = b.orders ∧
    (∀ item ∈ r.sentItems, item.noteId ∈ b.orders ∧ item.noteId ∉ b.parked) ∧
    ∀ i, i ∈ r.book.parked ↔ i ∈ b.parked ∨ i ∈ r.sentItems.map RoutedNote.noteId := by
  dsimp only
  by_cases hok : result = .ok
  · obtain ⟨-, -, hpk, hwhole⟩ := routeExternal_spec rawNotes now hb horder
    obtain ⟨hitems, hbook⟩ := externalPass_ok b rawNotes quotes order now
    rw [hok, hitems, hbook]
    refine ⟨hpk.orders, fun item hitem => ?_, fun i => ?_⟩
    · obtain ⟨hnp, o, ho, -⟩ := hwhole item hitem
      exact ⟨FiniteMap.mem_of_lookup ho, hnp⟩
    · rw [Finmap.mem_iff, Finmap.mem_iff, List.mem_map]
      simp only [hpk.parked]
      grind
  · obtain ⟨hsent, hbook⟩ := externalPass_not_ok b rawNotes quotes order now hok
    obtain ⟨-, horders, hparked, -⟩ := rollback_routeExternal rawNotes now hb horder
    rw [PassResult.sentItems, hsent, hbook, horders, hparked]
    simp

/-- **When the external pass is atomic.**  On every reachable book the pass is atomic iff
the channel takes the batch or the routed notes stood last in their rates. -/
theorem external_pass_atomic_iff (hb : b.Reachable) (horder : VisitsPairs order quotes)
    (result : TrySend) :
    AtomicPass b now result (externalPass b rawNotes quotes order now result) ↔
      result = .ok ∨ RoutedLast b (routedIds b rawNotes quotes order now) := by
  have hstep := hb.inv.inStep
  by_cases hok : result = .ok
  · subst hok
    obtain ⟨hitems, hbook⟩ := externalPass_ok b rawNotes quotes order now
    obtain ⟨-, hnd, hpk, hwhole⟩ := routeExternal_spec rawNotes now hstep horder
    refine iff_of_true ?_ (Or.inl rfl)
    show Handed _ now b _
    rw [hitems, hbook]
    exact ⟨hnd, hwhole, hpk.parked, hpk.orders, hpk.queue⟩
  · obtain ⟨hsent, hbook⟩ := externalPass_not_ok b rawNotes quotes order now hok
    rw [or_iff_right hok, ← rollback_looksAlike_iff hstep horder, ← hbook]
    cases result with
    | ok => exact absurd rfl hok
    | full => exact and_iff_right hsent
    | closed => exact and_iff_right hsent

end Pass

/-! ### A rollback that reorders a rate

Two notes of one rate stand in the queue, and the quote has room for the first only.  The
first is parked and, the channel being full, enqueued again behind the second. -/

/-- The raw bytes of both notes. -/
def twoNoteBytes : FiniteMap OrderId Bytes := Finmap.insert 2 [] (Finmap.insert 1 [] ∅)

/-- One quote of DEX 7 for the pair, at par and with room for `supply` units. -/
def parQuote (supply : Nat) : QuotesSnapshot :=
  Finmap.insert (1, 2) [⟨7, (1, 2), supply, supply, 100, 0⟩] ∅

/-- **A full channel costs the dropped note its place**: note 1 was first at its rate and
is second after the rollback. -/
theorem full_channel_reorders_rate :
    twoNoteBook.Reachable ∧ VisitsPairs [(1, 2)] (parQuote 10) ∧
    (twoNoteBook.notesForPair 1 2).map Order.id = [1, 2] ∧
    ((externalPass twoNoteBook twoNoteBytes (parQuote 10) [(1, 2)] 50
      .full).book.notesForPair 1 2).map Order.id = [2, 1] ∧
    ¬ AtomicPass twoNoteBook 50 .full
      (externalPass twoNoteBook twoNoteBytes (parQuote 10) [(1, 2)] 50 .full) := by
  have hbefore : (twoNoteBook.notesForPair 1 2).map Order.id = [1, 2] := by decide
  have hafter : ((externalPass twoNoteBook twoNoteBytes (parQuote 10) [(1, 2)] 50
      .full).book.notesForPair 1 2).map Order.id = [2, 1] := by decide
  refine ⟨twoNoteBook_reachable, ⟨by decide, by decide⟩, hbefore, hafter, fun h => ?_⟩
  rw [h.2.notes, hbefore] at hafter
  cases hafter

/-- On the same book a quote with room for both notes is rolled back without a trace. -/
theorem external_pass_atomic_twoNote :
    AtomicPass twoNoteBook 50 .full
      (externalPass twoNoteBook twoNoteBytes (parQuote 30) [(1, 2)] 50 .full) := by
  refine (external_pass_atomic_iff twoNoteBook_reachable ⟨by decide, by decide⟩ .full).mpr
    (Or.inr fun p => List.pairwise_of_forall_mem_list fun i _ j hj _ _ => ?_)
  -- the quote covers every note of the book
  obtain ⟨o, ho, -⟩ := twoNoteBook_reachable.inv.inStep.mem_queue.mp hj
  have hkeys : twoNoteBook.orders.keys = {1, 2} := by decide
  have hrouted : routedIds twoNoteBook twoNoteBytes (parQuote 30) [(1, 2)] 50 = [1, 2] := by decide
  have hj' : j ∈ twoNoteBook.orders.keys := Finmap.mem_keys.mpr (FiniteMap.mem_of_lookup ho)
  rw [hkeys] at hj'
  rw [hrouted]
  simpa using hj'

end PswapSolver
