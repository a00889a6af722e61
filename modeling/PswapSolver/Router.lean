import PswapSolver.ExternalPass
import PswapSolver.Publication
import PswapSolver.Runs
import Mathlib.Data.List.Sort

/-! # The router

The model of `RouterState` in `router/server.rs`.  DEXes connect and post standing quotes,
the router publishes the quotes to the matcher and delivers the batches the matcher
sends.  Every call is cut at its locks: a step is one section under a lock, or one send
on the watch channel, so that calls of different connections interleave as they do on
the server's threads.

The quotes and their publication are a `Publication.Board`.
-/
namespace PswapSolver
open Publication

/-! ## The quotes -/

/-- The quotes of each DEX, by pair. -/
abbrev Quotes := FiniteMap DexId (FiniteMap Pair Quote)

/-- The quote of a DEX for a pair. -/
def quoteAt (quotes : Quotes) (dex : DexId) (pair : Pair) : Option Quote :=
  (quotes.lookup dex).bind fun perPair => perPair.lookup pair

/-- Stores a quote, over the one its DEX had for the pair. -/
def insertQuote (quotes : Quotes) (q : Quote) : Quotes :=
  quotes.insert q.dex (((quotes.lookup q.dex).getD ∅).insert q.pair q)

/-- Removes the quote an item was selected against, and says whether there was one. -/
def useQuote (quotes : Quotes) (item : RoutedNote) : Quotes × Bool :=
  match quotes.lookup item.dex with
  | none => (quotes, false)
  | some perPair =>
    (quotes.insert item.dex (perPair.erase item.pair), (perPair.lookup item.pair).isSome)

/-- Removes the quotes of a whole batch, and says whether there was any. -/
def useQuotes : List RoutedNote → Quotes → Quotes × Bool
  | [], quotes => (quotes, false)
  | item :: items, quotes =>
    ((useQuotes items (useQuote quotes item).1).1,
      (useQuote quotes item).2 || (useQuotes items (useQuote quotes item).1).2)

/-- The order of a published list: descending rate `supply / demand`. -/
def moreGenerous (a b : Quote) : Prop := b.supply * a.demand ≤ a.supply * b.demand

instance (a b : Quote) : Decidable (moreGenerous a b) := inferInstanceAs (Decidable (_ ≤ _))

/-- A visit of all quotes, with the DEX and the pair they are stored under, in any order. -/
def VisitsQuotes (entries : List ((DexId × Pair) × Quote)) (quotes : Quotes) : Prop :=
  (entries.map Prod.fst).Nodup ∧ ∀ k q, (k, q) ∈ entries ↔ quoteAt quotes k.1 k.2 = some q

/-- Groups the visited quotes by pair. -/
def groupByPair (entries : List ((DexId × Pair) × Quote)) : QuotesSnapshot :=
  entries.foldl
    (fun byPair e => byPair.insert e.1.2 (((byPair.lookup e.1.2).getD []) ++ [e.2])) ∅

/-- **The snapshot of the quotes**, as a visit in a given order builds it. -/
def snapshot (entries : List ((DexId × Pair) × Quote)) : QuotesSnapshot :=
  (groupByPair entries).mapWithKey fun _ list => list.insertionSort moreGenerous

/-- A snapshot of the quotes. -/
def SnapshotOf (quotes : Quotes) (snap : QuotesSnapshot) : Prop :=
  ∃ entries, VisitsQuotes entries quotes ∧ snap = snapshot entries

/-! ## What the operations do to a quote -/

section Quotes
variable {quotes : Quotes} {dex : DexId} {pair : Pair}

@[simp] theorem quoteAt_empty : quoteAt ∅ dex pair = none := rfl

theorem quoteAt_insertQuote (q : Quote) : quoteAt (insertQuote quotes q) dex pair =
    if dex = q.dex ∧ pair = q.pair then some q else quoteAt quotes dex pair := by
  unfold quoteAt insertQuote
  rw [FiniteMap.lookup_insert_if]
  by_cases hd : dex = q.dex
  · subst hd
    rw [if_pos rfl, Option.bind_some, FiniteMap.lookup_insert_if]
    by_cases hp : pair = q.pair
    · rw [if_pos hp, if_pos ⟨rfl, hp⟩]
    · rw [if_neg hp, if_neg fun h => hp h.2]
      cases quotes.lookup q.dex with
      | none => rfl
      | some perPair => rfl
  · rw [if_neg hd, if_neg fun h => hd h.1]

theorem quoteAt_erase (d : DexId) : quoteAt (quotes.erase d) dex pair =
    if dex = d then none else quoteAt quotes dex pair := by
  unfold quoteAt
  rw [FiniteMap.lookup_erase_if]
  split
  · rfl
  · rfl

theorem quoteAt_useQuote (item : RoutedNote) : quoteAt (useQuote quotes item).1 dex pair =
    if dex = item.dex ∧ pair = item.pair then none else quoteAt quotes dex pair := by
  unfold useQuote
  cases hm : quotes.lookup item.dex with
  | none =>
    show quoteAt quotes dex pair = _
    split
    · rename_i h
      rw [h.1, quoteAt, hm]
      rfl
    · rfl
  | some perPair =>
    unfold quoteAt
    rw [FiniteMap.lookup_insert_if]
    by_cases hd : dex = item.dex
    · subst hd
      rw [if_pos rfl, Option.bind_some, FiniteMap.lookup_erase_if, hm]
      simp
    · rw [if_neg hd, if_neg fun h => hd h.1]

/-- A batch removes the quotes of its items, and no other. -/
theorem quoteAt_useQuotes (items : List RoutedNote) : quoteAt (useQuotes items quotes).1 dex pair =
    if ∃ item ∈ items, dex = item.dex ∧ pair = item.pair then none
    else quoteAt quotes dex pair := by
  induction items generalizing quotes with
  | nil => simp [useQuotes]
  | cons item items ih =>
    rw [useQuotes, ih, quoteAt_useQuote]
    by_cases hitem : dex = item.dex ∧ pair = item.pair
    · have hsome : ∃ i ∈ item :: items, dex = i.dex ∧ pair = i.pair :=
        ⟨item, List.mem_cons_self .., hitem⟩
      rw [if_pos hitem, if_pos hsome, ite_self]
    · rw [if_neg hitem]
      simp [hitem]

theorem useQuote_eq_of_false {item : RoutedNote} (h : (useQuote quotes item).2 = false) :
    (useQuote quotes item).1 = quotes := by
  unfold useQuote at h ⊢
  cases hm : quotes.lookup item.dex with
  | none => rfl
  | some perPair =>
    rw [hm] at h
    have hnone : item.pair ∉ perPair := by
      rw [← Finmap.lookup_eq_none]
      exact Option.isSome_eq_false_iff.mp h |> Option.isNone_iff_eq_none.mp
    show quotes.insert item.dex (perPair.erase item.pair) = quotes
    have herase : perPair.erase item.pair = perPair := Finmap.ext_lookup fun p => by
      rw [FiniteMap.lookup_erase_if]
      split
      · rename_i hp
        rw [hp, Finmap.lookup_eq_none.mpr hnone]
      · rfl
    rw [herase]
    exact FiniteMap.insert_of_lookup hm

/-- A batch that removes no quote leaves the quotes as they are. -/
theorem useQuotes_eq_of_false {items : List RoutedNote} (h : (useQuotes items quotes).2 = false) :
    (useQuotes items quotes).1 = quotes := by
  induction items generalizing quotes with
  | nil => rfl
  | cons item items ih =>
    obtain ⟨hitem, hrest⟩ := Bool.or_eq_false_iff.mp h
    rw [useQuotes, ih hrest]
    exact useQuote_eq_of_false hitem

end Quotes

/-! ## What is in a snapshot -/

section Snapshot
variable {entries : List ((DexId × Pair) × Quote)} {pair : Pair}

/-- Grouping keeps, for every pair, the quotes visited under it, in order. -/
theorem lookup_groupByPair : ((groupByPair entries).lookup pair).getD [] =
    (entries.filter fun e => e.1.2 = pair).map Prod.snd := by
  have hfold : ∀ acc : QuotesSnapshot,
      ((entries.foldl (fun byPair e =>
        byPair.insert e.1.2 (((byPair.lookup e.1.2).getD []) ++ [e.2])) acc).lookup pair).getD [] =
      (acc.lookup pair).getD [] ++ (entries.filter fun e => e.1.2 = pair).map Prod.snd := by
    induction entries with
    | nil => simp
    | cons e entries ih =>
      intro acc
      rw [List.foldl_cons, ih, FiniteMap.lookup_insert_if]
      by_cases hp : e.1.2 = pair
      · subst hp
        simp
      · simp [hp, Ne.symm hp]
  exact hfold ∅

theorem lookup_snapshot : ((snapshot entries).lookup pair).getD [] =
    ((entries.filter fun e => e.1.2 = pair).map Prod.snd).insertionSort moreGenerous := by
  rw [snapshot, FiniteMap.lookup_mapWithKey, ← lookup_groupByPair]
  cases (groupByPair entries).lookup pair with
  | none => rfl
  | some list => rfl

/-- A new quote is visited besides the others. -/
theorem VisitsQuotes.insertQuote {quotes : Quotes} (h : VisitsQuotes entries quotes) {q : Quote}
    (hnew : quoteAt quotes q.dex q.pair = none) :
    VisitsQuotes (entries ++ [((q.dex, q.pair), q)]) (insertQuote quotes q) := by
  have hnotMem : (q.dex, q.pair) ∉ entries.map Prod.fst := by
    intro hmem
    obtain ⟨⟨k, q'⟩, he, hk⟩ := List.mem_map.mp hmem
    have hat := (h.2 k q').mp he
    rw [show k = (q.dex, q.pair) from hk, hnew] at hat
    cases hat
  constructor
  · rw [List.map_append, List.map_singleton]
    exact (List.nodup_append_comm.trans List.nodup_cons).mpr ⟨hnotMem, h.1⟩
  · rintro ⟨dex, pair⟩ q'
    rw [List.mem_append, h.2, quoteAt_insertQuote, List.mem_singleton, Prod.mk.injEq, Prod.mk.injEq]
    by_cases hkey : dex = q.dex ∧ pair = q.pair
    · rw [if_pos hkey, hkey.1, hkey.2, hnew]
      simp [eq_comm]
    · simp [hkey]

/-- **What a snapshot lists under a pair**: the quotes stored under it. -/
theorem SnapshotOf.mem {quotes : Quotes} {snap : QuotesSnapshot} (h : SnapshotOf quotes snap)
    {q : Quote} : q ∈ (snap.lookup pair).getD [] ↔ ∃ dex, quoteAt quotes dex pair = some q := by
  obtain ⟨entries, ⟨-, hentries⟩, rfl⟩ := h
  rw [lookup_snapshot, List.mem_insertionSort, List.mem_map]
  constructor
  · rintro ⟨⟨⟨dex, p⟩, q⟩, he, rfl⟩
    obtain ⟨hmem, hp⟩ := List.mem_filter.mp he
    obtain rfl : p = pair := by simpa using hp
    exact ⟨dex, (hentries (dex, p) q).mp hmem⟩
  · rintro ⟨dex, hq⟩
    exact ⟨((dex, pair), q), List.mem_filter.mpr ⟨(hentries _ q).mpr hq, by simp⟩, rfl⟩

end Snapshot

/-! ## Messages -/

/-- A fungible asset. -/
structure Asset where
  faucetId : TokenId
  amount : Nat
deriving DecidableEq

/-- What a DEX sends: a quote as the filler sees it. -/
inductive ClientMsg where
  | quote (offered requested : Asset) (validForMs : Option Nat)
deriving DecidableEq

/-- What the router sends to a DEX; the note of a handover travels as bytes. -/
inductive ServerMsg where
  | authOk
  | handover (noteBytes : Bytes) (fillAmount : Nat)
  | error (code msg : String)
deriving DecidableEq

/-- `register_quote` up to the lock: the quote in the orientation of the notes it fills,
which offer what the DEX wants and request what it gives. -/
def makeQuote (quoteTtlMs : Nat) (dex : DexId) (offered requested : Asset)
    (validForMs : Option Nat) (nowMillis serial : Nat) : Except ServerMsg Quote :=
  if offered.amount = 0 ∨ requested.amount = 0 then
    .error (.error "bad_quote" "quote amounts must be > 0")
  else
    .ok
      { dex := dex
        pair := (requested.faucetId, offered.faucetId)
        supply := offered.amount
        demand := requested.amount
        expiresAt := satAdd64 nowMillis ((validForMs.map (min · quoteTtlMs)).getD quoteTtlMs)
        serial := serial }

/-- `handle_client_msg` up to the lock, for a message or the reason why it does not decode. -/
def handleClientMsg (quoteTtlMs : Nat) (dex : DexId) (decoded : Except String ClientMsg)
    (nowMillis serial : Nat) : Except ServerMsg Quote :=
  match decoded with
  | .error reason => .error (.error "bad_message" ("undecodable message: " ++ reason))
  | .ok (.quote offered requested validForMs) =>
    makeQuote quoteTtlMs dex offered requested validForMs nowMillis serial

/-- A valid message makes a quote of its DEX, with the next serial and positive amounts. -/
theorem handleClientMsg_ok {quoteTtlMs dex nowMillis serial : Nat}
    {decoded : Except String ClientMsg} {q : Quote}
    (h : handleClientMsg quoteTtlMs dex decoded nowMillis serial = .ok q) :
    q.dex = dex ∧ q.serial = serial ∧ 0 < q.supply ∧ 0 < q.demand := by
  cases decoded with
  | error reason => cases h
  | ok msg =>
    obtain ⟨offered, requested, validForMs⟩ := msg
    rw [handleClientMsg, makeQuote] at h
    split at h
    · cases h
    · rename_i hpos
      obtain ⟨hsupply, hdemand⟩ := not_or.mp hpos
      cases h
      exact ⟨rfl, rfl, Nat.pos_of_ne_zero hsupply, Nat.pos_of_ne_zero hdemand⟩

/-! ## The state -/

/-- Who calls: the reader loop of a connection, or a task that delivers batches. -/
inductive Caller where
  | conn (dex : DexId)
  | relay (task : Nat)
deriving DecidableEq

/-- A call between its section on the connections and its section on the quotes. -/
inductive Midway where
  | delivered (task : Nat) (batch : RouteBatch)
  | disconnected (dex : DexId)
deriving DecidableEq

/-- Who made the call. -/
def Midway.caller : Midway → Caller
  | delivered task _ => .relay task
  | disconnected dex => .conn dex

/-- **The state of the router.**  `board` holds the quotes and their publication, `conns`
what was put on the outbound channel of each connection, `midway` the calls between two
sections. -/
structure RouterState where
  board : Board Caller Quotes QuotesSnapshot
  conns : FiniteMap DexId (List ServerMsg)
  nextDex : DexId
  nextSerial : Nat
  midway : List Midway

namespace RouterState

/-- The router when it starts. -/
def new : RouterState where
  board := ⟨∅, [], [], ∅⟩
  conns := ∅
  nextDex := 1
  nextSerial := 0
  midway := []

/-- The quotes map. -/
abbrev quotes (s : RouterState) : Quotes := s.board.value

/-- The snapshot on the watch channel. -/
abbrev published (s : RouterState) : QuotesSnapshot := s.board.published

/-- The caller has a call in progress. -/
def Busy (s : RouterState) (c : Caller) : Prop :=
  c ∈ s.midway.map Midway.caller ∨ c ∈ s.board.owing ∨ c ∈ s.board.unsent.map Prod.fst

instance (s : RouterState) (c : Caller) : Decidable (s.Busy c) :=
  inferInstanceAs (Decidable (_ ∨ _ ∨ _))

/-- All calls have returned. -/
def Quiet (s : RouterState) : Prop := s.midway = [] ∧ s.board.Settled

/-- Puts a message on the outbound channel of a DEX, if it is connected. -/
def push (conns : FiniteMap DexId (List ServerMsg)) (dex : DexId) (msg : ServerMsg) :
    FiniteMap DexId (List ServerMsg) := conns.modify dex (· ++ [msg])

/-- Hands the items of a batch over to the connections. -/
def handOver (conns : FiniteMap DexId (List ServerMsg)) (items : List RoutedNote) :
    FiniteMap DexId (List ServerMsg) :=
  items.foldl (fun conns item => push conns item.dex (.handover item.noteBytes item.fill)) conns

end RouterState

/-- What happens in a step. -/
inductive RouterEvent where
  | connect (dex : DexId)
  | register (quote : Quote)
  | reject (dex : DexId) (reply : ServerMsg)
  | deliver (task : Nat) (batch : RouteBatch)
  | consume (task : Nat) (batch : RouteBatch)
  | disconnect (dex : DexId)
  | forget (dex : DexId)
  | publish (step : Publish Caller)

namespace RouterState

/-- **The steps of the router.** -/
inductive Step (quoteTtlMs : Nat) : RouterState → RouterEvent → RouterState → Prop
  | connect {s : RouterState} :
      Step quoteTtlMs s (.connect s.nextDex)
        { s with nextDex := s.nextDex + 1, conns := s.conns.insert s.nextDex [.authOk] }
  | register {s : RouterState} {dex : DexId} {decoded : Except String ClientMsg} {nowMillis : Nat}
      {quote : Quote} (connected : dex ∈ s.conns) (idle : ¬ s.Busy (.conn dex))
      (valid : handleClientMsg quoteTtlMs dex decoded nowMillis s.nextSerial = .ok quote) :
      Step quoteTtlMs s (.register quote)
        { s with
          board := s.board.change (.conn dex) (insertQuote s.quotes quote)
          nextSerial := s.nextSerial + 1 }
  | reject {s : RouterState} {dex : DexId} {decoded : Except String ClientMsg} {nowMillis : Nat}
      {reply : ServerMsg} (connected : dex ∈ s.conns) (idle : ¬ s.Busy (.conn dex))
      (invalid : handleClientMsg quoteTtlMs dex decoded nowMillis s.nextSerial = .error reply) :
      Step quoteTtlMs s (.reject dex reply) { s with conns := push s.conns dex reply }
  /-- `deliver`, with the connections locked. -/
  | deliver {s : RouterState} {task : Nat} (batch : RouteBatch) (idle : ¬ s.Busy (.relay task)) :
      Step quoteTtlMs s (.deliver task batch)
        { s with
          conns := handOver s.conns batch.items
          midway := s.midway ++ [.delivered task batch] }
  /-- `deliver`, with the quotes locked: some quote was removed, so it will republish. -/
  | consume {s : RouterState} {task : Nat} {batch : RouteBatch} {before after : List Midway}
      (midway : s.midway = before ++ .delivered task batch :: after)
      (consumed : (useQuotes batch.items s.quotes).2 = true) :
      Step quoteTtlMs s (.consume task batch)
        { s with
          board := s.board.change (.relay task) (useQuotes batch.items s.quotes).1
          midway := before ++ after }
  /-- No quote was removed, and the call returns. -/
  | consumeNone {s : RouterState} {task : Nat} {batch : RouteBatch} {before after : List Midway}
      (midway : s.midway = before ++ .delivered task batch :: after)
      (consumed : (useQuotes batch.items s.quotes).2 = false) :
      Step quoteTtlMs s (.consume task batch)
        { s with
          board := { s.board with value := (useQuotes batch.items s.quotes).1 }
          midway := before ++ after }
  /-- `deregister`, with the connections locked. -/
  | disconnect {s : RouterState} {dex : DexId} (connected : dex ∈ s.conns)
      (idle : ¬ s.Busy (.conn dex)) :
      Step quoteTtlMs s (.disconnect dex)
        { s with conns := s.conns.erase dex, midway := s.midway ++ [.disconnected dex] }
  /-- `deregister`, with the quotes locked. -/
  | forget {s : RouterState} {dex : DexId} {before after : List Midway}
      (midway : s.midway = before ++ .disconnected dex :: after) :
      Step quoteTtlMs s (.forget dex)
        { s with
          board := s.board.change (.conn dex) (s.quotes.erase dex)
          midway := before ++ after }
  /-- `republish`: the snapshot with the quotes locked, and the send. -/
  | publish {s : RouterState} {e : Publish Caller} {board : Board Caller Quotes QuotesSnapshot}
      (step : s.board.Step SnapshotOf e board) :
      Step quoteTtlMs s (.publish e) { s with board := board }

/-! ## Where a quote is -/

section Invariant
variable {quoteTtlMs : Nat} {s s' : RouterState} {e : RouterEvent} {dex : DexId} {pair : Pair}
  {q : Quote}

theorem mem_push {conns : FiniteMap DexId (List ServerMsg)} {d : DexId} {msg : ServerMsg} :
    dex ∈ push conns d msg ↔ dex ∈ conns := FiniteMap.mem_modify

theorem mem_handOver {conns : FiniteMap DexId (List ServerMsg)} {items : List RoutedNote} :
    dex ∈ handOver conns items ↔ dex ∈ conns := by
  induction items generalizing conns with
  | nil => rfl
  | cons item items ih => exact ih.trans mem_push

/-- **Where a quote comes from**: it was there, or it was just posted. -/
theorem Step.quoteAt_origin (hstep : Step quoteTtlMs s e s')
    (hq : quoteAt s'.quotes dex pair = some q) :
    quoteAt s.quotes dex pair = some q ∨
      e = .register q ∧ dex = q.dex ∧ pair = q.pair ∧ dex ∈ s.conns := by
  have hchange : ∀ {P : Prop} [Decidable P],
      (if P then none else quoteAt s.quotes dex pair) = some q →
      quoteAt s.quotes dex pair = some q := by
    intro P _ h
    split at h
    · cases h
    · exact h
  cases hstep with
  | connect => exact Or.inl hq
  | register connected idle valid =>
    rw [quotes, Board.change, quoteAt_insertQuote] at hq
    split at hq
    · rename_i hkey
      cases hq
      exact Or.inr ⟨rfl, hkey.1, hkey.2, hkey.1 ▸ (handleClientMsg_ok valid).1 ▸ connected⟩
    · exact Or.inl hq
  | reject _ _ _ => exact Or.inl hq
  | deliver _ _ => exact Or.inl hq
  | consume _ _ =>
    rw [quotes, Board.change, quoteAt_useQuotes] at hq
    exact Or.inl (hchange hq)
  | consumeNone _ _ =>
    rw [quotes, quoteAt_useQuotes] at hq
    exact Or.inl (hchange hq)
  | disconnect _ _ => exact Or.inl hq
  | forget _ =>
    rw [quotes, Board.change, quoteAt_erase] at hq
    exact Or.inl (hchange hq)
  | publish step =>
    rw [quotes, step.value_eq] at hq
    exact Or.inl hq

/-- What a delivery leaves of the quotes. -/
theorem Step.quoteAt_consume {task : Nat} {batch : RouteBatch}
    (hstep : Step quoteTtlMs s (.consume task batch) s') : quoteAt s'.quotes dex pair =
      if ∃ item ∈ batch.items, dex = item.dex ∧ pair = item.pair then none
      else quoteAt s.quotes dex pair := by
  cases hstep with
  | consume _ _ => exact quoteAt_useQuotes batch.items
  | consumeNone _ _ => exact quoteAt_useQuotes batch.items

/-- A call between its two sections stays there until the second. -/
theorem Step.midway {x : Midway} (hstep : Step quoteTtlMs s e s') (hx : x ∈ s.midway) :
    x ∈ s'.midway ∨ (∃ task batch, x = .delivered task batch ∧ e = .consume task batch) ∨
      ∃ dex, x = .disconnected dex ∧ e = .forget dex := by
  cases hstep with
  | connect => exact Or.inl hx
  | register _ _ _ => exact Or.inl hx
  | reject _ _ _ => exact Or.inl hx
  | deliver _ _ => exact Or.inl (List.mem_append_left _ hx)
  | @consume task batch _ _ midway _ | @consumeNone task batch _ _ midway _ =>
    rw [midway, List.mem_append, List.mem_cons] at hx
    rcases hx with hx | rfl | hx
    · exact Or.inl (List.mem_append_left _ hx)
    · exact Or.inr (Or.inl ⟨task, batch, rfl, rfl⟩)
    · exact Or.inl (List.mem_append_right _ hx)
  | disconnect _ _ => exact Or.inl (List.mem_append_left _ hx)
  | @forget dex _ _ midway =>
    rw [midway, List.mem_append, List.mem_cons] at hx
    rcases hx with hx | rfl | hx
    · exact Or.inl (List.mem_append_left _ hx)
    · exact Or.inr (Or.inr ⟨dex, rfl, rfl⟩)
    · exact Or.inl (List.mem_append_right _ hx)
  | publish _ => exact Or.inl hx

theorem Step.delivered_mem {task : Nat} {batch : RouteBatch}
    (hstep : Step quoteTtlMs s (.deliver task batch) s') : .delivered task batch ∈ s'.midway := by
  cases hstep with
  | deliver _ _ => exact List.mem_append_right _ (List.mem_singleton_self _)

/-- Serials are given in order. -/
theorem Step.nextSerial (hstep : Step quoteTtlMs s e s') :
    s.nextSerial ≤ s'.nextSerial ∧
      ∀ q, e = .register q → q.serial = s.nextSerial ∧ s.nextSerial < s'.nextSerial := by
  cases hstep with
  | register _ _ valid =>
    refine ⟨Nat.le_succ _, ?_⟩
    rintro q ⟨⟩
    exact ⟨(handleClientMsg_ok valid).2.1, Nat.lt_succ_self _⟩
  | connect => exact ⟨le_rfl, nofun⟩
  | reject _ _ _ => exact ⟨le_rfl, nofun⟩
  | deliver _ _ => exact ⟨le_rfl, nofun⟩
  | consume _ _ => exact ⟨le_rfl, nofun⟩
  | consumeNone _ _ => exact ⟨le_rfl, nofun⟩
  | disconnect _ _ => exact ⟨le_rfl, nofun⟩
  | forget _ => exact ⟨le_rfl, nofun⟩
  | publish _ => exact ⟨le_rfl, nofun⟩

/-- A property of every snapshot of the quotes is one of every snapshot on its way. -/
theorem Step.all {P : QuotesSnapshot → Prop} (hstep : Step quoteTtlMs s e s') (h : s.board.All P)
    (hviews : ∀ {snap}, SnapshotOf s.quotes snap → P snap) : s'.board.All P := by
  cases hstep with
  | connect => exact h
  | register _ _ _ => exact h
  | reject _ _ _ => exact h
  | deliver _ _ => exact h
  | consume _ _ => exact h
  | consumeNone _ _ => exact h
  | disconnect _ _ => exact h
  | forget _ => exact h
  | publish step => exact h.step hviews step

/-- **The invariant of the quotes**: each is stored under its DEX and its pair, was posted
before, and its DEX is connected or about to be forgotten. -/
structure Inv (s : RouterState) : Prop where
  stored : ∀ {dex pair q}, quoteAt s.quotes dex pair = some q →
    q.dex = dex ∧ q.pair = pair ∧ q.serial < s.nextSerial
  connected : ∀ {dex pair q}, quoteAt s.quotes dex pair = some q →
    dex ∈ s.conns ∨ .disconnected dex ∈ s.midway

theorem inv_new : Inv new := ⟨nofun, nofun⟩

/-- A step removes a connection only to forget its quotes, and forgets them before the
call is over. -/
theorem Step.keeps_connected (hstep : Step quoteTtlMs s e s')
    (hq : quoteAt s'.quotes dex pair = some q)
    (hconn : dex ∈ s.conns ∨ .disconnected dex ∈ s.midway) :
    dex ∈ s'.conns ∨ .disconnected dex ∈ s'.midway := by
  rcases hconn with hconn | hmid
  · cases hstep with
    | connect => exact Or.inl (Finmap.mem_insert.mpr (Or.inr hconn))
    | reject _ _ _ => exact Or.inl (mem_push.mpr hconn)
    | deliver _ _ => exact Or.inl (mem_handOver.mpr hconn)
    | @disconnect d _ _ =>
      by_cases hd : dex = d
      · exact Or.inr (List.mem_append_right _ (hd ▸ List.mem_singleton_self _))
      · exact Or.inl (Finmap.mem_erase.mpr ⟨hd, hconn⟩)
    | register _ _ _ => exact Or.inl hconn
    | consume _ _ => exact Or.inl hconn
    | consumeNone _ _ => exact Or.inl hconn
    | forget _ => exact Or.inl hconn
    | publish _ => exact Or.inl hconn
  · rcases hstep.midway hmid with hmid | ⟨task, batch, hx, -⟩ | ⟨d, hx, rfl⟩
    · exact Or.inr hmid
    · cases hx
    · cases hx
      cases hstep with
      | forget _ =>
        rw [quotes, Board.change, quoteAt_erase, if_pos rfl] at hq
        cases hq

/-- **One step.** -/
theorem Inv.step (h : Inv s) (hstep : Step quoteTtlMs s e s') : Inv s' where
  stored := fun hq => by
    rcases hstep.quoteAt_origin hq with hold | ⟨he, hdex, hpair, -⟩
    · obtain ⟨hd, hp, hlt⟩ := h.stored hold
      exact ⟨hd, hp, hlt.trans_le hstep.nextSerial.1⟩
    · obtain ⟨hserial, hlt⟩ := hstep.nextSerial.2 _ he
      exact ⟨hdex.symm, hpair.symm, hserial ▸ hlt⟩
  connected := fun hq => hstep.keeps_connected hq <| by
    rcases hstep.quoteAt_origin hq with hold | ⟨-, -, -, hconn⟩
    · exact h.connected hold
    · exact Or.inl hconn

end Invariant

end RouterState

end PswapSolver
