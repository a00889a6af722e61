import PswapSolver.Records
import PswapSolver.TickBoundary

/-! # Where a filled note comes from

An order passes through many hands before it is settled: a sync, the database, the channels, the
book, a batch, and back to the channel when the batch fails.  Its terms and the bytes of its note
travel apart in the book and together elsewhere.

On the chain the id of a note determines the note, and its bytes read back as the note
(`ChainNotes`).  If every sync reports the notes as they are, then whatever the solver holds under
an id belongs to the note of that id, wherever it is; and a batch fills each of its notes once, with
something, and with no more than it requests (`genuine_of_run`).
-/
namespace PswapSolver
open Runs
variable {Note : Type} {api : NoteApi Note}

/-- **The notes of the chain**: an id determines a note and its bytes. -/
structure ChainNotes (api : NoteApi Note) where
  note : OrderId → Note
  bytes : OrderId → Bytes
  read : ∀ N, api.readFrom (bytes N) = some (note N)

namespace ChainNotes

section
variable (c : ChainNotes api)

/-- The terms of a note, if it is an order. -/
def terms (N : OrderId) : Option OrderTerms := orderFromNote api (c.note N)

/-- An order as its note has it. -/
structure Genuine (o : IngestOrder) : Prop where
  terms : c.terms o.noteId = some o.terms
  bytes : o.rawNoteData = c.bytes o.noteId

/-- A note that a sync reports as it is. -/
structure Reports (n : NewNote Note) : Prop where
  note : n.note = c.note n.id
  bytes : n.bytes = c.bytes n.id

/-- **A batch as it should be**: each note once, with its own bytes, filled with something and with
no more than it requests. -/
structure GenuineBatch (batch : ExecutionBatch) : Prop where
  nodup : batch.ids.Nodup
  bytes : ∀ f ∈ batch.filledNotes, f.rawNoteData = c.bytes f.noteId
  fill : ∀ f ∈ batch.filledNotes, ∃ terms, c.terms f.noteId = some terms ∧
    0 < f.requestedFilled ∧ f.requestedFilled ≤ terms.requested

structure GenuineMatcher (m : Matcher) : Prop where
  sound : m.Sound
  aligned : m.phase ≠ .stopped → m.Aligned
  orders : ∀ {N o}, m.book.orders.lookup N = some o → c.terms N = some o.toOrderTerms
  bytes : ∀ {N raw}, m.rawNotes.lookup N = some raw → raw = c.bytes N

structure GenuineDb (db : Database) : Prop where
  rows : ∀ {N row}, db.orders.lookup N = some row → c.terms N = some row.terms
  notes : ∀ {N raw}, db.notes.lookup N = some raw → raw = c.bytes N

def GenuineIngest : Ingest Note → Prop
  | .idle => True
  | .reporting result _ => ∀ n ∈ result.newNotes, c.Reports n
  | .sending _ pending => ∀ o ∈ pending, c.Genuine o

/-- **Everything the solver holds is genuine.** -/
structure GenuinePipeline (p : Pipeline Note) : Prop where
  db : c.GenuineDb p.db
  ingest : c.GenuineIngest p.ingest
  orderCh : ∀ o ∈ p.orderCh, c.Genuine o
  matcher : c.GenuineMatcher p.matcher
  execCh : ∀ batch ∈ p.execCh, c.GenuineBatch batch
  resends : ∀ task, p.executor = some task → ∀ o, .resend o ∈ task.pending → c.Genuine o

/-- Every sync reports the notes as they are. -/
def honest : Guard (Landing Note) (LandingEvent Note) := fun _ _ e =>
  ∀ result, e = .solver (.sync result) → ∀ n ∈ result.newNotes, c.Reports n

end

end ChainNotes

/-! ## The matcher -/

namespace Matcher
variable {m m' : Matcher} {i : MatcherInputs} {e : MatcherEvent} {N : OrderId} {o : Order}

theorem hydrateOrders_orders (nowUnix : Nat) (loaded : List IngestOrder)
    (h : (loaded.foldl (fun m order => m.hydrateOrder nowUnix order) m).book.orders.lookup N =
      some o) :
    m.book.orders.lookup N = some o ∨ ∃ d ∈ loaded, d.noteId = N ∧ d.terms = o.toOrderTerms := by
  induction loaded generalizing m with
  | nil => exact .inl h
  | cons order loaded ih =>
    rcases ih h with hold | ⟨d, hd, hgiven⟩
    · rcases OrderBook.lookup_addUserOrder_cases hold with hold | ⟨hid, rfl⟩
      · exact .inl hold
      · exact .inr ⟨order, List.mem_cons_self .., hid.symm, rfl⟩
    · exact .inr ⟨d, List.mem_cons_of_mem _ hd, hgiven⟩

/-- The terms after an engine run are those before. -/
theorem run_terms (hm : m.Sound) {p : Progress}
    (hrun : EngineRun { m.book with feed := i.feed } m.triangularEnabled p)
    (h : p.book.orders.lookup N = some o) :
    ∃ o₀, m.book.orders.lookup N = some o₀ ∧ o₀.toOrderTerms = o.toOrderTerms := by
  have hadv := (hrun.advance (hm.reachable.setFeed i.feed).inv.inStep).2
  have hmem : N ∈ m.book.orders := hadv.mem_orders.mp (FiniteMap.mem_of_lookup h)
  obtain ⟨o₀, ho₀⟩ := Option.isSome_iff_exists.mp (Finmap.lookup_isSome.mpr hmem)
  exact ⟨o₀, ho₀, ((hadv.terms ho₀ h).1).symm⟩

/-- **The terms of an order were given with it**, in this step or before. -/
theorem Step.orders_origin (hm : m.Sound) (hstep : Step i m e m')
    (h : m'.book.orders.lookup N = some o) :
    (∃ o₀, m.book.orders.lookup N = some o₀ ∧ o₀.toOrderTerms = o.toOrderTerms) ∨
      ∃ d ∈ e.given, d.noteId = N ∧ d.terms = o.toOrderTerms := by
  have hkept : ∀ {b : OrderBook}, m.book.SameHoldings b → b.orders.lookup N = some o →
      ∃ o₀, m.book.orders.lookup N = some o₀ ∧ o₀.toOrderTerms = o.toOrderTerms := by
    intro b hsame hb
    exact ⟨o, hsame.orders ▸ hb, rfl⟩
  cases hstep with
  | hydrate loaded _ =>
    rcases hydrateOrders_orders i.nowUnix loaded h with hold | hgiven
    · exact .inl ⟨o, hold, rfl⟩
    · exact .inr hgiven
  | receive order _ =>
    rcases OrderBook.lookup_addUserOrder_cases h with hold | ⟨hid, rfl⟩
    · exact .inl ⟨o, hold, rfl⟩
    · exact .inr ⟨order, List.mem_singleton_self order, hid.symm, rfl⟩
  | consume id _ =>
    have hlookup := (OrderBook.lookup_removeOrder m.book id N).symm.trans h
    split at hlookup
    · cases hlookup
    · exact .inl ⟨o, hlookup, rfl⟩
  | execute _ hmatch =>
    cases hmatch with
    | empty _ => exact .inl ⟨o, h, rfl⟩
    | unfilled _ hrun _ => exact .inl (run_terms hm hrun h)
    | closed _ hrun _ => exact .inl (run_terms hm hrun h)
    | @sent p filledOrders _ hrun _ _ _ =>
      have hlookup := (dropNotes_orders filledOrders { m with book := p.book } N).symm.trans h
      split at hlookup
      · cases hlookup
      · exact .inl (run_terms hm hrun hlookup)
  | ordersEmpty _ =>
    cases hr : m.router with
    | none =>
      rw [reactivate_of_none hr] at h
      exact .inl ⟨o, h, rfl⟩
    | some r =>
      rw [reactivate_of_some hr] at h
      exact .inl (hkept (OrderBook.sameHoldings_reactivateLoop ..) h)
  | route result _ _ _ => exact .inl (hkept (OrderBook.sameHoldings_externalPass ..) h)
  | stop _ => exact .inl ⟨o, h, rfl⟩
  | wake _ => exact .inl ⟨o, h, rfl⟩
  | consumedEmpty _ => exact .inl ⟨o, h, rfl⟩
  | noRouter _ _ => exact .inl ⟨o, h, rfl⟩

end Matcher

namespace ChainNotes
variable {c : ChainNotes api}

section Matcher
variable {m m' : Matcher} {i : MatcherInputs} {e : MatcherEvent}

theorem genuineMatcher_new (c : ChainNotes api) (feed : PriceFeed) (triangularEnabled : Bool)
    (router : Option RouterHooks) :
    c.GenuineMatcher (Matcher.new feed triangularEnabled router) := by
  have hinv := Matcher.boundaryInv_new feed triangularEnabled router
  refine ⟨hinv.sound, hinv.aligned, fun h => ?_, fun h => ?_⟩
  · cases (Finmap.lookup_empty _).symm.trans h
  · cases (Finmap.lookup_empty _).symm.trans h

/-- A step of the matcher, if what it is given is genuine. -/
theorem GenuineMatcher.step (h : c.GenuineMatcher m) (hstep : Matcher.Step i m e m')
    (hgiven : ∀ d ∈ e.given, c.Genuine d) : c.GenuineMatcher m' where
  sound := (hstep.footprint h.sound).sound
  aligned := fun hlive => (h.aligned hstep.not_stopped).step h.sound hstep hlive
  orders := by
    intro N o ho
    rcases hstep.orders_origin h.sound ho with ⟨o₀, hold, hterms⟩ | ⟨d, hd, rfl, hterms⟩
    · rw [← hterms]
      exact h.orders hold
    · rw [← hterms]
      exact (hgiven d hd).terms
  bytes := by
    intro N raw hraw
    rcases hstep.rawNotes_origin hraw with hold | ⟨d, hd, rfl, rfl⟩
    · exact h.bytes hold
    · exact (hgiven d hd).bytes

/-- **The batch that a step emits.** -/
theorem GenuineMatcher.batch (h : c.GenuineMatcher m) {batch : ExecutionBatch}
    (hstep : Matcher.Step i m (.execute (some batch)) m') : c.GenuineBatch batch := by
  have haligned := h.aligned hstep.not_stopped
  have hnodup : batch.ids.Nodup := hstep.executes_nodup
  cases hstep with
  | execute _ hmatch =>
    cases hmatch with
    | @sent p filledOrders _ hrun _ _ henum =>
      have hreach := h.sound.reachable.setFeed i.feed
      refine ⟨hnodup, fun f hf => ?_, fun f hf => ?_⟩
      · exact h.bytes (mem_filledNotes hf).2.1
      · obtain ⟨hid, -, hfill⟩ := mem_filledNotes hf
        rw [← List.mem_toFinset, henum] at hid
        obtain ⟨o, o', ho, ho', hpos, hsum⟩ :=
          hrun.filled_of_unfilled hreach (fun ho => haligned.unfilled ho) hid
        have hunfilled : o.requestedRemaining = o.requested := haligned.unfilled ho
        rw [ho', Option.map_some, Option.getD_some] at hfill
        refine ⟨o.toOrderTerms, h.orders ho, by omega, ?_⟩
        show f.requestedFilled ≤ o.requested
        omega

end Matcher

/-! ## The database and ingest -/

section Database
variable {db : Database}

theorem GenuineDb.updateWhere (h : c.GenuineDb db) (filter : OrderId → OrderStatus → Bool)
    (status : OrderStatus) : c.GenuineDb (db.updateWhere filter status) where
  rows := by
    intro N row hrow
    rw [Database.updateWhere, FiniteMap.lookup_mapWithKey] at hrow
    obtain ⟨row₀, hold, rfl⟩ := Option.map_eq_some_iff.mp hrow
    rw [h.rows hold]
    split <;> rfl
  notes := h.notes

theorem GenuineDb.updateOrdersStatus (h : c.GenuineDb db) (ids : List OrderId)
    (status : OrderStatus) : c.GenuineDb (db.updateOrdersStatus ids status) := h.updateWhere _ _

theorem GenuineDb.markOrdersOnchainNullified (h : c.GenuineDb db) (ids : List OrderId) :
    c.GenuineDb (db.markOrdersOnchainNullified ids) := h.updateWhere _ _

theorem GenuineDb.resetAllSettlingToActive (h : c.GenuineDb db) :
    c.GenuineDb db.resetAllSettlingToActive := h.updateWhere _ _

/-- `INSERT OR IGNORE`: a row is the new one, or it was there. -/
theorem lookup_insertOrIgnore {β : Type} {table : FiniteMap OrderId β} {id N : OrderId}
    {row row' : β} (h : (Database.insertOrIgnore table id row).lookup N = some row') :
    table.lookup N = some row' ∨ id = N ∧ row = row' := by
  unfold Database.insertOrIgnore at h
  split at h
  · exact .inl h
  · rw [FiniteMap.lookup_insert_if] at h
    split at h
    · rename_i hid
      exact .inr ⟨hid.symm, Option.some.inj h⟩
    · exact .inl h

theorem lookup_insertOrders {batch : List IngestOrder} {N : OrderId} {row : OrderRow} :
    ∀ {orders : FiniteMap OrderId OrderRow},
      (Database.insertOrders orders batch).2.lookup N = some row →
      orders.lookup N = some row ∨ ∃ o ∈ batch, o.noteId = N ∧ o.terms = row.terms := by
  induction batch with
  | nil => exact fun h => .inl h
  | cons o batch ih =>
    intro orders h
    rcases ih h with hold | ⟨o', ho', hrow⟩
    · rcases lookup_insertOrIgnore hold with hold | ⟨hid, rfl⟩
      · exact .inl hold
      · exact .inr ⟨o, List.mem_cons_self .., hid, rfl⟩
    · exact .inr ⟨o', List.mem_cons_of_mem _ ho', hrow⟩

theorem lookup_insertedNotes {batch : List IngestOrder} {N : OrderId} {raw : Bytes} :
    ∀ {notes : FiniteMap OrderId Bytes},
      (batch.foldl (fun table o => Database.insertOrIgnore table o.noteId o.rawNoteData)
        notes).lookup N = some raw →
      notes.lookup N = some raw ∨ ∃ o ∈ batch, o.noteId = N ∧ o.rawNoteData = raw := by
  induction batch with
  | nil => exact fun h => .inl h
  | cons o batch ih =>
    intro notes h
    rcases ih h with hold | ⟨o', ho', hrow⟩
    · rcases lookup_insertOrIgnore hold with hold | hnew
      · exact .inl hold
      · exact .inr ⟨o, List.mem_cons_self .., hnew⟩
    · exact .inr ⟨o', List.mem_cons_of_mem _ ho', hrow⟩

theorem GenuineDb.insertNotesBatch (h : c.GenuineDb db) {batch : List IngestOrder}
    (hbatch : ∀ o ∈ batch, c.Genuine o) (blockNumber : Nat) :
    c.GenuineDb (db.insertNotesBatch batch blockNumber).2 where
  rows := by
    intro N row hrow
    rcases lookup_insertOrders hrow with hold | ⟨o, ho, rfl, hterms⟩
    · exact h.rows hold
    · rw [← hterms]
      exact (hbatch o ho).terms
  notes := by
    intro N raw hraw
    rcases lookup_insertedNotes hraw with hold | ⟨o, ho, rfl, rfl⟩
    · exact h.notes hold
    · exact (hbatch o ho).bytes

/-- What the matcher loads at boot. -/
theorem GenuineDb.loads (h : c.GenuineDb db) {loaded : List IngestOrder}
    (hloads : db.LoadsActive loaded) : ∀ o ∈ loaded, c.Genuine o := by
  intro o ho
  obtain ⟨hrow, hraw⟩ := (hloads.mem o).mp ho
  exact ⟨h.rows hrow, h.notes hraw⟩

/-- The orders among notes that are reported as they are. -/
theorem genuine_ingestOrders {newNotes : List (NewNote Note)}
    (h : ∀ n ∈ newNotes, c.Reports n) : ∀ o ∈ ingestOrders api newNotes, c.Genuine o := by
  intro o ho
  obtain ⟨n, hn, hsome⟩ := List.mem_filterMap.mp ho
  split at hsome
  · obtain ⟨terms, hterms, rfl⟩ := Option.map_eq_some_iff.mp hsome
    refine ⟨?_, (h n hn).bytes⟩
    show orderFromNote api (c.note n.id) = some terms
    rw [← (h n hn).note, hterms]
  · cases hsome

end Database

/-! ## The executor -/

section Executor
variable {batch : ExecutionBatch} {o : IngestOrder} {pairs : List (FilledNote × Note)}

theorem mem_rebuildAllOrders {orders : List IngestOrder}
    (h : rebuildAllOrders api pairs = some orders) (ho : o ∈ orders) :
    ∃ x ∈ pairs, rebuildIngestOrder api x.1 x.2 = some o := by
  induction pairs generalizing orders with
  | nil =>
    cases h
    cases ho
  | cons x pairs ih =>
    rw [rebuildAllOrders] at h
    split at h
    · cases h
    · rename_i order horder
      obtain ⟨orders', horders, rfl⟩ := Option.map_eq_some_iff.mp h
      rcases List.mem_cons.mp ho with rfl | ho
      · exact ⟨x, List.mem_cons_self .., horder⟩
      · obtain ⟨y, hy, hrebuilt⟩ := ih horders ho
        exact ⟨y, List.mem_cons_of_mem _ hy, hrebuilt⟩

theorem mem_activeOrders {consumedIds : List OrderId} {classified : Classified}
    (h : classifyInputNotes api consumedIds pairs = some classified)
    (ho : o ∈ classified.activeOrders) : ∃ x ∈ pairs, rebuildIngestOrder api x.1 x.2 = some o := by
  induction pairs generalizing classified with
  | nil =>
    cases h
    cases ho
  | cons x pairs ih =>
    rw [classifyInputNotes] at h
    split at h
    · obtain ⟨c', hc', rfl⟩ := Option.map_eq_some_iff.mp h
      obtain ⟨y, hy, hrebuilt⟩ := ih hc' ho
      exact ⟨y, List.mem_cons_of_mem _ hy, hrebuilt⟩
    · split at h
      · cases h
      · rename_i order horder
        obtain ⟨c', hc', rfl⟩ := Option.map_eq_some_iff.mp h
        rcases List.mem_cons.mp ho with rfl | ho
        · exact ⟨x, List.mem_cons_self .., horder⟩
        · obtain ⟨y, hy, hrebuilt⟩ := ih hc' ho
          exact ⟨y, List.mem_cons_of_mem _ hy, hrebuilt⟩

/-- The order is rebuilt from a note of the batch. -/
def RebuiltFrom (api : NoteApi Note) (batch : ExecutionBatch) (o : IngestOrder) : Prop :=
  ∃ f ∈ batch.filledNotes, ∃ n, api.readFrom f.rawNoteData = some n ∧
    rebuildIngestOrder api f n = some o

variable {notes : List Note}

theorem rebuiltFrom_of_zip (hnotes : Notes api batch.filledNotes notes)
    (h : ∃ x ∈ batch.filledNotes.zip notes, rebuildIngestOrder api x.1 x.2 = some o) :
    RebuiltFrom api batch o := by
  obtain ⟨⟨f, n⟩, hx, hsome⟩ := h
  exact ⟨f, (List.of_mem_zip hx).1, n, (List.forall₂_iff_zip.mp hnotes).2 hx, hsome⟩

theorem mem_revertAndRefeed (hnotes : Notes api batch.filledNotes notes)
    (h : .resend o ∈ revertAndRefeed api batch notes) : RebuiltFrom api batch o := by
  unfold revertAndRefeed at h
  rcases List.mem_cons.mp h with heq | h
  · cases heq
  · split at h
    · rename_i orders horders
      obtain ⟨o', ho', heq⟩ := List.mem_map.mp h
      cases heq
      exact rebuiltFrom_of_zip hnotes (mem_rebuildAllOrders horders ho')
    · cases h

theorem mem_classifyAndRefeed (hnotes : Notes api batch.filledNotes notes)
    {answers : ExecutorAnswers} (h : .resend o ∈ classifyAndRefeed api answers batch notes) :
    RebuiltFrom api batch o := by
  unfold classifyAndRefeed at h
  split at h
  · cases h
  · split at h
    · cases h
    · rename_i classified hclassified
      have hrefed : .resend o ∈ refeedOrders classified.activeOrders := by
        rcases List.mem_append.mp h with hmarked | h
        · split at hmarked
          · cases hmarked
          · cases List.mem_singleton.mp hmarked
        · rcases List.mem_append.mp h with hreverted | h
          · split at hreverted
            · cases hreverted
            · cases List.mem_singleton.mp hreverted
          · exact h
      obtain ⟨o', ho', heq⟩ := List.mem_map.mp hrefed
      cases heq
      exact rebuiltFrom_of_zip hnotes (mem_activeOrders hclassified ho')

/-- **What the executor sends back** is an order of its batch. -/
theorem mem_resends {answers : ExecutorAnswers}
    (h : .resend o ∈ (executeBatch api answers batch).1) : RebuiltFrom api batch o := by
  unfold executeBatch at h
  split at h
  · cases h
  · rename_i components hprepare
    have hnotes := prepareBatchComponents_notes hprepare
    dsimp only at h
    split at h
    · simp at h
    · exact mem_revertAndRefeed hnotes (by simpa using h)
    · exact mem_revertAndRefeed hnotes (by simpa using h)
    · simp at h
    · exact mem_classifyAndRefeed hnotes (by simpa using h)

theorem GenuineBatch.rebuilt (h : c.GenuineBatch batch) (ho : RebuiltFrom api batch o) :
    c.Genuine o := by
  obtain ⟨f, hf, n, hread, hsome⟩ := ho
  have hbytes := h.bytes f hf
  rw [hbytes, c.read] at hread
  cases hread
  obtain ⟨terms, hterms, rfl⟩ := Option.map_eq_some_iff.mp hsome
  exact ⟨hterms, hbytes⟩

end Executor

/-! ## The whole solver -/

section Pipeline
variable {p p' : Pipeline Note}

theorem genuine_boot (c : ChainNotes api) {db : Database} (h : c.GenuineDb db) (feed : PriceFeed)
    (triangularEnabled : Bool) (router : Option RouterHooks) :
    c.GenuinePipeline (Pipeline.boot db feed triangularEnabled router) where
  db := h.resetAllSettlingToActive
  ingest := trivial
  orderCh := nofun
  matcher := genuineMatcher_new c feed triangularEnabled router
  execCh := nofun
  resends := nofun

/-- A step of the matcher within the solver. -/
theorem GenuinePipeline.matcherStep (h : c.GenuinePipeline p) {i : MatcherInputs}
    {e : MatcherEvent} {m' : Matcher} (hstep : Matcher.Step i p.matcher e m')
    (hexch : p.Exchanged p' e) : c.GenuinePipeline { p' with matcher := m' } := by
  have hquiet : (∀ d ∈ e.given, c.Genuine d) → p' = p →
      c.GenuinePipeline { p' with matcher := m' } := by
    rintro hgiven rfl
    exact ⟨h.db, h.ingest, h.orderCh, h.matcher.step hstep hgiven, h.execCh, h.resends⟩
  cases e with
  | hydrate loaded =>
    obtain ⟨hloaded, hsame⟩ := hexch
    refine hquiet (fun d hd => ?_) hsame
    rcases hloaded with hloads | rfl
    · exact h.db.loads hloads d hd
    · cases hd
  | receive order =>
    obtain ⟨rest, hch, rfl⟩ := hexch
    have horder := h.orderCh
    rw [hch] at horder
    refine ⟨h.db, h.ingest, fun o ho => horder o (List.mem_cons_of_mem _ ho), ?_, h.execCh,
      h.resends⟩
    refine h.matcher.step hstep fun d hd => ?_
    obtain rfl := List.mem_singleton.mp hd
    exact horder d (List.mem_cons_self ..)
  | consume id =>
    obtain ⟨rest, -, rfl⟩ := hexch
    exact ⟨h.db, h.ingest, h.orderCh, h.matcher.step hstep nofun, h.execCh, h.resends⟩
  | execute batch =>
    cases batch with
    | none => exact hquiet nofun hexch
    | some batch =>
      obtain rfl : p' = { p with execCh := p.execCh ++ [batch] } := hexch
      refine ⟨h.db, h.ingest, h.orderCh, h.matcher.step hstep nofun, fun b hb => ?_, h.resends⟩
      rcases List.mem_append.mp hb with hold | hnew
      · exact h.execCh b hold
      · obtain rfl := List.mem_singleton.mp hnew
        exact h.matcher.batch hstep
  | consumedEmpty => exact hquiet nofun hexch.2
  | ordersEmpty => exact hquiet nofun hexch.2
  | wake => exact hquiet nofun hexch
  | route batch => exact hquiet nofun hexch
  | stop => exact hquiet nofun hexch

/-- **A step of the solver**, if it is not a batch. -/
theorem GenuinePipeline.step (h : c.GenuinePipeline p) {e : PipelineEvent Note}
    (hstep : Pipeline.Step api p e p')
    (hhonest : ∀ result, e = .sync result → ∀ n ∈ result.newNotes, c.Reports n) :
    c.GenuinePipeline p' := by
  cases hstep with
  | sync result _ =>
    exact ⟨h.db.markOrdersOnchainNullified _, hhonest result rfl, h.orderCh, h.matcher, h.execCh,
      h.resends⟩
  | report hreporting =>
    have hingest := h.ingest
    rw [hreporting] at hingest
    exact ⟨h.db, hingest, h.orderCh, h.matcher, h.execCh, h.resends⟩
  | @insert result hreporting _ =>
    have hingest := h.ingest
    rw [hreporting] at hingest
    have horders := genuine_ingestOrders hingest
    refine ⟨h.db.insertNotesBatch horders _, fun o ho => ?_, h.orderCh, h.matcher, h.execCh,
      h.resends⟩
    exact horders o (List.mem_filter.mp ho).1
  | @send result order rest hsending =>
    have hingest := h.ingest
    rw [hsending] at hingest
    refine ⟨h.db, fun o ho => hingest o (List.mem_cons_of_mem _ ho), fun o ho => ?_, h.matcher,
      h.execCh, h.resends⟩
    rcases List.mem_append.mp ho with hold | hnew
    · exact h.orderCh o hold
    · obtain rfl := List.mem_singleton.mp hnew
      exact hingest o (List.mem_cons_self ..)
  | finish _ => exact ⟨h.db, trivial, h.orderCh, h.matcher, h.execCh, h.resends⟩
  | finishEarly _ => exact ⟨h.db, trivial, h.orderCh, h.matcher, h.execCh, h.resends⟩
  | matcher hstep hexch => exact h.matcherStep hstep hexch
  | takeEmpty _ hqueued =>
    exact ⟨h.db, h.ingest, h.orderCh, h.matcher,
      fun b hb => h.execCh b (hqueued ▸ List.mem_cons_of_mem _ hb), h.resends⟩
  | @take batch rest answers _ hqueued _ =>
    have hbatch := h.execCh batch (hqueued ▸ List.mem_cons_self ..)
    refine ⟨h.db, h.ingest, h.orderCh, h.matcher,
      fun b hb => h.execCh b (hqueued ▸ List.mem_cons_of_mem _ hb), ?_⟩
    rintro task ⟨⟩ o ho
    exact hbatch.rebuilt (mem_resends ho)
  | @act held action rest hbusy =>
    have hrest : ∀ o, .resend o ∈ rest → c.Genuine o := fun o ho =>
      h.resends _ hbusy o (List.mem_cons_of_mem _ ho)
    cases action with
    | updateStatus ids status =>
      refine ⟨h.db.updateOrdersStatus ids status, h.ingest, h.orderCh, h.matcher, h.execCh, ?_⟩
      rintro task ⟨⟩
      exact hrest
    | markNullified ids =>
      refine ⟨h.db.markOrdersOnchainNullified ids, h.ingest, h.orderCh, h.matcher, h.execCh, ?_⟩
      rintro task ⟨⟩
      exact hrest
    | resend order =>
      refine ⟨h.db, h.ingest, fun o ho => ?_, h.matcher, h.execCh, ?_⟩
      · rcases List.mem_append.mp ho with hold | hnew
        · exact h.orderCh o hold
        · obtain rfl := List.mem_singleton.mp hnew
          exact h.resends _ hbusy o (List.mem_cons_self ..)
      · rintro task ⟨⟩
        exact hrest
  | done _ => exact ⟨h.db, h.ingest, h.orderCh, h.matcher, h.execCh, nofun⟩
  | reboot feed triangularEnabled router => exact genuine_boot c h.db feed triangularEnabled router

theorem GenuinePipeline.failure (h : c.GenuinePipeline p) (hfailure : Failure p p') :
    c.GenuinePipeline p' := by
  cases hfailure with
  | channelClosed _ => exact ⟨h.db, trivial, h.orderCh, h.matcher, h.execCh, h.resends⟩
  | revertFailed hbusy =>
    refine ⟨h.db, h.ingest, h.orderCh, h.matcher, h.execCh, ?_⟩
    rintro task ⟨⟩ o ho
    exact h.resends _ hbusy o (List.mem_cons_of_mem _ ho)
  | batchFailed _ => exact ⟨h.db, h.ingest, h.orderCh, h.matcher, h.execCh, nofun⟩

end Pipeline

/-- **Whatever the solver holds is genuine**, in every run on the chain in which the syncs are
honest. -/
theorem genuine_of_run (c : ChainNotes api) {feed : PriceFeed} {triangularEnabled : Bool}
    {router : Option RouterHooks} {history : List (Landing Note × LandingEvent Note)}
    {s : Landing Note}
    (hrun : Run (Landing.Step api) c.honest (Landing.boot feed triangularEnabled router)
      history s) : c.GenuinePipeline s.pipeline := by
  induction hrun with
  | start =>
    have hempty : c.GenuineDb emptyDb := by
      refine ⟨fun h => ?_, fun h => ?_⟩
      · cases (Finmap.lookup_empty _).symm.trans h
      · cases (Finmap.lookup_empty _).symm.trans h
    exact genuine_boot c hempty feed triangularEnabled router
  | step _ hhonest hstep ih =>
    cases hstep with
    | others ids => exact ih
    | @solver e p' hstep _ _ =>
      exact ih.step hstep fun result hsync => hhonest result (congrArg _ hsync)
    | take call idle queued some_filled =>
      exact ih.step (.take _ idle queued some_filled) nofun
    | failure hfailure => exact ih.failure hfailure

end ChainNotes
end PswapSolver
