import PswapSolver.Consumption

/-! # Every order is in one place

A live order is with ingest (committed and not yet sent), in the order channel, in the
matcher's book, or in a batch that the executor has not finished with.  Every step moves
an order from one of these places to the next.  There are two ways into them: ingest's
insert, which forwards a note only if it had no row, and the matcher's hydration, which
loads every active row.  An order that hydration loads while ingest still has to send it
is in two places, and so is a note that one sync result lists twice.

`SingleEntry` rules out these two, and then no order is ever live twice
(`unfinished_not_in_book`).
-/
namespace PswapSolver
open Runs
variable {Note : Type}

/-- The notes in batches the executor has not finished with: those queued, and those it
holds and has not re-sent. -/
def Pipeline.unfinished (p : Pipeline Note) : List OrderId :=
  p.execCh.flatMap ExecutionBatch.ids ++ (p.executor.map ExecutorTask.held).getD []

/-- How often the book holds an order. -/
def Matcher.holds (m : Matcher) (N : OrderId) : Nat := if N ∈ m.book.orders then 1 else 0

theorem Matcher.holds_of_mem {m : Matcher} {N : OrderId} (h : N ∈ m.book.orders) : m.holds N = 1 :=
  if_pos h

theorem Matcher.holds_of_notMem {m : Matcher} {N : OrderId} (h : N ∉ m.book.orders) :
    m.holds N = 0 := if_neg h

/-- In how many places an order is live. -/
def Pipeline.copies (p : Pipeline Note) (N : OrderId) : Nat :=
  (p.ingest.unsent.map IngestOrder.noteId).count N + (p.orderCh.map IngestOrder.noteId).count N +
    p.matcher.holds N + p.unfinished.count N

/-- **The condition on a step**: a batch of new orders lists none twice, and hydration loads
no order that is still on its way. -/
def SingleEntry (api : NoteApi Note) : Guard (Pipeline Note) (PipelineEvent Note) := fun _ p e =>
  (∀ result, e = .insert → p.ingest = .reporting result [] →
    ((ingestOrders api result.newNotes).map IngestOrder.noteId).Nodup) ∧
  ∀ loaded, e = .matcher (.hydrate loaded) → ∀ o ∈ loaded, ¬ Pending p o.noteId

/-- **The invariant**: an order is live at most once, and only if it has a row. -/
structure LocationInv (p : Pipeline Note) : Prop where
  sound : p.matcher.Sound
  once : ∀ N, p.copies N ≤ 1
  row : ∀ N, 0 < p.copies N → (p.db.statusOf N).isSome = true
  booting : p.matcher.phase = .booting →
    p.executor = none ∧ p.execCh = [] ∧ ∀ N, N ∉ p.matcher.book.orders
  resends : ∀ task, p.executor = some task → ∀ N,
    (resent task.pending).count N ≤ task.held.count N

section Step
variable {api : NoteApi Note} {p p' : Pipeline Note} {e : PipelineEvent Note}

theorem locationInv_boot (db : Database) (feed : PriceFeed) (triangularEnabled : Bool)
    (router : Option RouterHooks) :
    LocationInv (Pipeline.boot db feed triangularEnabled router : Pipeline Note) := by
  have hcopies : ∀ N,
      (Pipeline.boot db feed triangularEnabled router : Pipeline Note).copies N = 0 := fun N => rfl
  refine ⟨⟨OrderBook.Reachable.new feed, fun _ h => absurd h List.not_mem_nil⟩, fun N => ?_,
    fun N hN => ?_, fun _ => ⟨rfl, rfl, fun N => Finmap.notMem_empty⟩, fun _ h => by cases h⟩
  · rw [hcopies]
    exact Nat.zero_le _
  · rw [hcopies] at hN
    exact absurd hN (Nat.lt_irrefl _)

/-- A step that makes no order live in more places, keeps the matcher's phase and the
executor's task. -/
theorem LocationInv.of_le (h : LocationInv p) (hstep : Pipeline.Step api p e p')
    (hle : ∀ N, p'.copies N ≤ p.copies N)
    (hbooting : p'.matcher.phase = .booting →
      p'.executor = none ∧ p'.execCh = [] ∧ ∀ N, N ∉ p'.matcher.book.orders)
    (hresends : ∀ task, p'.executor = some task → ∀ N,
      (resent task.pending).count N ≤ task.held.count N) : LocationInv p' where
  sound := sound_step hstep h.sound
  once := fun N => (hle N).trans (h.once N)
  row := fun N hN => hasRow_step hstep (h.row N (Nat.lt_of_lt_of_le hN (hle N)))
  booting := hbooting
  resends := hresends

/-- Ingest commits new orders: they had no row, so they were nowhere. -/
theorem LocationInv.insert {result : SyncResult Note} (h : LocationInv p)
    (hingest : p.ingest = .reporting result [])
    (hnodup : ((ingestOrders api result.newNotes).map IngestOrder.noteId).Nodup)
    (hstep : Pipeline.Step api p .insert p') : LocationInv p' := by
  have hkeep : ∀ {N}, (p.db.statusOf N).isSome = true → (p'.db.statusOf N).isSome = true :=
    fun hN => hasRow_step hstep hN
  cases hstep with
  | @insert result' hreporting hsome =>
    cases hreporting.symm.trans hingest
    generalize hfwd : (ingestOrders api result.newNotes).filter (fun o => decide (o.noteId ∈
      (p.db.insertNotesBatch (ingestOrders api result.newNotes) result.blockNum).1)) = forwarded
    have hcopies : ∀ N, Pipeline.copies { p with
        db := (p.db.insertNotesBatch (ingestOrders api result.newNotes) result.blockNum).2
        ingest := .sending result forwarded } N =
        (forwarded.map IngestOrder.noteId).count N + p.copies N := by
      intro N
      simp only [Pipeline.copies, hreporting, Ingest.unsent, Pipeline.unfinished, List.map_nil,
        List.count_nil]
      omega
    have hforwarded : ∀ N, N ∈ forwarded.map IngestOrder.noteId → p.copies N = 0 := by
      intro N hN
      by_contra hpos
      exact notMem_forwarded (h.row N (Nat.pos_of_ne_zero hpos)) _ result.blockNum (hfwd ▸ hN)
    refine ⟨h.sound, fun N => ?_, fun N hN => ?_, h.booting, h.resends⟩
    · rw [hcopies]
      by_cases hN : N ∈ forwarded.map IngestOrder.noteId
      · rw [hforwarded N hN]
        have hsub : (forwarded.map IngestOrder.noteId).Sublist
            ((ingestOrders api result.newNotes).map IngestOrder.noteId) :=
          hfwd ▸ List.filter_sublist.map _
        exact List.nodup_iff_count_le_one.mp (hsub.nodup hnodup) N
      · rw [List.count_eq_zero.mpr hN, Nat.zero_add]
        exact h.once N
    · by_cases hfwdN : N ∈ forwarded.map IngestOrder.noteId
      · obtain ⟨o, ho, rfl⟩ := List.mem_map.mp hfwdN
        rw [← hfwd] at ho
        exact Database.statusOf_isSome.mpr
          (((Database.insertOrders_spec p.db.orders (ingestOrders api result.newNotes)).2.2.1 _).mpr
            (Or.inl (List.mem_map_of_mem (List.mem_filter.mp ho).1)))
      · rw [hcopies, List.count_eq_zero.mpr hfwdN, Nat.zero_add] at hN
        exact hkeep (h.row N hN)

/-- What the matcher takes from its channel and its book it puts into its book or a batch. -/
theorem matcher_balance {i : MatcherInputs} {m m' : Matcher} {event : MatcherEvent}
    (hm : m.Sound) (hstep : Matcher.Step i m event m') (hbooted : m.phase ≠ .booting)
    (N : OrderId) :
    m'.holds N + event.executes.count N ≤
      (event.received.map IngestOrder.noteId).count N + m.holds N := by
  have hf := hstep.footprint hm
  by_cases hN : N ∈ m'.book.orders
  · have hnot : N ∉ event.executes := fun hc => hf.gone (Or.inl hc) hN
    rw [Matcher.holds_of_mem hN, List.count_eq_zero.mpr hnot]
    rcases hf.orders hN with hold | hnew
    · rw [Matcher.holds_of_mem hold]
      omega
    · rw [hstep.delivers_eq hbooted] at hnew
      have := List.count_pos_iff.mpr hnew
      omega
  · rw [Matcher.holds_of_notMem hN]
    by_cases hexec : N ∈ event.executes
    · rw [Matcher.holds_of_mem (hf.emitted (Or.inl hexec)).1]
      have := List.nodup_iff_count_le_one.mp hstep.executes_nodup N
      omega
    · rw [List.count_eq_zero.mpr hexec]
      omega

/-- A step of the matcher exchanges orders between its channel, its book and a batch. -/
theorem copies_matcher {p₁ : Pipeline Note} {m' : Matcher} {event : MatcherEvent}
    (hexch : p.Exchanged p₁ event) (N : OrderId) :
    Pipeline.copies { p₁ with matcher := m' } N +
      ((event.received.map IngestOrder.noteId).count N + p.matcher.holds N) =
      p.copies N + (m'.holds N + event.executes.count N) := by
  obtain ⟨-, hingest, hexec, ⟨sent, hsent, hids⟩, horders⟩ := hexch.frame
  simp only [Pipeline.copies, Pipeline.unfinished, hingest, hsent, hexec, horders,
    List.flatMap_append, hids, List.map_append, List.count_append]
  omega

/-- Hydration: the book was empty, and what it loads is nowhere else. -/
theorem LocationInv.hydrate {i : MatcherInputs} {m' : Matcher} {loaded : List IngestOrder}
    {p₁ : Pipeline Note} (h : LocationInv p) (hbooting : p.matcher.phase = .booting)
    (hguard : ∀ o ∈ loaded, ¬ Pending p o.noteId)
    (hm : Matcher.Step i p.matcher (.hydrate loaded) m')
    (hexch : p.Exchanged p₁ (.hydrate loaded)) : LocationInv { p₁ with matcher := m' } := by
  obtain ⟨hdb, -, hexec, -, -⟩ := hexch.frame
  have hf := hm.footprint h.sound
  obtain ⟨hidle, hqueue, hbook⟩ := h.booting hbooting
  have hloaded : ∀ {N}, N ∈ m'.book.orders → ∃ o ∈ loaded, o.noteId = N := fun hN =>
    List.mem_map.mp ((hf.orders hN).resolve_left (hbook _))
  have hnowhere : ∀ {N}, N ∈ m'.book.orders → p.copies N = 0 := by
    intro N hN
    obtain ⟨o, ho, rfl⟩ := hloaded hN
    obtain ⟨hch, hunsent⟩ := not_or.mp (hguard o ho)
    simp [Pipeline.copies, Pipeline.unfinished, hidle, hqueue,
      Matcher.holds_of_notMem (hbook _), List.count_eq_zero.mpr hch,
      List.count_eq_zero.mpr hunsent]
  have hplus : ∀ N, Pipeline.copies { p₁ with matcher := m' } N = p.copies N + m'.holds N := by
    intro N
    have hbalance := @copies_matcher _ p p₁ m' _ hexch N
    simpa [MatcherEvent.received, MatcherEvent.executes, Matcher.holds_of_notMem (hbook N)]
      using hbalance
  refine ⟨hf.sound, fun N => ?_, fun N hN => ?_, fun hb => absurd hb hf.booted,
    fun task htask => h.resends task (hexec ▸ htask)⟩
  · rw [hplus]
    by_cases hN : N ∈ m'.book.orders
    · rw [hnowhere hN, Matcher.holds_of_mem hN]
    · rw [Matcher.holds_of_notMem hN]
      exact h.once N
  · rw [hplus] at hN
    show (p₁.db.statusOf N).isSome = true
    rw [hdb]
    by_cases hmem : N ∈ m'.book.orders
    · obtain ⟨o, ho, rfl⟩ := hloaded hmem
      rcases hexch.1 with hloads | rfl
      · exact Database.statusOf_isSome.mpr (FiniteMap.mem_of_lookup ((hloads.mem o).mp ho).1)
      · cases ho
    · rw [Matcher.holds_of_notMem hmem] at hN
      exact h.row N hN

/-- **The matcher moves orders**, or loads them at boot, when they are nowhere else. -/
theorem LocationInv.matcher {event : MatcherEvent} (h : LocationInv p)
    (hguard : ∀ loaded, event = .hydrate loaded → ∀ o ∈ loaded, ¬ Pending p o.noteId)
    (hstep : Pipeline.Step api p (.matcher event) p') : LocationInv p' := by
  have hall := hstep
  cases hstep with
  | @matcher p₁ i _ m' hm hexch =>
    by_cases hbooted : p.matcher.phase = .booting
    · obtain ⟨loaded, rfl⟩ := hm.hydrates hbooted
      exact h.hydrate hbooted (hguard loaded rfl) hm hexch
    · refine h.of_le hall (fun N => ?_) (fun hb => absurd hb (hm.footprint h.sound).booted)
        fun task htask => h.resends task (hexch.frame.2.2.1 ▸ htask)
      have hbalance := matcher_balance h.sound hm hbooted N
      have hcopies := @copies_matcher _ p p₁ m' event hexch N
      omega

/-- What the executor holds after a note was given back. -/
theorem count_filter_ne (held : List OrderId) (id N : OrderId) :
    (held.filter (· ≠ id)).count N = if N = id then 0 else held.count N := by
  split
  · rename_i hN
    exact List.count_eq_zero.mpr (by simp [hN])
  · rename_i hN
    exact List.count_filter (by simpa using hN)

/-- A note the executor is about to re-send is one it holds, and it re-sends it once. -/
theorem LocationInv.resend {held : List OrderId} {order : IngestOrder}
    {rest : List ExecutorAction} (h : LocationInv p)
    (hbusy : p.executor = some ⟨held, .resend order :: rest⟩) (N : OrderId) :
    held.count N ≤ 1 ∧
      (resent rest).count N + (if N = order.noteId then 1 else 0) ≤ held.count N := by
  constructor
  · have hone := h.once N
    rw [Pipeline.copies, Pipeline.unfinished, hbusy, List.count_append] at hone
    exact le_trans (Nat.le_add_left _ _) (le_trans (Nat.le_add_left _ _) hone)
  · have hle : (order.noteId :: resent rest).count N ≤ held.count N := h.resends _ hbusy N
    by_cases hN : N = order.noteId
    · subst hN
      rw [List.count_cons_self] at hle
      rw [if_pos rfl]
      exact hle
    · rw [List.count_cons_of_ne (Ne.symm hN)] at hle
      rw [if_neg hN]
      exact hle

/-- **The executor gives back what it holds**: a re-sent note goes from its hands to the
channel. -/
theorem LocationInv.act {action : ExecutorAction} (h : LocationInv p)
    (hstep : Pipeline.Step api p (.act action) p') : LocationInv p' := by
  have hall := hstep
  cases hstep with
  | @act held _ rest hbusy =>
    have hpending := h.resends _ hbusy
    have hunfinished : p.unfinished = p.execCh.flatMap ExecutionBatch.ids ++ held := by
      rw [Pipeline.unfinished, hbusy]
      rfl
    have hbooted : p.matcher.phase ≠ .booting := fun hb => by
      cases hbusy.symm.trans (h.booting hb).1
    cases action with
    | updateStatus ids status | markNullified ids =>
      -- a write to the database moves no note
      refine h.of_le hall (fun N => Nat.le_of_eq ?_) (fun hb => absurd hb hbooted) ?_
      · rw [Pipeline.copies, Pipeline.copies, hunfinished]
        rfl
      · rintro task ⟨⟩
        exact hpending
    | resend order =>
      refine h.of_le hall (fun N => ?_) (fun hb => absurd hb hbooted) ?_
      · obtain ⟨-, hresent⟩ := h.resend hbusy N
        rw [Pipeline.copies, Pipeline.copies, hunfinished]
        simp only [Pipeline.unfinished, Pipeline.perform, List.map_append, List.map_cons,
          List.map_nil, List.count_append, List.count_singleton, Option.map_some,
          Option.getD_some, count_filter_ne]
        by_cases hN : N = order.noteId
        · simp [hN] at hresent ⊢
          omega
        · simp [hN, Ne.symm hN]
      · rintro task ⟨⟩ N
        obtain ⟨honce, hresent⟩ := h.resend hbusy N
        show (resent rest).count N ≤ (held.filter (· ≠ order.noteId)).count N
        rw [count_filter_ne]
        by_cases hN : N = order.noteId
        · rw [if_pos hN] at hresent ⊢
          omega
        · rw [if_neg hN] at hresent ⊢
          omega

/-- **One step**: no order becomes live twice. -/
theorem LocationInv.step {history : List (Pipeline Note × PipelineEvent Note)} (h : LocationInv p)
    (hguard : SingleEntry api history p e) (hstep : Pipeline.Step api p e p') :
    LocationInv p' := by
  have hall := hstep
  cases hstep with
  | sync result hidle =>
    refine h.of_le hall (fun N => Nat.le_of_eq ?_) h.booting h.resends
    simp [Pipeline.copies, hidle, Ingest.unsent, Pipeline.unfinished]
  | report hreporting =>
    refine h.of_le hall (fun N => Nat.le_of_eq ?_) h.booting h.resends
    simp [Pipeline.copies, hreporting, Ingest.unsent, Pipeline.unfinished]
  | insert hreporting _ => exact h.insert hreporting (hguard.1 _ rfl hreporting) hall
  | send hsending =>
    refine h.of_le hall (fun N => Nat.le_of_eq ?_) h.booting h.resends
    simp only [Pipeline.copies, hsending, Ingest.unsent, Pipeline.unfinished, List.map_append,
      List.map_cons, List.map_nil, List.count_append, List.count_cons, List.count_nil]
    omega
  | finish hsending =>
    refine h.of_le hall (fun N => Nat.le_of_eq ?_) h.booting h.resends
    simp [Pipeline.copies, hsending, Ingest.unsent, Pipeline.unfinished]
  | finishEarly hreporting =>
    refine h.of_le hall (fun N => Nat.le_of_eq ?_) h.booting h.resends
    simp [Pipeline.copies, hreporting, Ingest.unsent, Pipeline.unfinished]
  | matcher _ _ => exact h.matcher (fun loaded he => hguard.2 loaded (congrArg _ he)) hall
  | takeEmpty hidle hqueue =>
    refine h.of_le hall (fun N => Nat.le_of_eq ?_) (fun hb => ?_) h.resends
    · simp [Pipeline.copies, Pipeline.unfinished, hqueue, ExecutionBatch.ids]
    · cases hqueue.symm.trans (h.booting hb).2.1
  | take answers hidle hqueue _ =>
    refine h.of_le hall (fun N => Nat.le_of_eq ?_) (fun hb => ?_) ?_
    · simp only [Pipeline.copies, Pipeline.unfinished, hqueue, hidle, List.flatMap_cons,
        List.count_append, Option.map_some, Option.map_none, Option.getD_some, Option.getD_none,
        List.count_nil]
      omega
    · cases hqueue.symm.trans (h.booting hb).2.1
    · rintro task ⟨⟩ N
      exact withinBatch_executeBatch.2.count_le N
  | act _ => exact h.act hall
  | done hbusy =>
    refine h.of_le hall (fun N => ?_) (fun hb => ?_) (fun _ ht => by cases ht)
    · simp only [Pipeline.copies, Pipeline.unfinished, hbusy, List.count_append, Option.map_some,
        Option.map_none, Option.getD_some, Option.getD_none, List.count_nil]
      omega
    · cases hbusy.symm.trans (h.booting hb).1
  | reboot feed triangularEnabled router => exact locationInv_boot _ _ _ _

end Step

/-- **No order is live twice, if every order enters once.**  In every run from a boot whose
steps meet the condition: a note in a batch that the executor has not finished with is not
in the matcher's book, and no two such batches hold the same note. -/
theorem unfinished_not_in_book (api : NoteApi Note) (db : Database) (feed : PriceFeed)
    (triangularEnabled : Bool) (router : Option RouterHooks)
    {history : List (Pipeline Note × PipelineEvent Note)} {p : Pipeline Note}
    (hrun : Run (Pipeline.Step api) (SingleEntry api)
      (Pipeline.boot db feed triangularEnabled router) history p) :
    (∀ N ∈ p.unfinished, N ∉ p.matcher.book.orders) ∧ p.unfinished.Nodup := by
  have hinv : LocationInv p := hrun.invariant (P := fun _ p => LocationInv p)
    (locationInv_boot db feed triangularEnabled router)
    fun hinv hguard hstep => hinv.step hguard hstep
  refine ⟨fun N hN hbook => ?_, List.nodup_iff_count_le_one.mpr fun N => ?_⟩
  · have := List.count_pos_iff.mpr hN
    have hone := hinv.once N
    rw [Pipeline.copies, Matcher.holds_of_mem hbook] at hone
    omega
  · have hone := hinv.once N
    rw [Pipeline.copies] at hone
    omega

/-! ### An order that is hydrated and sent -/

/-- Only order 2 is known, and active. -/
def rowTwo : Database where
  orders := Finmap.insert 2 ⟨crossingTerms 2, .active⟩ ∅
  notes := Finmap.insert 2 [2] ∅
  lastFetchedBlock := 0

/-- Ingest has committed order 1 and not sent it; the matcher has not hydrated. -/
def committed : Pipeline OrderTerms where
  db := ((rowTwo.resetAllSettlingToActive.markOrdersOnchainNullified []).insertNotesBatch
    [orderOne] 0).2
  ingest := .sending ⟨0, [noteOne], []⟩ [orderOne]
  orderCh := []
  consumedCh := []
  matcher := unloaded
  execCh := []
  executor := none

/-- **An order is live twice.**  Ingest commits order 1, the matcher hydrates and emits it
in a batch, and only then ingest sends it: the next tick puts it back into the book. -/
theorem hydrated_order_sent_again :
    ∃ history, ∃ p : Pipeline OrderTerms, Run (Pipeline.Step exactApi) unguarded
      (Pipeline.boot rowTwo crossingInputs.feed false none) history p ∧
      1 ∈ p.unfinished ∧ 1 ∈ p.matcher.book.orders := by
  have h₀ : Run (Pipeline.Step exactApi) unguarded
      (Pipeline.boot rowTwo crossingInputs.feed false none) _ _ :=
    Run.single (.sync ⟨0, [noteOne], []⟩ rfl)
  have h₁ := h₀.step trivial (.insert rfl (by decide))
  obtain ⟨_, h₂, -⟩ := emits_crossing exactApi (p := committed) rfl rfl rfl
    (loadsActive_crossing (by decide) (by decide))
  have h₃ := (Run.append (s := committed) h₁ h₂).step trivial (.send rfl)
  have h₄ := h₃.step trivial (.matcher_alone (i := crossingInputs) (.noRouter rfl rfl) rfl)
  have h₅ := h₄.step trivial (.matcher_alone (i := crossingInputs) (.wake rfl) rfl)
  have h₆ := h₅.step trivial
    (.matcher_alone (i := crossingInputs) (.consumedEmpty rfl) ⟨rfl, rfl⟩)
  have h₇ := h₆.step trivial (.matcher_receive (i := crossingInputs) (.receive orderOne rfl) rfl)
  exact ⟨_, _, h₇, by decide, by decide⟩

/-- Loaded at boot and nothing on its way, the two orders are in the batch only. -/
theorem unfinished_not_in_book_emitted :
    ∃ history, ∃ p : Pipeline OrderTerms, Run (Pipeline.Step exactApi) (SingleEntry exactApi)
      (Pipeline.boot activeRows crossingInputs.feed false none) history p ∧
      p.unfinished = [1, 2] ∧ (∀ N ∈ p.unfinished, N ∉ p.matcher.book.orders) ∧
      p.unfinished.Nodup := by
  obtain ⟨history, hrun, hquiet⟩ := emits_crossing exactApi
    (p := Pipeline.boot activeRows crossingInputs.feed false none) rfl rfl rfl
    (loadsActive_crossing (by decide) rfl)
  have hmeets : Meets (SingleEntry exactApi) [] history := by
    refine meets_of_forall fun x hx before => ?_
    obtain ⟨⟨e, he⟩, hingest, horders⟩ := hquiet x hx
    refine ⟨fun _ hinsert => ?_, fun _ _ _ _ hpending => ?_⟩
    · cases he.symm.trans hinsert
    · rw [Pending, hingest, horders] at hpending
      simp [Pipeline.boot, Ingest.unsent] at hpending
  exact ⟨_, _, hrun.guarded hmeets, by decide,
    unfinished_not_in_book exactApi activeRows _ _ _ (hrun.guarded hmeets)⟩

end PswapSolver
