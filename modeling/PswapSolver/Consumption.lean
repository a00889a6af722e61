import PswapSolver.Nullified

/-! # Consumed notes leave the matcher

Ingest sends an order on one channel and reports its consumption on another.  A tick
drains the consumption channel first.  If the order is still in its channel by then, or
not even sent, the removal finds nothing to remove and the order is added afterwards: a
spent note stays in the book.  The same happens in the database if one sync result lists
a note as new and as consumed, for the row is inserted after it should have been marked.

`InOrder` asks that a consumption is drained, and marked, after the order it is about has
arrived; then the note is gone for good (`consumed_note_gone`).
-/
namespace PswapSolver
open Runs
variable {Note : Type}

namespace PipelineEvent

/-- The notes of the batches, for the executor or for the router, that a step emits. -/
def emits : PipelineEvent Note → List OrderId
  | matcher event => event.executes ++ event.handsOver
  | _ => []

/-- The executor makes the note a candidate again, or the solver starts anew. -/
def GivesBack (N : OrderId) : PipelineEvent Note → Prop
  | act (.resend order) => order.noteId = N
  | act (.updateStatus ids status) => N ∈ ids ∧ status = .active
  | reboot => True
  | _ => False

end PipelineEvent

/-- An order for the note is on its way to the matcher. -/
def Pending (p : Pipeline Note) (N : OrderId) : Prop :=
  N ∈ p.orderCh.map IngestOrder.noteId ∨ N ∈ p.ingest.unsent.map IngestOrder.noteId

/-- **The condition on a step, for one note**: its consumption is drained after its order
has arrived, and marked after its row was inserted; and the executor does not give it
back. -/
def InOrder (N : OrderId) : Guard (Pipeline Note) (PipelineEvent Note) := fun _ p e =>
  (e = .matcher (.consume N) → (p.db.statusOf N).isSome = true ∧ ¬ Pending p N) ∧
  (∀ result, e = .sync result → N ∈ result.consumedNotes → (p.db.statusOf N).isSome = true) ∧
  ¬ e.GivesBack N

/-- **The note is gone**: once its consumption is drained it is not in the book and in no
batch emitted from then on, and when the iteration that reports it ends its row is not
active. -/
structure Gone (N : OrderId) (history : List (Pipeline Note × PipelineEvent Note))
    (p : Pipeline Note) : Prop where
  book : ∀ x ∈ history, x.2 = .matcher (.consume N) → N ∉ p.matcher.book.orders
  batches : history.Pairwise fun x y => x.2 = .matcher (.consume N) → N ∉ y.2.emits
  row : ∀ x ∈ history, x.2 = .finish → N ∈ x.1.ingest.reported →
    x.1.db.statusOf N ≠ some .active

/-- The consumption was drained, and the note cannot come back. -/
structure Drained (p : Pipeline Note) (N : OrderId) : Prop where
  book : N ∉ p.matcher.book.orders
  row : (p.db.statusOf N).isSome = true
  pending : ¬ Pending p N
  booted : p.matcher.phase ≠ .booting

/-! ## The row -/

section Row
variable {api : NoteApi Note} {p p' : Pipeline Note} {e : PipelineEvent Note} {N : OrderId}

/-- No step deletes a row. -/
theorem hasRow_step (hstep : Pipeline.Step api p e p') (h : (p.db.statusOf N).isSome = true) :
    (p'.db.statusOf N).isSome = true := by
  obtain ⟨s, hs⟩ := Option.isSome_iff_exists.mp h
  obtain hdb | ⟨result, -, hdb⟩ | ⟨result, -, hdb⟩ | ⟨ids, status, -, hdb⟩ | ⟨ids, -, hdb⟩ |
    ⟨-, hdb⟩ := hstep.db_cases
  all_goals rw [hdb]
  · exact h
  · simp [hs]
  · exact Option.isSome_iff_exists.mpr ⟨s, Database.statusOf_insertNotesBatch hs _ _⟩
  · simp [hs]
  · simp [hs]
  · simp [hs]

/-- A row that is not active stays so, unless the executor gives the note back. -/
theorem notActive_step (hstep : Pipeline.Step api p e p') (hkeep : ¬ e.GivesBack N)
    (hrow : (p.db.statusOf N).isSome = true) (h : p.db.statusOf N ≠ some .active) :
    p'.db.statusOf N ≠ some .active := by
  obtain ⟨s, hs⟩ := Option.isSome_iff_exists.mp hrow
  rw [hs] at h
  have hmark : ∀ ids, (p.db.markOrdersOnchainNullified ids).statusOf N ≠ some .active := by
    intro ids hc
    rw [Database.statusOf_markOrdersOnchainNullified, hs] at hc
    grind
  obtain hdb | ⟨result, -, hdb⟩ | ⟨result, -, hdb⟩ | ⟨ids, status, rfl, hdb⟩ | ⟨ids, -, hdb⟩ |
    ⟨rfl, -⟩ := hstep.db_cases
  · rw [hdb, hs]
    exact h
  · rw [hdb]
    exact hmark _
  · rw [hdb, Database.statusOf_insertNotesBatch hs]
    exact h
  · intro hc
    rw [hdb, Database.statusOf_updateOrdersStatus, hs] at hc
    simp only [PipelineEvent.GivesBack] at hkeep
    grind
  · rw [hdb]
    exact hmark _
  · exact absurd trivial hkeep

end Row

/-! ## The matcher -/

section Drained
variable {api : NoteApi Note} {p p' : Pipeline Note} {e : PipelineEvent Note} {N : OrderId}

/-- The steps of the matcher, and no others, touch its state; they keep it sound. -/
theorem sound_step (hstep : Pipeline.Step api p e p') (h : p.matcher.Sound) : p'.matcher.Sound := by
  cases hstep with
  | matcher hm hexch => exact (hm.footprint h).sound
  | reboot feed _ _ => exact ⟨OrderBook.Reachable.new feed, nofun⟩
  | @act held action rest _ => cases action <;> exact h
  | sync _ _ => exact h
  | insert _ _ => exact h
  | report _ => exact h
  | send _ => exact h
  | finish _ => exact h
  | finishEarly _ => exact h
  | takeEmpty _ _ => exact h
  | take _ _ _ _ => exact h
  | done _ => exact h

/-- A note with a row is not forwarded again by an insert. -/
theorem notMem_forwarded {db : Database} (hrow : (db.statusOf N).isSome = true)
    (orders : List IngestOrder) (blockNumber : Nat) :
    N ∉ (orders.filter fun o =>
      decide (o.noteId ∈ (db.insertNotesBatch orders blockNumber).1)).map IngestOrder.noteId := by
  intro hN
  obtain ⟨o, ho, rfl⟩ := List.mem_map.mp hN
  have hins := of_decide_eq_true (List.mem_filter.mp ho).2
  have hnew := ((Database.insertOrders_spec db.orders orders).1 o.noteId).mp hins
  obtain ⟨s, hs⟩ := Option.isSome_iff_exists.mp hrow
  obtain ⟨row, hrow, -⟩ := Option.map_eq_some_iff.mp hs
  exact hnew.2 (FiniteMap.mem_of_lookup hrow)

/-- Draining the consumption when the order has arrived. -/
theorem drained_of_consume (hsound : p.matcher.Sound) (hrow : (p.db.statusOf N).isSome = true)
    (hpending : ¬ Pending p N) (hstep : Pipeline.Step api p (.matcher (.consume N)) p') :
    Drained p' N := by
  cases hstep with
  | matcher hm hexch =>
    obtain ⟨rest, -, rfl⟩ := hexch
    have hf := hm.footprint hsound
    exact ⟨hf.gone (Or.inr (List.mem_singleton_self _)), hrow, hpending, hf.booted⟩

/-- **One step**: a drained note stays away. -/
theorem Drained.step (h : Drained p N) (hsound : p.matcher.Sound) (hkeep : ¬ e.GivesBack N)
    (hstep : Pipeline.Step api p e p') : Drained p' N := by
  have hrow := hasRow_step hstep h.row
  obtain ⟨hbook, hrow₀, hpending, hbooted⟩ := h
  obtain ⟨hch, hunsent⟩ := not_or.mp hpending
  cases hstep with
  | sync result _ => exact ⟨hbook, hrow, not_or.mpr ⟨hch, List.not_mem_nil⟩, hbooted⟩
  | report _ => exact ⟨hbook, hrow, not_or.mpr ⟨hch, List.not_mem_nil⟩, hbooted⟩
  | insert _ _ =>
    exact ⟨hbook, hrow, not_or.mpr ⟨hch, notMem_forwarded hrow₀ _ _⟩, hbooted⟩
  | send hsending =>
    rw [hsending] at hunsent
    simp only [Ingest.unsent, List.map_cons, List.mem_cons, not_or] at hunsent
    refine ⟨hbook, hrow, not_or.mpr ⟨?_, hunsent.2⟩, hbooted⟩
    simp only [List.map_append, List.map_cons, List.map_nil, List.mem_append, List.mem_singleton]
    exact not_or.mpr ⟨hch, hunsent.1⟩
  | finish _ => exact ⟨hbook, hrow, not_or.mpr ⟨hch, List.not_mem_nil⟩, hbooted⟩
  | finishEarly _ => exact ⟨hbook, hrow, not_or.mpr ⟨hch, List.not_mem_nil⟩, hbooted⟩
  | matcher hm hexch =>
    obtain ⟨-, hingest, -, -, horders⟩ := hexch.frame
    have hf := hm.footprint hsound
    rw [horders, List.map_append, List.mem_append, not_or] at hch
    refine ⟨fun hN => ?_, hrow, not_or.mpr ⟨hch.2, hingest ▸ hunsent⟩, hf.booted⟩
    rw [← hm.delivers_eq hbooted] at hch
    exact (hf.orders hN).elim hbook hch.1
  | takeEmpty _ _ => exact ⟨hbook, hrow, hpending, hbooted⟩
  | take _ _ _ _ => exact ⟨hbook, hrow, hpending, hbooted⟩
  | @act held action rest _ =>
    cases action with
    | updateStatus ids status => exact ⟨hbook, hrow, hpending, hbooted⟩
    | markNullified ids => exact ⟨hbook, hrow, hpending, hbooted⟩
    | resend order =>
      refine ⟨hbook, hrow, not_or.mpr ⟨?_, hunsent⟩, hbooted⟩
      simp only [Pipeline.perform, List.map_append, List.map_cons, List.map_nil, List.mem_append,
        List.mem_singleton]
      exact not_or.mpr ⟨hch, fun he => hkeep he.symm⟩
  | done _ => exact ⟨hbook, hrow, hpending, hbooted⟩
  | reboot _ _ _ => exact absurd trivial hkeep

/-- What is emitted was in the book. -/
theorem mem_book_of_emits (hsound : p.matcher.Sound) (hstep : Pipeline.Step api p e p')
    (hN : N ∈ e.emits) : N ∈ p.matcher.book.orders := by
  cases hstep with
  | matcher hm _ => exact ((hm.footprint hsound).emitted (List.mem_append.mp hN)).1
  | _ => exact absurd hN List.not_mem_nil

end Drained

/-! ## Whole runs -/

/-- The invariant of a run that is in order for the note. -/
structure ConsumedInv (N : OrderId) (history : List (Pipeline Note × PipelineEvent Note))
    (p : Pipeline Note) : Prop where
  sound : p.matcher.Sound
  drained : ∀ x ∈ history, x.2 = .matcher (.consume N) → Drained p N
  reported : N ∈ p.ingest.reported →
    (p.db.statusOf N).isSome = true ∧ p.db.statusOf N ≠ some .active
  gone : Gone N history p

section Inv
variable {api : NoteApi Note} {N : OrderId} {history : List (Pipeline Note × PipelineEvent Note)}
  {p p' : Pipeline Note} {e : PipelineEvent Note}

theorem consumedInv_boot (db : Database) (feed : PriceFeed) (triangularEnabled : Bool)
    (router : Option RouterHooks) :
    ConsumedInv N [] (Pipeline.boot db feed triangularEnabled router : Pipeline Note) where
  sound := ⟨OrderBook.Reachable.new feed, fun _ h => absurd h List.not_mem_nil⟩
  drained := fun _ h => absurd h List.not_mem_nil
  reported := fun h => absurd h List.not_mem_nil
  gone := ⟨fun _ h => absurd h List.not_mem_nil, .nil, fun _ h => absurd h List.not_mem_nil⟩

/-- A note is reported by the sync of the iteration. -/
theorem reported_step (hstep : Pipeline.Step api p e p') (hN : N ∈ p'.ingest.reported) :
    N ∈ p.ingest.reported ∨ ∃ result, e = .sync result ∧ N ∈ result.consumedNotes := by
  cases hstep with
  | sync result _ => exact Or.inr ⟨result, rfl, hN⟩
  | report hreporting => exact Or.inl (hreporting ▸ hN)
  | insert hreporting _ => exact Or.inl (hreporting ▸ hN)
  | send hsending => exact Or.inl (hsending ▸ hN)
  | finish _ => exact absurd hN List.not_mem_nil
  | finishEarly _ => exact absurd hN List.not_mem_nil
  | matcher _ hexch => exact Or.inl (hexch.frame.2.1 ▸ hN)
  | @act held action rest _ => cases action <;> exact Or.inl hN
  | takeEmpty _ _ => exact Or.inl hN
  | take _ _ _ _ => exact Or.inl hN
  | done _ => exact Or.inl hN
  | reboot _ _ _ => exact absurd hN List.not_mem_nil

/-- Marking takes an active row out of play. -/
theorem notActive_of_mark {db : Database} {ids : List OrderId} (hN : N ∈ ids) :
    (db.markOrdersOnchainNullified ids).statusOf N ≠ some .active := by
  intro hc
  rw [Database.statusOf_markOrdersOnchainNullified] at hc
  obtain ⟨s, -, hs⟩ := Option.map_eq_some_iff.mp hc
  grind

/-- **One step of a run that is in order for the note.** -/
theorem ConsumedInv.step (hinv : ConsumedInv N history p) (hguard : InOrder N history p e)
    (hstep : Pipeline.Step api p e p') : ConsumedInv N (history ++ [(p, e)]) p' := by
  obtain ⟨hconsume, hsync, hkeep⟩ := hguard
  have hdrained : ∀ x ∈ history ++ [(p, e)], x.2 = .matcher (.consume N) → Drained p' N := by
    intro x hx hx₂
    rcases List.mem_append.mp hx with hx | hx
    · exact (hinv.drained x hx hx₂).step hinv.sound hkeep hstep
    · rw [List.mem_singleton.mp hx] at hx₂
      obtain ⟨hrow, hpending⟩ := hconsume hx₂
      dsimp only at hx₂
      exact drained_of_consume hinv.sound hrow hpending (hx₂ ▸ hstep)
  refine ⟨sound_step hstep hinv.sound, hdrained, fun hN => ?_, ⟨fun x hx hx₂ =>
    (hdrained x hx hx₂).book, ?_, fun x hx hx₂ hN => ?_⟩⟩
  · rcases reported_step hstep hN with hN | ⟨result, rfl, hN⟩
    · obtain ⟨hrow, hactive⟩ := hinv.reported hN
      exact ⟨hasRow_step hstep hrow, notActive_step hstep hkeep hrow hactive⟩
    · refine ⟨hasRow_step hstep (hsync result rfl hN), ?_⟩
      cases hstep with
      | sync _ _ => exact notActive_of_mark hN
  · refine List.pairwise_append.mpr ⟨hinv.gone.batches, List.pairwise_singleton _ _, ?_⟩
    intro x hx y hy hx₂ hN
    rw [List.mem_singleton.mp hy] at hN
    exact (hinv.drained x hx hx₂).book (mem_book_of_emits hinv.sound hstep hN)
  · rcases List.mem_append.mp hx with hx | hx
    · exact hinv.gone.row x hx hx₂ hN
    · rw [List.mem_singleton.mp hx] at hN ⊢
      exact (hinv.reported hN).2

end Inv

/-- **A consumed note is gone for good, if its events come in order.**  In every run from a
boot whose steps are in order for the note, once its consumption is drained the note is
neither in the book nor in any later batch, and the iteration that reports it leaves its
row not active. -/
theorem consumed_note_gone (api : NoteApi Note) (db : Database) (feed : PriceFeed)
    (triangularEnabled : Bool) (router : Option RouterHooks) (N : OrderId)
    {history : List (Pipeline Note × PipelineEvent Note)} {p : Pipeline Note}
    (hrun : Run (Pipeline.Step api) (InOrder N) (Pipeline.boot db feed triangularEnabled router)
      history p) : Gone N history p := by
  have hinv : ConsumedInv N history p := hrun.invariant
    (consumedInv_boot db feed triangularEnabled router)
    fun hinv hguard hstep => hinv.step hguard hstep
  exact hinv.gone

/-! ### Events out of order -/

/-- A database without rows. -/
def emptyDb : Database := ⟨∅, ∅, 0⟩

/-- Note 1, an order of `crossingTerms`, as a sync finds it. -/
def noteOne : NewNote OrderTerms := ⟨1, crossingTerms 1, true, [1]⟩

/-- The order of note 1. -/
def orderOne : IngestOrder := ⟨1, crossingTerms 1, [1]⟩

/-- **A consumed note survives.**  The order of note 1 is ingested in one iteration and
reported consumed in the next, both between two ticks: the tick drains both events, the
consumption first, and the note is in the book.  And if one iteration finds note 1 new and
consumed, its row is active when the iteration ends. -/
theorem consumed_note_survives :
    (∃ history, ∃ p : Pipeline OrderTerms, Run (Pipeline.Step exactApi) unguarded
      (Pipeline.boot emptyDb crossingInputs.feed false none) history p ∧
      (∃ x ∈ history, x.2 = .matcher (.consume 1)) ∧
      (∃ x ∈ history, x.2 = .matcher (.receive orderOne)) ∧ 1 ∈ p.matcher.book.orders) ∧
    ∃ history, ∃ p : Pipeline OrderTerms, Run (Pipeline.Step exactApi) unguarded
      (Pipeline.boot emptyDb crossingInputs.feed false none) history p ∧
      ∃ x ∈ history, x.2 = .finish ∧ 1 ∈ x.1.ingest.reported ∧
        x.1.db.statusOf 1 = some .active := by
  constructor
  · have h₁ : Run (Pipeline.Step exactApi) unguarded
        (Pipeline.boot emptyDb crossingInputs.feed false none) _ _ :=
      Run.single (.matcher_alone (i := crossingInputs) (.hydrate [] rfl) ⟨Or.inr rfl, rfl⟩)
    -- ingest: the order, and in the next iteration its consumption
    have h₂ := h₁.step trivial (.sync ⟨0, [noteOne], []⟩ rfl)
    have h₃ := h₂.step trivial (.insert rfl (by decide))
    have h₄ := h₃.step trivial (.send (show _ = Ingest.sending _ [orderOne] from rfl))
    have h₅ := h₄.step trivial (.finish rfl)
    have h₆ := h₅.step trivial (.sync ⟨1, [], [1]⟩ rfl)
    have h₇ := h₆.step trivial (.report rfl)
    have h₈ := h₇.step trivial (.finishEarly rfl)
    -- the tick
    have h₉ := h₈.step trivial (.matcher_alone (i := crossingInputs) (.wake rfl) rfl)
    have h₁₀ := h₉.step trivial (.matcher_consume (i := crossingInputs) (.consume 1 rfl) rfl)
    have h₁₁ := h₁₀.step trivial
      (.matcher_alone (i := crossingInputs) (.consumedEmpty rfl) ⟨rfl, rfl⟩)
    have h₁₂ := h₁₁.step trivial
      (.matcher_receive (i := crossingInputs) (.receive orderOne rfl) rfl)
    refine ⟨_, _, h₁₂, ⟨_, List.mem_append_left _ (List.mem_append_left _
      (List.mem_append_right _ (List.mem_singleton_self _))), rfl⟩, ⟨_, List.mem_append_right _
      (List.mem_singleton_self _), rfl⟩, by decide⟩
  · have h₁ : Run (Pipeline.Step exactApi) unguarded
        (Pipeline.boot emptyDb crossingInputs.feed false none) _ _ :=
      Run.single (.sync ⟨0, [noteOne], [1]⟩ rfl)
    have h₂ := h₁.step trivial (.report rfl)
    have h₃ := h₂.step trivial (.insert rfl (by decide))
    have h₄ := h₃.step trivial (.send (show _ = Ingest.sending _ [orderOne] from rfl))
    have h₅ := h₄.step trivial (.finish rfl)
    exact ⟨_, _, h₅, _, List.mem_append_right _ (List.mem_singleton_self _), rfl, by decide,
      by decide⟩

/-- Loaded at boot, reported later and then drained, note 1 is gone. -/
theorem consumed_note_gone_loaded :
    ∃ history, ∃ p : Pipeline OrderTerms, Run (Pipeline.Step exactApi) (InOrder 1)
      (Pipeline.boot activeRows crossingInputs.feed false none) history p ∧
      (∃ x ∈ history, x.2 = .matcher (.consume 1)) ∧ Gone 1 history p := by
  have h₁ : Run (Pipeline.Step exactApi) unguarded
      (Pipeline.boot activeRows crossingInputs.feed false none) _ _ :=
    Run.single (.matcher_alone (i := crossingInputs) (.hydrate loadedCrossing rfl)
      ⟨Or.inl (loadsActive_crossing (by decide) rfl), rfl⟩)
  have h₂ := h₁.step trivial (.sync ⟨0, [], [1]⟩ rfl)
  have h₃ := h₂.step trivial (.report rfl)
  have h₄ := h₃.step trivial (.matcher_alone (i := crossingInputs) (.wake rfl) rfl)
  have h₅ := h₄.step trivial (.matcher_consume (i := crossingInputs) (.consume 1 rfl) rfl)
  have hrun : Run (Pipeline.Step exactApi) (InOrder 1) _ _ _ := h₅.guarded ⟨⟨nofun, nofun, nofun⟩,
    ⟨nofun, fun _ _ _ => by decide, nofun⟩, ⟨nofun, nofun, nofun⟩, ⟨nofun, nofun, nofun⟩,
    ⟨fun _ => ⟨by decide, by simp [Pending, Ingest.unsent, Pipeline.boot]⟩, nofun, nofun⟩, trivial⟩
  exact ⟨_, _, hrun, ⟨_, List.mem_append_right _ (List.mem_singleton_self _), rfl⟩,
    consumed_note_gone exactApi activeRows _ _ _ 1 hrun⟩

end PswapSolver
