import PswapSolver.TickBoundary

/-! # Bounded channels

In `Pipeline` a channel takes every message.  The channels of `create_channels` are bounded,
and where the code awaits `send` the sender waits until there is room: ingest when it reports
a consumed note or sends an order, the executor when it re-sends one, and the matcher when it
sends a batch.  The matcher drains its own channels between two such sends only, so it and the
executor can wait for each other: the matcher to put a batch on the full channel of the
executor, the executor to put an order on the full channel of the matcher.

The orders that are in the hands of the two tasks and on the way between them are the *load*.
It grows only when orders are loaded at boot or sent by ingest (`Pipeline.Step.load_le`).  A
batch holds at least two orders, since nobody trades alone, so two tasks that wait for each
other need a load of `order + 2 * exec + 3` (`Bounded.Deadlocked.load_ge`), and with this load
they can come to it, whatever the capacities (`deadlock_reachable`).
-/
namespace PswapSolver
open Runs
variable {Note : Type}

/-! ## The model -/

/-- The sizes of the three channels. -/
structure Capacities where
  order : Nat
  consumed : Nat
  exec : Nat
  order_pos : 0 < order
  consumed_pos : 0 < consumed
  exec_pos : 0 < exec

/-- The size of a channel of the pipeline. -/
def pipelineChannelBuf : Nat := 5000

theorem pipelineChannelBuf_pos : 0 < pipelineChannelBuf := by decide

/-- The channels the solver is started with. -/
def createChannels : Capacities :=
  ⟨pipelineChannelBuf, pipelineChannelBuf, pipelineChannelBuf, pipelineChannelBuf_pos,
    pipelineChannelBuf_pos, pipelineChannelBuf_pos⟩

/-- The pipeline with bounded channels.  `sending` is the batch the matcher is about to send,
and the matcher once it is sent. -/
structure Bounded (Note : Type) where
  pipeline : Pipeline Note
  sending : Option (ExecutionBatch × Matcher)

/-- What happens in a step: a step of the pipeline, or the matcher comes to send a batch. -/
inductive BoundedEvent (Note : Type) where
  | task (event : PipelineEvent Note)
  | await (batch : ExecutionBatch)

/-- The channel the event puts a message on has room for it. -/
def Pipeline.HasRoom (p : Pipeline Note) (cap : Capacities) : PipelineEvent Note → Prop
  | .report _ => p.consumedCh.length < cap.consumed
  | .send _ => p.orderCh.length < cap.order
  | .act (.resend _) => p.orderCh.length < cap.order
  | .matcher (.execute (some _)) => p.execCh.length < cap.exec
  | _ => True

namespace Bounded

/-- The solver right after `prepare_db`. -/
def boot (db : Database) (feed : PriceFeed) (triangularEnabled : Bool)
    (router : Option RouterHooks) : Bounded Note :=
  ⟨Pipeline.boot db feed triangularEnabled router, none⟩

/-- **The steps with bounded channels**, of one life of the process.  A matcher that has a
batch to send does nothing else until it is sent. -/
inductive Step (api : NoteApi Note) (cap : Capacities) :
    Bounded Note → BoundedEvent Note → Bounded Note → Prop
  | others {s : Bounded Note} {e : PipelineEvent Note} {p' : Pipeline Note}
      (step : Pipeline.Step api s.pipeline e p') (room : s.pipeline.HasRoom cap e)
      (others : ∀ event, e ≠ .matcher event) (alive : e ≠ .reboot) :
      Step api cap s (.task e) ⟨p', s.sending⟩
  | matcher {s : Bounded Note} {e : MatcherEvent} {p' : Pipeline Note} (free : s.sending = none)
      (step : Pipeline.Step api s.pipeline (.matcher e) p')
      (silent : ∀ batch, e ≠ .execute (some batch)) : Step api cap s (.task (.matcher e)) ⟨p', none⟩
  | await {s : Bounded Note} {i : MatcherInputs} {batch : ExecutionBatch} {m' : Matcher}
      (free : s.sending = none)
      (step : Matcher.Step i s.pipeline.matcher (.execute (some batch)) m') :
      Step api cap s (.await batch) ⟨s.pipeline, some (batch, m')⟩
  | emit {s : Bounded Note} {batch : ExecutionBatch} {m' : Matcher}
      (waiting : s.sending = some (batch, m'))
      (room : s.pipeline.HasRoom cap (.matcher (.execute (some batch)))) :
      Step api cap s (.task (.matcher (.execute (some batch))))
        ⟨{ s.pipeline with matcher := m', execCh := s.pipeline.execCh ++ [batch] }, none⟩

/-- The matcher waits for room on the channel of the executor. -/
def MatcherBlocked (s : Bounded Note) (cap : Capacities) : Prop :=
  s.sending.isSome ∧ cap.exec ≤ s.pipeline.execCh.length

/-- The executor waits for room on the channel of the matcher. -/
def ExecutorBlocked (s : Bounded Note) (cap : Capacities) : Prop :=
  ∃ held order rest, s.pipeline.executor = some ⟨held, .resend order :: rest⟩ ∧
    cap.order ≤ s.pipeline.orderCh.length

/-- The matcher and the executor wait for each other. -/
def Deadlocked (s : Bounded Note) (cap : Capacities) : Prop :=
  s.MatcherBlocked cap ∧ s.ExecutorBlocked cap

end Bounded

/-! ## The load -/

/-- How many orders the executor has still to re-send. -/
def Pipeline.unreturned (p : Pipeline Note) : Nat :=
  (p.executor.elim [] fun task => resent task.pending).length

/-- **The load**: the orders on their way to the matcher, in its book, in the batches on their
way to the executor, and those it has still to re-send. -/
def Pipeline.load (p : Pipeline Note) : Nat :=
  p.orderCh.length + p.matcher.book.orders.keys.card +
    (p.execCh.flatMap ExecutionBatch.ids).length + p.unreturned

/-- How many orders an event brings in from outside. -/
def PipelineEvent.brings : PipelineEvent Note → Nat
  | .send _ => 1
  | .matcher (.hydrate loaded) => loaded.length
  | _ => 0

/-- How many orders were loaded at boot and sent by ingest. -/
def broughtIn (history : List (Bounded Note × BoundedEvent Note)) : Nat :=
  (history.map fun x =>
    match x.2 with
    | .task e => e.brings
    | .await _ => 0).sum

/-! ### Nobody trades alone -/

/-- The run has filled nothing, or two orders. -/
def FilledTogether (s : Progress) : Prop := s.filledOrders = ∅ ∨ 2 ≤ s.filledOrders.card

theorem two_le_card_of_pair {l : Finset OrderId} {x y : OrderId} (hne : x ≠ y) (hx : x ∈ l)
    (hy : y ∈ l) : 2 ≤ l.card := by
  rw [← Finset.card_pair hne]
  exact Finset.card_le_card (Finset.insert_subset hx (Finset.singleton_subset_iff.mpr hy))

theorem MatchStep.filledTogether {tokenA tokenB : TokenId} {s s' : Progress}
    (m : MatchStep tokenA tokenB s s') (hb : s.book.InStep ∅) : FilledTogether s' := by
  refine Or.inr (two_le_card_of_pair (m.heads hb).ne ?_ ?_)
  · rw [m.filledOrders]
    exact Finset.mem_insert_of_mem (Finset.mem_insert_self ..)
  · rw [m.filledOrders]
    exact Finset.mem_insert_self ..

theorem filledTogether_executed {s : Progress} {e : CycleEntry} {sim : CycleSimulation}
    (hl : Legs s.book e) (h : Simulated s.book e sim) : FilledTogether (executed s e h) := by
  refine Or.inr (two_le_card_of_pair hl.ne.1 ?_ ?_)
  · exact Finset.mem_insert_of_mem (Finset.mem_insert_of_mem (Finset.mem_insert_self ..))
  · exact Finset.mem_insert_self ..

/-- **A run that fills an order fills another one.** -/
theorem EngineRun.filledTogether {b : OrderBook} (hb : b.InStep ∅) {triangular : Bool}
    {p : Progress} (hrun : EngineRun b triangular p) : FilledTogether p := by
  have hdirect : ∀ pairs, FilledTogether (runDirectMatching pairs (runStart b)) := fun pairs =>
    (runDirectMatching_induct (P := FilledTogether)
      (fun _ _ _ _ hs m _ => m.filledTogether hs) hb (Or.inl rfl)).2
  cases hrun with
  | direct => exact hdirect _
  | triangular _ hreach _ =>
    exact hreach.executions (runDirectMatching_advance _ hb).1 (hdirect _)
      fun _ hl _ h _ => filledTogether_executed hl h

namespace Matcher
variable {m m' : Matcher} {i : MatcherInputs} {batch : ExecutionBatch}

/-- **A batch holds at least two notes**, all different and all in the book. -/
theorem Aligned.emits (h : m.Aligned) (hm : m.Sound)
    (hstep : Step i m (.execute (some batch)) m') :
    batch.ids.Nodup ∧ 2 ≤ batch.ids.length ∧ ∀ id ∈ batch.ids, id ∈ m.book.orders := by
  have hemitted : ∀ id ∈ batch.ids, id ∈ m.book.orders := fun id hid =>
    ((hstep.footprint hm).emitted (Or.inl hid)).1
  refine ⟨hstep.executes_nodup, ?_, hemitted⟩
  cases hstep with
  | execute _ hmatch =>
    cases hmatch with
    | @sent p filledOrders _ hrun hfilled hnodup henum =>
      have htogether := hrun.filledTogether (hm.reachable.setFeed i.feed).inv.inStep
      rw [FilledTogether, ← henum, List.toFinset_card_of_nodup hnodup, henum] at htogether
      rw [h.sent_ids hm hrun henum]
      exact htogether.resolve_left hfilled

/-- **What a step does to the size of the book**: it takes out what it emits and puts in at
most what it is given. -/
theorem Footprint.card_le {e : MatcherEvent} (h : Footprint m e m') (hnodup : e.executes.Nodup) :
    m'.book.orders.keys.card + e.executes.length ≤
      m.book.orders.keys.card + e.delivers.length := by
  have hgone : Disjoint m'.book.orders.keys e.executes.toFinset := by
    rw [Finset.disjoint_left]
    intro N hN hexec
    exact h.gone (Or.inl (List.mem_toFinset.mp hexec)) (Finmap.mem_keys.mp hN)
  have hsub : m'.book.orders.keys ∪ e.executes.toFinset ⊆
      m.book.orders.keys ∪ e.delivers.toFinset := by
    intro N hN
    rw [Finset.mem_union, Finmap.mem_keys, List.mem_toFinset] at hN ⊢
    rcases hN with hN | hN
    · exact h.orders hN
    · exact Or.inl (h.emitted (Or.inl hN)).1
  calc m'.book.orders.keys.card + e.executes.length
      = (m'.book.orders.keys ∪ e.executes.toFinset).card := by
        rw [Finset.card_union_of_disjoint hgone, List.toFinset_card_of_nodup hnodup]
    _ ≤ (m.book.orders.keys ∪ e.delivers.toFinset).card := Finset.card_le_card hsub
    _ ≤ m.book.orders.keys.card + e.delivers.toFinset.card := Finset.card_union_le ..
    _ ≤ m.book.orders.keys.card + e.delivers.length :=
        Nat.add_le_add_left (List.toFinset_card_le _) _

end Matcher

/-! ### The load along a run -/

namespace Pipeline
variable {api : NoteApi Note} {p p' : Pipeline Note} {e : PipelineEvent Note}

/-- What is delivered was received from the channel or loaded at boot. -/
theorem delivers_length (Note : Type) (e : MatcherEvent) : e.delivers.length =
    e.received.length + (PipelineEvent.matcher e : PipelineEvent Note).brings := by
  cases e with
  | hydrate loaded =>
    show (loaded.map IngestOrder.noteId).length = 0 + loaded.length
    rw [List.length_map, Nat.zero_add]
  | receive _ => rfl
  | wake => rfl
  | consume _ => rfl
  | consumedEmpty => rfl
  | ordersEmpty => rfl
  | execute _ => rfl
  | route _ => rfl
  | stop => rfl

/-- **The load grows only by what is brought in.** -/
theorem Step.load_le (h : Step api p e p') (hsound : p.matcher.Sound) (halive : e ≠ .reboot) :
    p'.load ≤ p.load + e.brings := by
  cases h with
  | sync _ _ => exact Nat.le_refl _
  | report _ => exact Nat.le_refl _
  | insert _ _ => exact Nat.le_refl _
  | send _ =>
    dsimp only [load, unreturned, PipelineEvent.brings]
    rw [List.length_append, List.length_singleton]
    omega
  | finish _ => exact Nat.le_refl _
  | finishEarly _ => exact Nat.le_refl _
  | @matcher p₁ i event m' hstep hexch =>
    obtain ⟨-, -, hexecutor, ⟨sent, hexec, hsent⟩, horder⟩ := hexch.frame
    have hcard := (hstep.footprint hsound).card_le hstep.executes_nodup
    have hdelivers := delivers_length Note event
    have horders := congrArg List.length horder
    rw [List.length_append] at horders
    dsimp only [load, unreturned]
    rw [hexec, hexecutor, List.flatMap_append, List.length_append, hsent]
    omega
  | takeEmpty _ hqueued =>
    dsimp only [load, unreturned]
    rw [hqueued]
    exact Nat.le_refl _
  | @take batch rest answers hidle hqueued _ =>
    have hwithin : WithinBatch batch (executeBatch api answers batch).1 := withinBatch_executeBatch
    have hresent := hwithin.2.length_le
    dsimp only [load, unreturned, Option.elim_some]
    rw [hqueued, hidle, List.flatMap_cons, List.length_append]
    dsimp only [Option.elim_none, List.length_nil]
    omega
  | @act held action rest hbusy =>
    cases action with
    | updateStatus _ _ =>
      dsimp only [load, unreturned, perform]
      rw [hbusy]
      exact Nat.le_refl _
    | markNullified _ =>
      dsimp only [load, unreturned, perform]
      rw [hbusy]
      exact Nat.le_refl _
    | resend order =>
      have hresent : (resent (.resend order :: rest)).length = (resent rest).length + 1 := rfl
      dsimp only [load, unreturned, perform, Option.elim_some]
      rw [hbusy, List.length_append, List.length_singleton]
      dsimp only [Option.elim_some]
      omega
  | done hbusy =>
    dsimp only [load, unreturned]
    rw [hbusy]
    exact Nat.le_refl _
  | reboot _ _ _ => exact absurd rfl halive

/-- The other tasks leave the matcher alone. -/
theorem Step.matcher_eq (h : Step api p e p') (hothers : ∀ event, e ≠ .matcher event)
    (halive : e ≠ .reboot) : p'.matcher = p.matcher := by
  cases h with
  | matcher _ _ => exact absurd rfl (hothers _)
  | reboot _ _ _ => exact absurd rfl halive
  | @act held action rest _ =>
    cases action with
    | updateStatus _ _ => rfl
    | markNullified _ => rfl
    | resend _ => rfl
  | sync _ _ => rfl
  | report _ => rfl
  | insert _ _ => rfl
  | send _ => rfl
  | finish _ => rfl
  | finishEarly _ => rfl
  | takeEmpty _ _ => rfl
  | take _ _ _ _ => rfl
  | done _ => rfl

/-- The executor's channel gains at most the batch that is emitted. -/
theorem Exchanged.execCh_cases {e : MatcherEvent} (h : p.Exchanged p' e) :
    p'.execCh = p.execCh ∨
      ∃ batch, e = .execute (some batch) ∧ p'.execCh = p.execCh ++ [batch] := by
  cases e with
  | hydrate _ => exact Or.inl (by rw [h.2])
  | wake => exact Or.inl (by rw [show p' = p from h])
  | consume _ =>
    obtain ⟨rest, -, rfl⟩ := h
    exact Or.inl rfl
  | consumedEmpty => exact Or.inl (by rw [h.2])
  | receive _ =>
    obtain ⟨rest, -, rfl⟩ := h
    exact Or.inl rfl
  | ordersEmpty => exact Or.inl (by rw [h.2])
  | execute batch =>
    cases batch with
    | none => exact Or.inl (by rw [show p' = p from h])
    | some batch => exact Or.inr ⟨batch, rfl, by rw [show p' = _ from h]⟩
  | route _ => exact Or.inl (by rw [show p' = p from h])
  | stop => exact Or.inl (by rw [show p' = p from h])

/-- What holds of the pipeline in one life of the process. -/
structure Alive (p : Pipeline Note) : Prop where
  sound : p.matcher.Sound
  aligned : p.matcher.phase ≠ .stopped → p.matcher.Aligned
  batches : ∀ batch ∈ p.execCh, 2 ≤ batch.ids.length

theorem alive_boot (db : Database) (feed : PriceFeed) (triangularEnabled : Bool)
    (router : Option RouterHooks) : (boot db feed triangularEnabled router : Pipeline Note).Alive :=
  have hinv := Matcher.boundaryInv_new feed triangularEnabled router
  ⟨hinv.sound, hinv.aligned, fun _ h => absurd h List.not_mem_nil⟩

theorem Alive.step (h : p.Alive) (hstep : Step api p e p') (halive : e ≠ .reboot) : p'.Alive := by
  cases hstep with
  | sync _ _ => exact ⟨h.sound, h.aligned, h.batches⟩
  | report _ => exact ⟨h.sound, h.aligned, h.batches⟩
  | insert _ _ => exact ⟨h.sound, h.aligned, h.batches⟩
  | send _ => exact ⟨h.sound, h.aligned, h.batches⟩
  | finish _ => exact ⟨h.sound, h.aligned, h.batches⟩
  | finishEarly _ => exact ⟨h.sound, h.aligned, h.batches⟩
  | @matcher p₁ i event m' hm hexch =>
    have haligned := h.aligned hm.not_stopped
    refine ⟨(hm.footprint h.sound).sound, haligned.step h.sound hm, fun batch hbatch => ?_⟩
    rcases hexch.execCh_cases with hsame | ⟨emitted, rfl, hgained⟩
    · exact h.batches batch (hsame ▸ hbatch)
    · rcases List.mem_append.mp (hgained ▸ hbatch) with hold | hnew
      · exact h.batches batch hold
      · rw [List.mem_singleton.mp hnew]
        exact (haligned.emits h.sound hm).2.1
  | takeEmpty _ hqueued =>
    exact ⟨h.sound, h.aligned,
      fun batch hb => h.batches batch (hqueued ▸ List.mem_cons_of_mem _ hb)⟩
  | take _ _ hqueued _ =>
    exact ⟨h.sound, h.aligned,
      fun batch hb => h.batches batch (hqueued ▸ List.mem_cons_of_mem _ hb)⟩
  | @act held action rest _ =>
    cases action with
    | updateStatus _ _ => exact ⟨h.sound, h.aligned, h.batches⟩
    | markNullified _ => exact ⟨h.sound, h.aligned, h.batches⟩
    | resend _ => exact ⟨h.sound, h.aligned, h.batches⟩
  | done _ => exact ⟨h.sound, h.aligned, h.batches⟩
  | reboot _ _ _ => exact absurd rfl halive

end Pipeline

/-! ## When nobody waits for ever -/

namespace Bounded
variable {api : NoteApi Note} {cap : Capacities} {s s' : Bounded Note} {e : BoundedEvent Note}

/-- What holds in every run: the batch the matcher is sending is one its state can emit. -/
structure Inv (history : List (Bounded Note × BoundedEvent Note)) (s : Bounded Note) : Prop where
  alive : s.pipeline.Alive
  sending : ∀ {batch m'}, s.sending = some (batch, m') →
    ∃ i, Matcher.Step i s.pipeline.matcher (.execute (some batch)) m'
  load : s.pipeline.load ≤ broughtIn history

/-- **A step with bounded channels is a step of the pipeline**, or the matcher comes to send
a batch and the pipeline stays as it is. -/
theorem Step.pipeline (h : Step api cap s e s') (hsending : ∀ {batch m'},
    s.sending = some (batch, m') →
      ∃ i, Matcher.Step i s.pipeline.matcher (.execute (some batch)) m') :
    (∃ batch, e = .await batch ∧ s'.pipeline = s.pipeline) ∨
    ∃ event, e = .task event ∧ event ≠ .reboot ∧
      Pipeline.Step api s.pipeline event s'.pipeline := by
  cases h with
  | others hstep _ _ halive => exact Or.inr ⟨_, rfl, halive, hstep⟩
  | matcher _ hstep _ => exact Or.inr ⟨_, rfl, nofun, hstep⟩
  | await _ _ => exact Or.inl ⟨_, rfl, rfl⟩
  | emit hwaiting _ =>
    obtain ⟨i, hstep⟩ := hsending hwaiting
    exact Or.inr ⟨_, rfl, nofun, .matcher_emit hstep⟩

theorem broughtIn_append (history : List (Bounded Note × BoundedEvent Note)) (s : Bounded Note)
    (event : PipelineEvent Note) :
    broughtIn (history ++ [(s, .task event)]) = broughtIn history + event.brings := by
  simp [broughtIn]

theorem broughtIn_append_await (history : List (Bounded Note × BoundedEvent Note))
    (s : Bounded Note) (batch : ExecutionBatch) :
    broughtIn (history ++ [(s, .await batch)]) = broughtIn history := by
  simp [broughtIn]

theorem Inv.step {history : List (Bounded Note × BoundedEvent Note)} (h : Inv history s)
    (hstep : Step api cap s e s') : Inv (history ++ [(s, e)]) s' := by
  have hsending : ∀ {batch m'}, s'.sending = some (batch, m') →
      ∃ i, Matcher.Step i s'.pipeline.matcher (.execute (some batch)) m' := by
    intro batch m' hs'
    cases hstep with
    | others hstep _ hothers halive =>
      obtain ⟨i, hm⟩ := h.sending hs'
      exact ⟨i, (hstep.matcher_eq hothers halive).symm ▸ hm⟩
    | matcher _ _ _ => cases hs'
    | await _ hm =>
      cases hs'
      exact ⟨_, hm⟩
    | emit _ _ => cases hs'
  rcases hstep.pipeline h.sending with ⟨batch, rfl, hsame⟩ | ⟨event, rfl, halive, hp⟩
  · refine ⟨hsame ▸ h.alive, hsending, ?_⟩
    rw [hsame, broughtIn_append_await]
    exact h.load
  · refine ⟨h.alive.step hp halive, hsending, ?_⟩
    rw [broughtIn_append]
    exact (hp.load_le h.alive.sound halive).trans (Nat.add_le_add_right h.load _)

theorem two_mul_length_le {batches : List ExecutionBatch}
    (h : ∀ batch ∈ batches, 2 ≤ batch.ids.length) :
    2 * batches.length ≤ (batches.flatMap ExecutionBatch.ids).length := by
  induction batches with
  | nil => exact Nat.le_refl _
  | cons batch batches ih =>
    have hhead := h batch (List.mem_cons_self ..)
    have htail := ih fun b hb => h b (List.mem_cons_of_mem _ hb)
    rw [List.flatMap_cons, List.length_append, List.length_cons]
    omega

theorem inv_of_run {db : Database} {feed : PriceFeed} {triangularEnabled : Bool}
    {router : Option RouterHooks} {history : List (Bounded Note × BoundedEvent Note)}
    (hrun : Run (Step api cap) unguarded (boot db feed triangularEnabled router) history s) :
    Inv history s := by
  refine hrun.invariant ⟨Pipeline.alive_boot .., nofun, ?_⟩ fun hinv _ hstep => hinv.step hstep
  exact Nat.le_refl _

/-- **Two tasks that wait for each other need a load.** -/
theorem Deadlocked.load_ge {history : List (Bounded Note × BoundedEvent Note)} (h : Inv history s)
    (hdead : s.Deadlocked cap) : cap.order + 2 * cap.exec + 3 ≤ s.pipeline.load := by
  obtain ⟨⟨hsending, hexec⟩, held, order, rest, hexecutor, horder⟩ := hdead
  obtain ⟨⟨batch, m'⟩, hsome⟩ := Option.isSome_iff_exists.mp hsending
  obtain ⟨i, hm⟩ := h.sending hsome
  obtain ⟨hnodup, htwo, hmem⟩ := (h.alive.aligned hm.not_stopped).emits h.alive.sound hm
  -- the batch is still in the book
  have hbook : 2 ≤ s.pipeline.matcher.book.orders.keys.card := by
    refine htwo.trans ?_
    rw [← List.toFinset_card_of_nodup hnodup]
    refine Finset.card_le_card fun id hid => ?_
    exact Finmap.mem_keys.mpr (hmem id (List.mem_toFinset.mp hid))
  have hqueued : 2 * s.pipeline.execCh.length ≤
      (s.pipeline.execCh.flatMap ExecutionBatch.ids).length :=
    two_mul_length_le h.alive.batches
  have hunreturned : 1 ≤ s.pipeline.unreturned := by
    rw [Pipeline.unreturned, hexecutor]
    exact Nat.succ_le_succ (Nat.zero_le _)
  rw [Pipeline.load]
  omega

end Bounded

/-! ## With that load it happens

The matcher is fed pairs of crossing orders.  Each pair is a batch; the executor is busy with
the first, the channel takes `exec` more, and the matcher waits with the next.  Meanwhile the
first submit fails, and its orders and new ones of ingest meet in the channel of the matcher,
which nobody drains. -/

/-- Matches are of filled orders. -/
theorem runDirectMatching_filled_of_matched {b : OrderBook} (hb : b.InStep ∅) (pairs : List Pair)
    {xy : OrderId × OrderId} (hxy : xy ∈ (runDirectMatching pairs (runStart b)).matched) :
    (runDirectMatching pairs (runStart b)).filledOrders ≠ ∅ := by
  have hrecorded : ∀ xy ∈ (runDirectMatching pairs (runStart b)).matched,
      xy.1 ∈ (runDirectMatching pairs (runStart b)).filledOrders := by
    refine (runDirectMatching_induct (P := fun s => ∀ xy ∈ s.matched, xy.1 ∈ s.filledOrders)
      (fun _ _ s s' _ m h xy hxy => ?_) hb fun _ h => absurd h List.not_mem_nil).2
    rw [m.matched] at hxy
    rw [m.filledOrders]
    rcases List.mem_append.mp hxy with hold | hnew
    · exact Finset.mem_insert_of_mem (Finset.mem_insert_of_mem (h xy hold))
    · rw [List.mem_singleton.mp hnew]
      exact Finset.mem_insert_of_mem (Finset.mem_insert_self ..)
  exact Finset.ne_empty_of_mem (hrecorded xy hxy)

/-- A book on which two orders cross has a run that fills something. -/
theorem exists_run_of_crossing {b : OrderBook} (hb : b.InStep ∅)
    (hfresh : ∀ id o, b.orders.lookup id = some o → o.Unfilled) {p : Pair} (hlt : p.1 < p.2)
    (hpriced : b.bothPriced p.1 p.2 = true) (hcross : b.HasCrossing p) :
    ∃ s, EngineRun b false s ∧ s.filledOrders ≠ ∅ := by
  have hpairs : MatchablePairs b (collectMatchablePairs b).toList :=
    ⟨Finset.nodup_toList _, Finset.toList_toFinset _⟩
  refine ⟨_, .direct hpairs, ?_⟩
  obtain ⟨i, j, -, -, hmatched, -⟩ := matched_of_crossing hb hfresh hpairs hlt hpriced hcross
  rcases hmatched with hxy | hxy
  · exact runDirectMatching_filled_of_matched hb _ hxy
  · exact runDirectMatching_filled_of_matched hb _ hxy

/-- A run that can fill two orders only fills both or none. -/
theorem EngineRun.filled_pair {b : OrderBook} (hb : b.InStep ∅) {triangular : Bool} {p : Progress}
    (hrun : EngineRun b triangular p) (hfilled : p.filledOrders ≠ ∅) {x y : OrderId} (hne : x ≠ y)
    (honly : ∀ id ∈ p.filledOrders, id = x ∨ id = y) :
    ∀ id, id = x ∨ id = y → id ∈ p.filledOrders := by
  have hsub : p.filledOrders ⊆ {x, y} := fun id hid => by
    rw [Finset.mem_insert, Finset.mem_singleton]
    exact honly id hid
  have hcard : ({x, y} : Finset OrderId).card ≤ p.filledOrders.card := by
    rw [Finset.card_pair hne]
    exact (hrun.filledTogether hb).resolve_left hfilled
  intro id hid
  rw [Finset.eq_of_subset_of_card_le hsub hcard, Finset.mem_insert, Finset.mem_singleton]
  exact hid

namespace Matcher
variable {m : Matcher}

/-- An idle matcher without orders and without a router, which only matches directly. -/
structure Drained (m : Matcher) : Prop where
  sound : m.Sound
  aligned : m.Aligned
  idle : m.phase = .idle
  router : m.router = none
  direct : m.triangularEnabled = false
  empty : ∀ id, id ∉ m.book.orders

/-- The matcher after it was woken and found no consumed notes. -/
def woken (m : Matcher) : Matcher := { m.wake crossingInputs.nowMillis with phase := .receiving }

/-- The matcher when it comes to match, having received the two orders in this tick. -/
def withPair (m : Matcher) (x y : IngestOrder) : Matcher :=
  ((m.woken.receive crossingInputs.nowUnix x).receive crossingInputs.nowUnix y).reactivate

theorem Drained.withPair_eq (h : m.Drained) (x y : IngestOrder) : m.withPair x y =
    { (m.woken.receive crossingInputs.nowUnix x).receive crossingInputs.nowUnix y with
      phase := .matching } :=
  reactivate_of_none h.router

theorem Drained.withPair_aligned (h : m.Drained) (x y : IngestOrder) :
    (m.withPair x y).Sound ∧ (m.withPair x y).Aligned := by
  have h₁ : Step crossingInputs m .wake (m.wake crossingInputs.nowMillis) := .wake h.idle
  have h₂ : Step crossingInputs _ .consumedEmpty m.woken := .consumedEmpty rfl
  have h₃ : Step crossingInputs m.woken (.receive x) _ := .receive x rfl
  have h₄ := Step.receive (i := crossingInputs) (m := m.woken.receive crossingInputs.nowUnix x) y
    rfl
  have h₅ : Step crossingInputs _ .ordersEmpty (m.withPair x y) := .ordersEmpty rfl
  have hs₁ := (h₁.footprint h.sound).sound
  have hs₂ := (h₂.footprint hs₁).sound
  have hs₃ := (h₃.footprint hs₂).sound
  have hs₄ := (h₄.footprint hs₃).sound
  have ha₁ := h.aligned.step h.sound h₁ nofun
  have ha₂ := ha₁.step hs₁ h₂ nofun
  have ha₃ := ha₂.step hs₂ h₃ nofun
  have ha₄ := ha₃.step hs₃ h₄ nofun
  exact ⟨(h₅.footprint hs₄).sound, ha₄.reactivate⟩

/-- The two orders are all there is in the book, and they cross. -/
theorem Drained.withPair_book (h : m.Drained) {x y : IngestOrder} (hx : x.terms = crossingTerms 1)
    (hy : y.terms = crossingTerms 2) (hne : x.noteId ≠ y.noteId) :
    (∀ id, id ∈ (m.withPair x y).book.orders ↔ id = x.noteId ∨ id = y.noteId) ∧
    (m.withPair x y).book.HasCrossing (1, 2) := by
  have hbook : (m.withPair x y).book =
      (m.book.addUserOrder x.noteId (crossingTerms 1)).addUserOrder y.noteId (crossingTerms 2) := by
    rw [h.withPair_eq, ← hx, ← hy]
    rfl
  have hb := h.sound.reachable.inv.inStep
  have hmem : ∀ id, id ∈ (m.book.addUserOrder x.noteId (crossingTerms 1)).orders ↔
      id = x.noteId := by
    intro id
    rw [OrderBook.mem_orders_addUserOrder]
    exact or_iff_left (h.empty id)
  have hnewY : y.noteId ∉ (m.book.addUserOrder x.noteId (crossingTerms 1)).orders := by
    rw [hmem]
    exact hne.symm
  have hpairX : (Order.fresh x.noteId (crossingTerms 1)).pair = (1, 2) := rfl
  have hpairY : (Order.fresh y.noteId (crossingTerms 2)).pair = (2, 1) := rfl
  obtain ⟨hstep₁, -, hlookupX, -, hqueue₁⟩ := hb.placed (h.empty x.noteId) (crossingTerms 1)
  obtain ⟨hstep₂, -, hlookupY, hother, hqueue₂⟩ := hstep₁.placed hnewY (crossingTerms 2)
  rw [hbook]
  refine ⟨fun id => ?_, x.noteId, y.noteId, Order.fresh x.noteId (crossingTerms 1),
    Order.fresh y.noteId (crossingTerms 2), hstep₂.sees_iff.mpr ⟨?_, ?_⟩,
    hstep₂.sees_iff.mpr ⟨?_, hlookupY⟩, ?_⟩
  · rw [OrderBook.mem_orders_addUserOrder, hmem]
    exact or_comm
  · rw [hqueue₂, hpairY, if_neg (by decide), hqueue₁, hpairX, if_pos rfl]
    exact StableQueue.mem_enqueue.mpr (Or.inl rfl)
  · rw [hother x.noteId hne, hlookupX]
  · rw [hqueue₂, hpairY, if_pos (Prod.swap_prod_mk ..)]
    exact StableQueue.mem_enqueue.mpr (Or.inl rfl)
  · show 5 * 7 < 10 * 6
    decide

theorem dropNotes_triangularEnabled (ids : List OrderId) (m : Matcher) :
    (ids.foldl dropNote m).triangularEnabled = m.triangularEnabled := by
  induction ids generalizing m with
  | nil => rfl
  | cons id ids ih => exact ih _

/-- The matcher drops notes until none of its orders is left. -/
theorem dropNotes_empty {ids : List OrderId} {m : Matcher} (h : ∀ id ∈ m.book.orders, id ∈ ids)
    (id : OrderId) : id ∉ (ids.foldl dropNote m).book.orders := by
  intro hid
  rw [← Finmap.lookup_isSome, dropNotes_orders] at hid
  split at hid
  · cases hid
  · rename_i hkept
    exact hkept (h id (Finmap.lookup_isSome.mp hid))

/-- **Two crossing orders are filled together**, and nothing is left. -/
theorem Drained.emits_pair (h : m.Drained) {x y : IngestOrder} (hx : x.terms = crossingTerms 1)
    (hy : y.terms = crossingTerms 2) (hne : x.noteId ≠ y.noteId) :
    ∃ batch m', Step crossingInputs (m.withPair x y) (.execute (some batch)) m' ∧
      m'.phase = .routing ∧ ({ m' with phase := .idle } : Matcher).Drained := by
  obtain ⟨hsound, haligned⟩ := h.withPair_aligned x y
  obtain ⟨hmem, hcross⟩ := h.withPair_book hx hy hne
  have hphase : (m.withPair x y).phase = .matching := by rw [h.withPair_eq]
  have hdirect : (m.withPair x y).triangularEnabled = false := by
    rw [h.withPair_eq]
    exact h.direct
  have hrouter : (m.withPair x y).router = none := by
    rw [h.withPair_eq]
    exact h.router
  generalize m.withPair x y = m₁ at *
  have hstep := (hsound.reachable.setFeed crossingInputs.feed).inv.inStep
  obtain ⟨p, hrun, hfilled⟩ := exists_run_of_crossing hstep (fun _ _ ho => haligned.unfilled ho)
    (p := (1, 2)) (by decide) rfl hcross
  rw [← hdirect] at hrun
  have hnonempty : m₁.book.orders.keys ≠ ∅ :=
    Finset.ne_empty_of_mem (Finmap.mem_keys.mpr ((hmem x.noteId).mpr (Or.inl rfl)))
  have hexec : Step crossingInputs m₁ (.execute (some _)) _ := .execute hphase
    (.sent hnonempty hrun hfilled (Finset.nodup_toList _) (Finset.toList_toFinset _))
  -- the run fills both orders, so that both are dropped
  obtain ⟨-, horders, -, -, hvisible⟩ := run_spec hsound hrun
  have hboth := hrun.filled_pair hstep hfilled hne fun id hid => (hmem id).mp (hvisible hid).1
  have hdropped : ∀ id ∈ p.book.orders, id ∈ p.filledOrders.toList := fun id hid =>
    Finset.mem_toList.mpr (hboth id ((hmem id).mp (horders.mp hid)))
  have hfoot := hexec.footprint hsound
  refine ⟨_, _, hexec, rfl, ⟨hfoot.sound.reachable, hfoot.sound.queue_le⟩, ?_, rfl, ?_, ?_,
    dropNotes_empty (m := { m₁ with book := p.book }) hdropped⟩
  · exact (haligned.step hsound hexec nofun).of_eq (.refl _) rfl rfl
  · refine Option.eq_none_iff_forall_ne_some.mpr fun r hr => ?_
    cases hrouter.symm.trans (hfoot.router hr)
  · exact (dropNotes_triangularEnabled _ _).trans hdirect

end Matcher

/-- `n` pairs of crossing orders, numbered from `start`. -/
def crossingPairs (start : OrderId) : Nat → List IngestOrder
  | 0 => []
  | n + 1 => ⟨start, crossingTerms 1, [1]⟩ :: ⟨start + 1, crossingTerms 2, [2]⟩ ::
      crossingPairs (start + 2) n

namespace Bounded
variable {api : NoteApi Note} {cap : Capacities} {s : Bounded Note} {result : SyncResult Note}

theorem broughtIn_append_history (history history' : List (Bounded Note × BoundedEvent Note)) :
    broughtIn (history ++ history') = broughtIn history + broughtIn history' := by
  rw [broughtIn, List.map_append, List.sum_append]
  rfl

/-- The matcher is drained, has nothing to send, and its channels are empty. -/
structure Ready (s : Bounded Note) : Prop where
  drained : s.pipeline.matcher.Drained
  free : s.sending = none
  consumed : s.pipeline.consumedCh = []
  orders : s.pipeline.orderCh = []

/-- The matcher is about to send a batch, after which it is drained; its channels are empty. -/
structure Waiting (s : Bounded Note) (batch : ExecutionBatch) (m' : Matcher) : Prop where
  sending : s.sending = some (batch, m')
  phase : m'.phase = .routing
  drained : ({ m' with phase := .idle } : Matcher).Drained
  consumed : s.pipeline.consumedCh = []
  orders : s.pipeline.orderCh = []

/-- What the other tasks have in hands: the orders ingest has still to send, how many batches
wait for the executor, and what it is doing. -/
structure Holds (s : Bounded Note) (result : SyncResult Note) (unsent : List IngestOrder)
    (batches : Nat) (task : Option ExecutorTask) : Prop where
  ingest : s.pipeline.ingest = .sending result unsent
  execCh : s.pipeline.execCh.length = batches
  executor : s.pipeline.executor = task

/-- A step of the matcher that leaves the channels alone. -/
theorem Step.matcher_alone {i : MatcherInputs} {e : MatcherEvent} {m' : Matcher}
    (hfree : s.sending = none) (h : Matcher.Step i s.pipeline.matcher e m')
    (hexch : s.pipeline.Exchanged s.pipeline e) (hsilent : ∀ batch, e ≠ .execute (some batch)) :
    Step api cap s (.task (.matcher e)) ⟨{ s.pipeline with matcher := m' }, none⟩ :=
  .matcher hfree (.matcher_alone h hexch) hsilent

theorem Step.matcher_receive {i : MatcherInputs} {order : IngestOrder} {m' : Matcher}
    (hfree : s.sending = none) (h : Matcher.Step i s.pipeline.matcher (.receive order) m')
    (hch : s.pipeline.orderCh = [order]) :
    Step api cap s (.task (.matcher (.receive order)))
      ⟨{ s.pipeline with matcher := m', orderCh := [] }, none⟩ :=
  .matcher hfree (.matcher_receive h hch) nofun

/-- Ingest sends an order, if there is room. -/
theorem Step.send {order : IngestOrder} {rest : List IngestOrder}
    (hingest : s.pipeline.ingest = .sending result (order :: rest))
    (hroom : s.pipeline.orderCh.length < cap.order) :
    Step api cap s (.task (.send order))
      ⟨{ s.pipeline with
          orderCh := s.pipeline.orderCh ++ [order]
          ingest := .sending result rest }, s.sending⟩ :=
  .others (.send hingest) hroom nofun nofun

variable (api cap) {batches : Nat} {task : Option ExecutorTask} {rest : List IngestOrder}

/-- **A tick with two crossing orders**: ingest sends them, the matcher receives them and comes
to send their batch. -/
theorem Ready.tick (h : s.Ready) {x y : IngestOrder}
    (hs : s.Holds result (x :: y :: rest) batches task) (hx : x.terms = crossingTerms 1)
    (hy : y.terms = crossingTerms 2) (hne : x.noteId ≠ y.noteId) :
    ∃ history s' batch m', Run (Step api cap) unguarded s history s' ∧ s'.Waiting batch m' ∧
      s'.Holds result rest batches task ∧ broughtIn history = 2 := by
  obtain ⟨batch, m', hexec, hphase, hdrained⟩ := h.drained.emits_pair hx hy hne
  have hroom : s.pipeline.orderCh.length < cap.order := by
    rw [h.orders]
    exact cap.order_pos
  have hfirst : s.pipeline.orderCh ++ [x] = [x] := by
    rw [h.orders]
    rfl
  have h₁ : Run (Step api cap) unguarded s _ _ := Run.single
    (.matcher_alone (i := crossingInputs) h.free (.wake h.drained.idle) rfl nofun)
  have h₂ := h₁.step trivial
    (.matcher_alone (i := crossingInputs) rfl (.consumedEmpty rfl) ⟨h.consumed, rfl⟩ nofun)
  have h₃ := h₂.step trivial (.send hs.ingest hroom)
  have h₄ := h₃.step trivial
    (.matcher_receive (i := crossingInputs) rfl (.receive x rfl) hfirst)
  have h₅ := h₄.step trivial (.send rfl cap.order_pos)
  have h₆ := h₅.step trivial (.matcher_receive (i := crossingInputs) rfl (.receive y rfl) rfl)
  have h₇ := h₆.step trivial
    (.matcher_alone (i := crossingInputs) rfl (.ordersEmpty rfl) ⟨rfl, rfl⟩ nofun)
  have h₈ := h₇.step trivial (.await rfl hexec)
  exact ⟨_, _, batch, m', h₈, ⟨rfl, hphase, hdrained, h.consumed, rfl⟩,
    ⟨rfl, hs.execCh, hs.executor⟩, rfl⟩

/-- The batch is sent, and the tick ends. -/
theorem Waiting.send {batch : ExecutionBatch} {m' : Matcher} (h : s.Waiting batch m')
    (hs : s.Holds result rest batches task) (hroom : batches < cap.exec) :
    ∃ history s', Run (Step api cap) unguarded s history s' ∧ s'.Ready ∧
      s'.Holds result rest (batches + 1) task ∧ broughtIn history = 0 := by
  have hroom : s.pipeline.execCh.length < cap.exec := hs.execCh ▸ hroom
  have h₁ : Run (Step api cap) unguarded s _ _ := Run.single (.emit h.sending hroom)
  have h₂ := h₁.step trivial (.matcher_alone (i := crossingInputs) rfl
    (.noRouter h.phase h.drained.router) rfl nofun)
  refine ⟨_, _, h₂, ⟨h.drained, rfl, h.consumed, h.orders⟩, ⟨hs.ingest, ?_, hs.executor⟩, rfl⟩
  show (s.pipeline.execCh ++ [batch]).length = batches + 1
  rw [List.length_append, hs.execCh, List.length_singleton]

/-- **The channel of the executor fills up**, a batch a tick. -/
theorem Ready.ticks (n : Nat) (start : OrderId) (h : s.Ready)
    (hs : s.Holds result (crossingPairs start n ++ rest) batches task)
    (hroom : batches + n ≤ cap.exec) :
    ∃ history s', Run (Step api cap) unguarded s history s' ∧ s'.Ready ∧
      s'.Holds result rest (batches + n) task ∧ broughtIn history = 2 * n := by
  induction n generalizing start s batches with
  | zero => exact ⟨[], s, .start, h, hs, rfl⟩
  | succ n ih =>
    obtain ⟨history₁, s₁, batch, m', h₁, hwaiting, hs₁, hcount₁⟩ :=
      h.tick api cap hs rfl rfl (Nat.ne_of_lt (Nat.lt_succ_self _))
    obtain ⟨history₂, s₂, h₂, hready, hs₂, hcount₂⟩ := hwaiting.send api cap hs₁ (by omega)
    obtain ⟨history₃, s₃, h₃, hready₃, hs₃, hcount₃⟩ := ih (start + 2) hready hs₂ (by omega)
    refine ⟨_, s₃, (h₁.append h₂).append h₃, hready₃, ?_, ?_⟩
    · rwa [Nat.add_assoc, Nat.add_comm 1] at hs₃
    · rw [broughtIn_append_history, broughtIn_append_history]
      omega

/-- **The channel of the matcher fills up**, while the matcher waits. -/
theorem send_orders {orders : List IngestOrder}
    (hs : s.Holds result (orders ++ rest) batches task)
    (hroom : s.pipeline.orderCh.length + orders.length ≤ cap.order) :
    ∃ history s', Run (Step api cap) unguarded s history s' ∧ s'.sending = s.sending ∧
      s'.pipeline.orderCh.length = s.pipeline.orderCh.length + orders.length ∧
      s'.Holds result rest batches task ∧ broughtIn history = orders.length := by
  induction orders generalizing s with
  | nil => exact ⟨[], s, .start, rfl, rfl, hs, rfl⟩
  | cons order orders ih =>
    rw [List.length_cons] at hroom
    have h₁ : Run (Step api cap) unguarded s _ _ := Run.single (.send hs.ingest (by omega))
    have hlength : (s.pipeline.orderCh ++ [order]).length = s.pipeline.orderCh.length + 1 := by
      rw [List.length_append, List.length_singleton]
    have hs₁ : Holds (⟨{ s.pipeline with
        orderCh := s.pipeline.orderCh ++ [order]
        ingest := .sending result (orders ++ rest) }, s.sending⟩ : Bounded Note)
        result (orders ++ rest) batches task := ⟨rfl, hs.execCh, hs.executor⟩
    obtain ⟨history, s', h₂, hsending, horders, hs', hcount⟩ := ih hs₁ (by
      dsimp only
      omega)
    refine ⟨_, s', h₁.append h₂, hsending, ?_, hs', ?_⟩
    · rw [horders, List.length_cons]
      dsimp only
      omega
    · rw [broughtIn_append_history, hcount, List.length_cons, Nat.add_comm]
      rfl

end Bounded

/-! ### The run into the deadlock -/

/-- The note of an order, as a sync finds it. -/
def noteOf (order : IngestOrder) : NewNote OrderTerms :=
  ⟨order.noteId, order.terms, true, order.rawNoteData⟩

theorem ingestOrders_noteOf (orders : List IngestOrder) :
    ingestOrders exactApi (orders.map noteOf) = orders := by
  unfold ingestOrders
  rw [List.filterMap_map]
  refine (List.filterMap_congr fun order _ => ?_).trans (List.filterMap_some ..)
  show (orderFromNote exactApi order.terms).map _ = some order
  rw [exactApi_orderFromNote]
  rfl

theorem crossingPairs_succ (start n : Nat) : crossingPairs start (n + 1) =
    crossingPairs start n ++ crossingPairs (start + 2 * n) 1 := by
  induction n generalizing start with
  | zero => rfl
  | succ n ih =>
    rw [crossingPairs, ih, show start + 2 + 2 * n = start + 2 * (n + 1) by omega]
    rfl

theorem le_crossingPairs (start n : Nat) :
    ∀ order ∈ crossingPairs start n, start ≤ order.noteId := by
  induction n generalizing start with
  | zero => exact fun _ h => absurd h List.not_mem_nil
  | succ n ih =>
    intro order horder
    rcases List.mem_cons.mp horder with rfl | horder
    · exact Nat.le_refl _
    rcases List.mem_cons.mp horder with rfl | horder
    · exact Nat.le_succ _
    · have := ih (start + 2) order horder
      omega

/-- `n` orders that find no counterpart, numbered from `start`. -/
def loneOrders (start : OrderId) (n : Nat) : List IngestOrder :=
  (List.range' start n).map fun id => ⟨id, crossingTerms 1, [1]⟩

/-- What ingest finds after boot: a pair of orders for each batch that the channel takes and
for the one the matcher waits with, and orders that fill the channel of the matcher. -/
def backlog (cap : Capacities) : List IngestOrder :=
  crossingPairs 3 (cap.exec + 1) ++ loneOrders (2 * cap.exec + 5) (cap.order - 1)

theorem three_le_backlog (cap : Capacities) : ∀ order ∈ backlog cap, 3 ≤ order.noteId := by
  intro order horder
  rcases List.mem_append.mp horder with hpair | hlone
  · exact le_crossingPairs 3 _ order hpair
  · obtain ⟨id, hid, rfl⟩ := List.mem_map.mp hlone
    exact Nat.le_trans (by omega : 3 ≤ 2 * cap.exec + 5) (List.mem_range'_1.mp hid).1

/-- The executor with the first batch, whose submit will fail. -/
def failingTask : ExecutorTask :=
  ⟨crossingBatch.ids, (executeBatch exactApi (uncheckable (.rpcError false)) crossingBatch).1⟩

theorem failingTask_pending : failingTask.pending =
    [.updateStatus [1, 2] .settling, .updateStatus [1, 2] .active,
      .resend ⟨1, crossingTerms 1, [1]⟩, .resend ⟨2, crossingTerms 2, [2]⟩] := by
  decide

theorem failingTask_eq : failingTask = ⟨crossingBatch.ids,
    [.updateStatus [1, 2] .settling, .updateStatus [1, 2] .active,
      .resend ⟨1, crossingTerms 1, [1]⟩, .resend ⟨2, crossingTerms 2, [2]⟩]⟩ := by
  rw [← failingTask_pending]
  rfl

/-- The rows when ingest inserts: those of boot, with nothing marked. -/
theorem activeRows_le_two {id : OrderId}
    (hid : id ∈ (activeRows.resetAllSettlingToActive.markOrdersOnchainNullified []).orders) :
    id ≤ 2 := by
  have hid := Database.mem_updateWhere.mp (Database.mem_updateWhere.mp hid)
  rw [show activeRows.orders = Finmap.insert 2 ⟨crossingTerms 2, .active⟩
    (Finmap.insert 1 ⟨crossingTerms 1, .active⟩ ∅) from rfl, Finmap.mem_insert,
    Finmap.mem_insert] at hid
  rcases hid with rfl | rfl | hid
  · exact Nat.le_refl _
  · decide
  · exact absurd hid Finmap.notMem_empty

/-- The first batch is with the executor, and ingest has the backlog to send. -/
theorem reaches_backlog (cap : Capacities) :
    ∃ history, ∃ s : Bounded OrderTerms, Run (Bounded.Step exactApi cap) unguarded
      (Bounded.boot activeRows crossingInputs.feed false none) history s ∧ s.Ready ∧
      s.Holds ⟨0, (backlog cap).map noteOf, []⟩ (backlog cap) 0 (some failingTask) ∧
      broughtIn history = 2 := by
  have hloads : activeRows.resetAllSettlingToActive.LoadsActive loadedCrossing :=
    loadsActive_crossing (by decide) rfl
  have h₁ : Run (Bounded.Step exactApi cap) unguarded
      (Bounded.boot activeRows crossingInputs.feed false none) _ _ := Run.single
    (.matcher_alone (i := crossingInputs) rfl (.hydrate loadedCrossing rfl) ⟨Or.inl hloads, rfl⟩
      nofun)
  have h₂ := h₁.step trivial (.matcher_alone (i := crossingInputs) rfl (.wake rfl) rfl nofun)
  have h₃ := h₂.step trivial
    (.matcher_alone (i := crossingInputs) rfl (.consumedEmpty rfl) ⟨rfl, rfl⟩ nofun)
  have h₄ := h₃.step trivial
    (.matcher_alone (i := crossingInputs) rfl (.ordersEmpty rfl) ⟨rfl, rfl⟩ nofun)
  have hexec : Matcher.Step crossingInputs ready (.execute (some crossingBatch)) emptied :=
    .execute rfl (.sent (by decide) crossingRun_run (by decide) (by decide) (by decide))
  have h₅ := h₄.step trivial (.await rfl hexec)
  have h₆ := h₅.step trivial (.emit rfl cap.exec_pos)
  have h₇ := h₆.step trivial
    (.matcher_alone (i := crossingInputs) rfl (.noRouter rfl rfl) rfl nofun)
  have h₈ := h₇.step trivial
    (.others (.take (uncheckable (.rpcError false)) rfl rfl (by decide)) trivial nofun nofun)
  have h₉ := h₈.step trivial
    (.others (.sync ⟨0, (backlog cap).map noteOf, []⟩ rfl) trivial nofun nofun)
  have h₁₀ := h₉.step trivial (.others (.insert rfl (by
    rw [ingestOrders_noteOf]
    exact List.cons_ne_nil _ _)) trivial nofun nofun)
  have halive := (Bounded.inv_of_run h₁₀).alive
  have hempty : emptied.book.orders.keys = ∅ := by decide
  refine ⟨_, _, h₁₀, ⟨⟨halive.sound, halive.aligned nofun, rfl, rfl, rfl, fun id hid => ?_⟩, rfl,
    rfl, rfl⟩, ⟨?_, rfl, rfl⟩, rfl⟩
  · have hmem : id ∈ emptied.book.orders.keys := Finmap.mem_keys.mpr hid
    rw [hempty] at hmem
    exact absurd hmem (Finset.notMem_empty id)
  · refine congrArg (Ingest.sending _) ?_
    rw [ingestOrders_noteOf]
    refine List.filter_eq_self.mpr fun order horder => decide_eq_true ?_
    refine ((Database.insertOrders_spec _ _).1 order.noteId).mpr
      ⟨List.mem_map_of_mem horder, fun hrow => ?_⟩
    exact Nat.not_lt.mpr (activeRows_le_two hrow) (three_le_backlog cap order horder)

/-- The submit of the first batch fails while the matcher waits, and the executor comes to
re-send the second of its orders. -/
theorem Bounded.Waiting.refeed (cap : Capacities) {s : Bounded OrderTerms} {batch : ExecutionBatch}
    {m' : Matcher} (h : s.Waiting batch m') {result : SyncResult OrderTerms}
    {rest : List IngestOrder} {batches : Nat}
    (hs : s.Holds result rest batches (some failingTask)) :
    ∃ history s' held, Run (Step exactApi cap) unguarded s history s' ∧ s'.sending.isSome ∧
      s'.pipeline.orderCh.length = 1 ∧
      s'.Holds result rest batches (some ⟨held, [.resend ⟨2, crossingTerms 2, [2]⟩]⟩) ∧
      broughtIn history = 0 := by
  have hbusy := hs.executor
  rw [failingTask_eq] at hbusy
  have hroom : s.pipeline.orderCh.length < cap.order := by
    rw [h.orders]
    exact cap.order_pos
  have h₁ : Run (Step exactApi cap) unguarded s _ _ :=
    Run.single (.others (.act hbusy) trivial nofun nofun)
  have h₂ := h₁.step trivial (.others (.act rfl) trivial nofun nofun)
  have h₃ := h₂.step trivial (.others (.act rfl) hroom nofun nofun)
  refine ⟨_, _, _, h₃, ?_, ?_, ⟨hs.ingest, hs.execCh, rfl⟩, rfl⟩
  · show s.sending.isSome = true
    rw [h.sending]
    rfl
  · show (s.pipeline.orderCh ++ [_]).length = 1
    rw [h.orders]
    rfl

/-- **The deadlock is reached, whatever the capacities**, with `order + 2 * exec + 3` orders. -/
theorem deadlock_reachable (cap : Capacities) :
    ∃ history, ∃ s : Bounded OrderTerms, Run (Bounded.Step exactApi cap) unguarded
      (Bounded.boot activeRows crossingInputs.feed false none) history s ∧ s.Deadlocked cap ∧
      broughtIn history = cap.order + 2 * cap.exec + 3 := by
  obtain ⟨history₁, s₁, h₁, hready₁, hs₁, hcount₁⟩ := reaches_backlog cap
  -- `exec` batches fill the channel of the executor, and the matcher waits with one more
  rw [backlog, crossingPairs_succ, List.append_assoc] at hs₁
  obtain ⟨history₂, s₂, h₂, hready₂, hs₂, hcount₂⟩ :=
    hready₁.ticks exactApi cap cap.exec 3 hs₁ (Nat.zero_add _).le
  obtain ⟨history₃, s₃, batch, m', h₃, hwaiting, hs₃, hcount₃⟩ :=
    hready₂.tick exactApi cap hs₂ rfl rfl (Nat.ne_of_lt (Nat.lt_succ_self _))
  -- the submit of the first batch fails, and its first order is back
  obtain ⟨history₄, s₄, held, h₄, hsome, hlength, hs₄, hcount₄⟩ := hwaiting.refeed cap hs₃
  -- ingest fills the channel of the matcher before the second order is back
  have hpos := cap.order_pos
  have hlone : (loneOrders (2 * cap.exec + 5) (cap.order - 1)).length = cap.order - 1 := by
    rw [loneOrders, List.length_map, List.length_range']
  have hs₄ : s₄.Holds _ (loneOrders (2 * cap.exec + 5) (cap.order - 1) ++ []) _ _ :=
    (List.append_nil (loneOrders _ _)).symm ▸ hs₄
  obtain ⟨history₅, s₅, h₅, hsending, horders, hs₅, hcount₅⟩ :=
    Bounded.send_orders exactApi cap hs₄ (by omega)
  refine ⟨_, s₅, (((h₁.append h₂).append h₃).append h₄).append h₅, ⟨⟨?_, ?_⟩, _, _, _,
    hs₅.executor, ?_⟩, ?_⟩
  · rw [hsending]
    exact hsome
  · rw [hs₅.execCh]
    exact (Nat.zero_add _).ge
  · omega
  · rw [Bounded.broughtIn_append_history, Bounded.broughtIn_append_history,
      Bounded.broughtIn_append_history, Bounded.broughtIn_append_history]
    omega

/-! ## The condition -/

/-- **The matcher and the executor wait for each other only under load.**  Whatever the
capacities, the syncs, the engine's runs and the outcomes of the submits: the load is at most
what was loaded at boot and sent by ingest, and as long as it is at most
`order + 2 * exec + 2`, it does not happen that the matcher waits to send a batch while the
executor waits to re-send an order. -/
theorem no_deadlock_below_load (api : NoteApi Note) (cap : Capacities) (db : Database)
    (feed : PriceFeed) (triangularEnabled : Bool) (router : Option RouterHooks)
    {history : List (Bounded Note × BoundedEvent Note)} {s : Bounded Note}
    (hrun : Run (Bounded.Step api cap) unguarded (Bounded.boot db feed triangularEnabled router)
      history s) :
    s.pipeline.load ≤ broughtIn history ∧
    (s.pipeline.load ≤ cap.order + 2 * cap.exec + 2 → ¬ s.Deadlocked cap) := by
  have hinv := Bounded.inv_of_run hrun
  refine ⟨hinv.load, fun hload hdead => ?_⟩
  have := hdead.load_ge hinv
  omega

/-- At the capacities of the solver, the load is 2 when ingest comes to send its backlog. -/
theorem no_deadlock_at_backlog :
    ∃ history, ∃ s : Bounded OrderTerms, Run (Bounded.Step exactApi createChannels) unguarded
      (Bounded.boot activeRows crossingInputs.feed false none) history s ∧
      s.pipeline.load ≤ 2 ∧ ¬ s.Deadlocked createChannels := by
  obtain ⟨history, s, hrun, -, -, hcount⟩ := reaches_backlog createChannels
  obtain ⟨hload, hfree⟩ := no_deadlock_below_load exactApi createChannels activeRows
    crossingInputs.feed false none hrun
  rw [hcount] at hload
  refine ⟨history, s, hrun, hload, hfree (hload.trans ?_)⟩
  exact Nat.le_add_left _ _

/-- **The solver can deadlock**: at its own capacities, with 15003 orders. -/
theorem solver_deadlocks :
    ∃ history, ∃ s : Bounded OrderTerms, Run (Bounded.Step exactApi createChannels) unguarded
      (Bounded.boot activeRows crossingInputs.feed false none) history s ∧
      s.Deadlocked createChannels ∧ broughtIn history = 15003 :=
  deadlock_reachable createChannels

end PswapSolver
