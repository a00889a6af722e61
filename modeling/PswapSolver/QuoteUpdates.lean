import PswapSolver.Router

/-! # No quote update is lost

The router publishes a snapshot of its quotes after every change of them.  It computes
the snapshot with the quotes locked and sends it after the lock is released, so two
calls can send in the opposite order, and then the newer snapshot is lost: the matcher
sees the older one until the next change (`late_send_hides_quote`).

When snapshots are sent in the order they were computed, the snapshot published when all
calls have returned is that of the current quotes (`quote_updates_published`).
-/
namespace PswapSolver
open Publication Runs

/-- The quotes published under a pair. -/
def RouterState.publishedFor (s : RouterState) (pair : Pair) : List Quote :=
  (s.published.lookup pair).getD []

/-- **The condition on a step**: a snapshot is sent only when it is the oldest of those
computed and not yet sent. -/
def SendsInOrder : Guard RouterState RouterEvent := fun _ s e =>
  ∀ c, e = .publish (.send c) → s.board.Next c

/-- A quote that a delivery used up. -/
def UsedUp (history : List (RouterState × RouterEvent)) (q : Quote) : Prop :=
  ∃ x ∈ history, ∃ task batch, x.2 = .consume task batch ∧
    ∃ item ∈ batch.items, quoteAt x.1.quotes item.dex item.pair = some q

/-- **What is published is current**: it is a snapshot of the quotes, lists exactly the stored
quotes under their pairs, none of a DEX that is gone and none that was used up. -/
structure Current (history : List (RouterState × RouterEvent)) (s : RouterState) : Prop where
  computed : SnapshotOf s.quotes s.published
  listed : ∀ pair q, q ∈ s.publishedFor pair ↔ quoteAt s.quotes q.dex pair = some q
  connected : ∀ pair, ∀ q ∈ s.publishedFor pair, q.dex ∈ s.conns
  unused : ∀ pair, ∀ q ∈ s.publishedFor pair, ¬ UsedUp history q

/-! ## The invariant -/

/-- The quotes are in order, the latest snapshot is current unless somebody has to compute
one, and used quotes are gone. -/
structure UpdateInv (history : List (RouterState × RouterEvent)) (s : RouterState) : Prop where
  inv : s.Inv
  upToDate : s.board.UpToDate SnapshotOf
  gone : ∀ q, UsedUp history q →
    q.serial < s.nextSerial ∧ ∀ dex pair, quoteAt s.quotes dex pair ≠ some q

theorem updateInv_new : UpdateInv [] RouterState.new where
  inv := RouterState.inv_new
  upToDate := fun _ => ⟨[], ⟨List.nodup_nil, fun k q => by simp [RouterState.new]⟩, rfl⟩
  gone := by
    rintro q ⟨x, hx, -⟩
    cases hx

section Step
variable {quoteTtlMs : Nat} {s s' : RouterState} {e : RouterEvent}
  {history : List (RouterState × RouterEvent)}

/-- A change of the quotes makes its caller owe a snapshot. -/
theorem upToDate_step (h : s.board.UpToDate SnapshotOf)
    (hnext : ∀ c, e = .publish (.send c) → s.board.Next c)
    (hstep : RouterState.Step quoteTtlMs s e s') : s'.board.UpToDate SnapshotOf := by
  cases hstep with
  | connect => exact h
  | register _ _ _ => exact .change _ _
  | reject _ _ _ => exact h
  | deliver _ _ => exact h
  | consume _ _ => exact .change _ _
  | consumeNone _ consumed =>
    -- nothing was removed, so there is nothing to publish
    rw [useQuotes_eq_of_false consumed]
    exact h
  | disconnect _ _ => exact h
  | forget _ => exact .change _ _
  | publish step => exact h.step (fun c hc => hnext c (congrArg _ hc)) step

/-- A used quote leaves the quotes in the step that uses it. -/
theorem not_quoteAt_of_consume {task : Nat} {batch : RouteBatch} {item : RoutedNote} {q : Quote}
    (hinv : s.Inv) (hitem : item ∈ batch.items)
    (hq : quoteAt s.quotes item.dex item.pair = some q)
    (hstep : RouterState.Step quoteTtlMs s (.consume task batch) s') (dex : DexId) (pair : Pair) :
    quoteAt s'.quotes dex pair ≠ some q := by
  intro hc
  rw [hstep.quoteAt_consume] at hc
  split at hc
  · cases hc
  · rename_i hnone
    obtain ⟨hd, hp, -⟩ := hinv.stored hq
    obtain ⟨hd', hp', -⟩ := hinv.stored hc
    exact hnone ⟨item, hitem, hd' ▸ hd, hp' ▸ hp⟩

/-- **One step of a run that sends in order.** -/
theorem UpdateInv.step (h : UpdateInv history s) (hguard : SendsInOrder history s e)
    (hstep : RouterState.Step quoteTtlMs s e s') : UpdateInv (history ++ [(s, e)]) s' where
  inv := h.inv.step hstep
  upToDate := upToDate_step h.upToDate hguard hstep
  gone := by
    rintro q ⟨x, hx, task, batch, he, item, hitem, hq⟩
    rcases List.mem_append.mp hx with hx | hx
    · obtain ⟨hserial, hgone⟩ := h.gone q ⟨x, hx, task, batch, he, item, hitem, hq⟩
      refine ⟨hserial.trans_le hstep.nextSerial.1, fun dex pair hc => ?_⟩
      rcases hstep.quoteAt_origin hc with hold | ⟨hreg, -⟩
      · exact hgone dex pair hold
      · -- a new quote has a new serial
        exact absurd (hstep.nextSerial.2 q hreg).1 (Nat.ne_of_lt hserial)
    · rw [List.mem_singleton.mp hx] at he hq
      dsimp only at he hq
      exact ⟨(h.inv.stored hq).2.2.trans_le hstep.nextSerial.1,
        not_quoteAt_of_consume h.inv hitem hq (he ▸ hstep)⟩

end Step

/-- **No update is lost, if snapshots are sent in order.**  Whatever the interleaving of
connections, registrations, deliveries and deregistrations: if every send in the run is
in order, then whenever all calls have returned, what is published is current. -/
theorem quote_updates_published (quoteTtlMs : Nat) {history : List (RouterState × RouterEvent)}
    {s : RouterState}
    (hrun : Run (RouterState.Step quoteTtlMs) SendsInOrder RouterState.new history s)
    (hquiet : s.Quiet) : Current history s := by
  have hinv : UpdateInv history s := hrun.invariant updateInv_new
    fun hinv hguard hstep => hinv.step hguard hstep
  have hcomputed : SnapshotOf s.quotes s.published := hinv.upToDate.published hquiet.2
  have hlisted : ∀ pair q, q ∈ s.publishedFor pair ↔ quoteAt s.quotes q.dex pair = some q := by
    intro pair q
    rw [RouterState.publishedFor, hcomputed.mem]
    constructor
    · rintro ⟨dex, hq⟩
      rw [(hinv.inv.stored hq).1]
      exact hq
    · exact fun hq => ⟨q.dex, hq⟩
  refine ⟨hcomputed, hlisted, fun pair q hq => ?_, fun pair q hq hused => ?_⟩
  · rcases hinv.inv.connected ((hlisted pair q).mp hq) with hconn | hmid
    · exact hconn
    · rw [hquiet.1] at hmid
      cases hmid
  · exact (hinv.gone q hused).2 _ _ ((hlisted pair q).mp hq)

/-! ### A late send

Two DEXes post a quote for the same pair.  Each computes its snapshot, the second one
after the first. -/

/-- The message of either DEX: 10 of token 2 for 10 of token 1. -/
def parMsg : ClientMsg := .quote ⟨2, 10⟩ ⟨1, 10⟩ none

/-- The quote it makes at time 0. -/
def postedQuote (dex : DexId) (serial : Nat) : Quote := ⟨dex, (1, 2), 10, 10, 1000, serial⟩

/-- The visit of the first quote, and of both. -/
def firstEntry : List ((DexId × Pair) × Quote) := [((1, (1, 2)), postedQuote 1 0)]

def bothEntries : List ((DexId × Pair) × Quote) :=
  firstEntry ++ [((2, (1, 2)), postedQuote 2 1)]

/-- Both quotes are stored, both snapshots computed, and none is sent. -/
def bothComputed : RouterState where
  board :=
    { value := insertQuote (insertQuote ∅ (postedQuote 1 0)) (postedQuote 2 1)
      owing := []
      unsent := [(.conn 1, snapshot firstEntry), (.conn 2, snapshot bothEntries)]
      published := ∅ }
  conns := Finmap.insert 2 [.authOk] (Finmap.insert 1 [.authOk] ∅)
  nextDex := 3
  nextSerial := 2
  midway := []

theorem visits_first : VisitsQuotes firstEntry (insertQuote ∅ (postedQuote 1 0)) := by
  have hempty : VisitsQuotes [] ∅ := ⟨List.nodup_nil, fun k q => by simp⟩
  exact hempty.insertQuote (q := postedQuote 1 0) rfl

theorem visits_both : VisitsQuotes bothEntries
    (insertQuote (insertQuote ∅ (postedQuote 1 0)) (postedQuote 2 1)) :=
  visits_first.insertQuote (q := postedQuote 2 1) (by decide)

/-- The state is reached without a send. -/
theorem bothComputed_reached {guard : Guard RouterState RouterEvent}
    (hguard : ∀ {history s e}, (∀ c, e ≠ .publish (.send c)) → guard history s e) :
    ∃ history, Run (RouterState.Step 1000) guard RouterState.new history bothComputed := by
  have h₁ : Run (RouterState.Step 1000) guard RouterState.new _ _ :=
    Run.start.step (hguard (by nofun)) .connect
  have h₂ := h₁.step (hguard (by nofun)) .connect
  have h₃ := h₂.step (hguard (by nofun)) (@RouterState.Step.register 1000 _ 1 (.ok parMsg) 0
    (postedQuote 1 0) (by decide) (by decide) rfl)
  have h₄ := h₃.step (hguard (by nofun)) (.publish (.compute (show _ = [] ++ _ from rfl)
    ⟨_, visits_first, rfl⟩))
  have h₅ := h₄.step (hguard (by nofun)) (@RouterState.Step.register 1000 _ 2 (.ok parMsg) 0
    (postedQuote 2 1) (by decide) (by decide) rfl)
  have h₆ := h₅.step (hguard (by nofun)) (.publish (.compute rfl ⟨_, visits_both, rfl⟩))
  exact ⟨_, h₆⟩

/-- **A quote that nobody sees.**  The snapshot with both quotes is sent first, and the one
with the first quote only after it: all calls have returned, and the second quote is
stored and not published. -/
theorem late_send_hides_quote :
    ∃ history, ∃ s : RouterState, Run (RouterState.Step 1000) unguarded RouterState.new history s ∧
      s.Quiet ∧ quoteAt s.quotes 2 (1, 2) = some (postedQuote 2 1) ∧
      postedQuote 2 1 ∉ s.publishedFor (1, 2) ∧ ¬ SnapshotOf s.quotes s.published := by
  obtain ⟨_, h₁⟩ := @bothComputed_reached unguarded fun _ => trivial
  have h₂ := h₁.step trivial (.publish (.send (show _ = [_] ++ _ from rfl) (by decide)))
  have h₃ := h₂.step trivial (.publish (.send (show _ = [] ++ _ from rfl) (by decide)))
  have hstored : quoteAt bothComputed.quotes 2 (1, 2) = some (postedQuote 2 1) := by decide
  have hhidden : postedQuote 2 1 ∉ ((snapshot firstEntry).lookup (1, 2)).getD [] := by decide
  exact ⟨_, _, h₃, ⟨rfl, rfl, rfl⟩, hstored, hhidden,
    fun h => hhidden (h.mem.mpr ⟨2, hstored⟩)⟩

/-- Sent in order, both quotes are published. -/
theorem quote_updates_published_both :
    ∃ history, ∃ s : RouterState,
      Run (RouterState.Step 1000) SendsInOrder RouterState.new history s ∧
      s.publishedFor (1, 2) = [postedQuote 1 0, postedQuote 2 1] ∧ Current history s := by
  obtain ⟨_, h₁⟩ := @bothComputed_reached SendsInOrder fun h c hc => absurd hc (h c)
  have hnext : ∀ {history s c}, s.board.Next c → SendsInOrder history s (.publish (.send c)) := by
    rintro history s c h _ ⟨⟩
    exact h
  have h₂ := h₁.step (hnext rfl) (.publish (.send (show _ = [] ++ _ from rfl) (by decide)))
  have h₃ := h₂.step (hnext rfl) (.publish (.send (show _ = [] ++ _ from rfl) (by decide)))
  exact ⟨_, _, h₃, by decide, quote_updates_published 1000 h₃ ⟨rfl, rfl, rfl⟩⟩

end PswapSolver
