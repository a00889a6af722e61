import PswapSolver.Matcher
import PswapSolver.Runs

/-! # The in-flight window

A note handed to a DEX at tick time `t` should be in no other batch before
`t + inflight_ttl_ms`.  The note is parked at the handover, and what is parked is in no
batch; so the window is kept for as long as the note stays parked.

Two things can end the park too early.  The sweep looks at the entries of the park queue,
and an entry of an earlier park of the same note, which was rolled back, expires before
the window does.  And a note that was consumed is forgotten together with its park, so
that a new delivery puts it up for matching at once.  `Undisturbed` rules out both, and
`handover_exclusive` shows that nothing else can go wrong.
-/
namespace PswapSolver
open Runs

/-- The steps of the matcher, whatever it reads from its surroundings. -/
def MatcherStep (m : Matcher) (e : MatcherEvent) (m' : Matcher) : Prop :=
  ∃ i, Matcher.Step i m e m'

/-- **Exclusivity**: after a handover at time `t` the note is in no batch before `t + ttl`. -/
def Exclusive (ttl : Nat) (history : List (Matcher × MatcherEvent)) : Prop :=
  history.Pairwise fun x y => ∀ N ∈ x.2.handsOver, N ∈ y.2.executes ∨ N ∈ y.2.handsOver →
    x.1.lastNow + ttl ≤ y.1.lastNow

instance (ttl : Nat) (history : List (Matcher × MatcherEvent)) :
    Decidable (Exclusive ttl history) :=
  inferInstanceAs (Decidable (history.Pairwise _))

/-- **The condition on a step**: a note is handed over only if the park queue holds no
entry of it from an earlier tick; a note that was handed over is not delivered before its
window is over; and the clock has not reached the end of its range. -/
def Undisturbed (ttl : Nat) : Guard Matcher MatcherEvent := fun history m e =>
  (∀ N ∈ e.handsOver, ∀ x ∈ m.book.parkQueue, x.2 = N → m.lastNow ≤ x.1) ∧
  (∀ N ∈ e.delivers, ∀ x ∈ history, N ∈ x.2.handsOver → x.1.lastNow + ttl ≤ m.lastNow) ∧
  (e = .ordersEmpty → m.lastNow < u64Max)

instance (ttl : Nat) (history : List (Matcher × MatcherEvent)) (m : Matcher) (e : MatcherEvent) :
    Decidable (Undisturbed ttl history m e) :=
  inferInstanceAs (Decidable (_ ∧ _ ∧ _))

/-- The note is away, or parked with no queue entry from before `t`. -/
def Held (m : Matcher) (N : OrderId) (t : Nat) : Prop :=
  N ∉ m.book.orders ∨ (N ∈ m.book.parked ∧ ∀ x ∈ m.book.parkQueue, x.2 = N → t ≤ x.1)

/-- The invariant of an undisturbed run: a note is held throughout its window. -/
structure WindowInv (ttl : Nat) (history : List (Matcher × MatcherEvent)) (m : Matcher) : Prop where
  sound : m.Sound
  router : ∀ {r}, m.router = some r → r.inflightTtlMs = ttl
  past : ∀ x ∈ history, x.1.lastNow ≤ m.lastNow
  held : ∀ x ∈ history, ∀ N ∈ x.2.handsOver, m.lastNow < x.1.lastNow + ttl →
    Held m N x.1.lastNow
  exclusive : Exclusive ttl history

section Step
variable {ttl : Nat} {history : List (Matcher × MatcherEvent)} {m m' : Matcher} {e : MatcherEvent}

/-- An unexpired park survives the sweep: all its entries are at most as old as it is. -/
theorem not_expired_of_held {queue : List (Nat × OrderId)} {N : OrderId} {t now : Nat}
    (hqueue : ∀ x ∈ queue, x.2 = N → t ≤ x.1) (hopen : now < t + ttl) (hnow : now < u64Max) :
    ¬ OrderBook.Expired ttl now queue N := by
  rintro ⟨x, hx, hid, hexp⟩
  have := hqueue x hx hid
  unfold satAdd64 at hexp
  omega

/-- **One step of a window**: a held note stays held. -/
theorem Held.step {N : OrderId} {t : Nat} (hinv : WindowInv ttl history m)
    (hf : Matcher.Footprint m e m') (hsweep : e = .ordersEmpty → m.lastNow < u64Max)
    (hdel : N ∉ e.delivers) (ht : t ≤ m.lastNow) (hopen : m.lastNow < t + ttl)
    (h : Held m N t) : Held m' N t := by
  by_cases hN : N ∈ m'.book.orders
  · obtain hgone | ⟨hparked, hqueue⟩ := h
    · exact absurd ((hf.orders hN).resolve_right hdel) hgone
    · refine Or.inr ⟨?_, fun x hx hid => ?_⟩
      · refine (hf.parked hparked hdel hN).resolve_right ?_
        rintro ⟨he, r, hr, hexp⟩
        rw [hinv.router hr] at hexp
        exact not_expired_of_held hqueue hopen (hsweep he) hexp
      · exact (hf.queue hx).elim (fun hx => hqueue x hx hid) fun hx => hx ▸ ht
  · exact Or.inl hN

/-- **One step of an undisturbed run.** -/
theorem WindowInv.step (hinv : WindowInv ttl history m) (hguard : Undisturbed ttl history m e)
    (hstep : MatcherStep m e m') : WindowInv ttl (history ++ [(m, e)]) m' := by
  obtain ⟨i, hstep⟩ := hstep
  have hf := hstep.footprint hinv.sound
  obtain ⟨hfresh, hdeliver, hsweep⟩ := hguard
  refine ⟨hf.sound, fun hr => hinv.router (hf.router hr), ?_, ?_, ?_⟩
  · intro x hx
    rcases List.mem_append.mp hx with hx | hx
    · exact (hinv.past x hx).trans hf.lastNow
    · rw [List.mem_singleton.mp hx]
      exact hf.lastNow
  · intro x hx N hN hopen
    have hnow := hf.lastNow
    rcases List.mem_append.mp hx with hx | hx
    · have hdel : N ∉ e.delivers := fun hc => by
        have := hdeliver N hc x hx hN
        omega
      exact (hinv.held x hx N hN (by omega)).step hinv hf hsweep hdel (hinv.past x hx) (by omega)
    · -- the note handed over just now
      rw [List.mem_singleton.mp hx] at hN ⊢
      refine Or.inr ⟨hf.handed hN, fun y hy hid => ?_⟩
      exact (hf.queue hy).elim (fun hy => hfresh N hN y hy hid) fun hy => hy ▸ Nat.le_refl _
  · refine List.pairwise_append.mpr ⟨hinv.exclusive, List.pairwise_singleton _ _, ?_⟩
    intro x hx y hy N hN hemits
    rw [List.mem_singleton.mp hy] at hemits ⊢
    by_contra hopen
    obtain ⟨hmem, hnp⟩ := hf.emitted hemits
    obtain hgone | ⟨hparked, -⟩ := hinv.held x hx N hN (Nat.lt_of_not_le hopen)
    · exact hgone hmem
    · exact hnp hparked

end Step

/-- Whatever happens to the matcher, its book is a reachable one. -/
theorem sound_of_run {guard : Guard Matcher MatcherEvent} {feed : PriceFeed}
    {triangularEnabled : Bool} {router : Option RouterHooks}
    {history : List (Matcher × MatcherEvent)} {m : Matcher}
    (h : Run MatcherStep guard (Matcher.new feed triangularEnabled router) history m) : m.Sound :=
  h.invariant (P := fun _ m => m.Sound)
    ⟨OrderBook.Reachable.new feed, fun _ hx => absurd hx List.not_mem_nil⟩
    fun hm _ ⟨_, hstep⟩ => (hstep.footprint hm).sound

theorem windowInv_new (feed : PriceFeed) (triangularEnabled : Bool) (ttl : Nat) :
    WindowInv ttl [] (Matcher.new feed triangularEnabled (some ⟨ttl⟩)) where
  sound := ⟨OrderBook.Reachable.new feed, fun _ hx => absurd hx List.not_mem_nil⟩
  router := fun hr => by cases hr; rfl
  past := fun _ hx => absurd hx List.not_mem_nil
  held := fun _ hx => absurd hx List.not_mem_nil
  exclusive := List.Pairwise.nil

/-- **A handover is exclusive for its window, if nothing disturbs it.**  For every reachable
book the sweep returns exactly the notes whose own park is over iff no note with an open
window has an expired entry left in the queue.  In every run of the matcher whose steps
are undisturbed, a note handed over at time `t` is in no batch before `t + ttl`. -/
theorem handover_exclusive (ttl : Nat) :
    (∀ (b : OrderBook) (time : Nat), b.Reachable →
      (b.ReturnsExpired ttl time ↔ b.NoExpiredTombstone ttl time)) ∧
    ∀ (feed : PriceFeed) (triangularEnabled : Bool) (history : List (Matcher × MatcherEvent))
      (m : Matcher), Run MatcherStep (Undisturbed ttl)
        (Matcher.new feed triangularEnabled (some ⟨ttl⟩)) history m → Exclusive ttl history := by
  refine ⟨fun b time hb => hb.inv.returnsExpired_iff ttl time, ?_⟩
  intro feed triangularEnabled history m hrun
  exact (hrun.invariant (P := WindowInv ttl) (windowInv_new feed triangularEnabled ttl)
    fun hinv hguard hstep => hinv.step hguard hstep).exclusive

/-! ### Quiet ticks

Ticks in which nothing arrives and nothing matches, with triangular matching disabled. -/

namespace Matcher

/-- The matcher as a quiet tick starts, and after its sweep. -/
def swept (m : Matcher) (i : MatcherInputs) : Matcher :=
  ({ m.wake i.nowMillis with phase := .receiving } : Matcher).reactivate

/-- The matcher before the external pass of a quiet tick. -/
def unmatched (m : Matcher) (i : MatcherInputs) : Matcher :=
  { m.swept i with book := { (m.swept i).book with feed := i.feed }, phase := .routing }

/-- The external pass of a quiet tick. -/
def quietPass (m : Matcher) (i : MatcherInputs) (order : List Pair) (result : TrySend) :
    PassResult :=
  (m.unmatched i).externalPass i.quotes order result

/-- The steps of a quiet tick. -/
def quietSteps (m : Matcher) (i : MatcherInputs) (order : List Pair) (result : TrySend) :
    List (Matcher × MatcherEvent) :=
  [(m, .wake), (m.wake i.nowMillis, .consumedEmpty),
    ({ m.wake i.nowMillis with phase := .receiving }, .ordersEmpty), (m.swept i, .execute none),
    (m.unmatched i, .route (m.quietPass i order result).sent)]

/-- The matcher after a quiet tick. -/
def quietTick (m : Matcher) (i : MatcherInputs) (order : List Pair) (result : TrySend) : Matcher :=
  (m.unmatched i).routed (m.quietPass i order result)

/-- What makes a tick quiet. -/
structure Quiet (m : Matcher) (i : MatcherInputs) (order : List Pair) : Prop where
  idle : m.phase = .idle
  direct : (m.swept i).triangularEnabled = false
  swept : (m.swept i).phase = .matching
  router : (m.unmatched i).router.isSome = true
  orders : (m.swept i).book.orders.keys ≠ ∅
  unmatched : collectMatchablePairs { (m.swept i).book with feed := i.feed } = ∅
  visits : VisitsPairs order i.quotes

/-- Nothing is matched. -/
theorem Quiet.internalMatch {m : Matcher} {i : MatcherInputs} {order : List Pair}
    (h : m.Quiet i order) : InternalMatch i (m.swept i) none false
      { m.swept i with book := { (m.swept i).book with feed := i.feed } } := by
  have hrun : EngineRun { (m.swept i).book with feed := i.feed } (m.swept i).triangularEnabled
      (runStart { (m.swept i).book with feed := i.feed }) := by
    rw [h.direct]
    have hpairs : MatchablePairs { (m.swept i).book with feed := i.feed } [] :=
      ⟨List.nodup_nil, h.unmatched.symm⟩
    exact EngineRun.direct hpairs
  exact .unfilled h.orders hrun rfl

theorem Quiet.run {m : Matcher} {i : MatcherInputs} {order : List Pair} (h : m.Quiet i order)
    (result : TrySend) :
    Run MatcherStep unguarded m (m.quietSteps i order result) (m.quietTick i order result) := by
  obtain ⟨r, hr⟩ := Option.isSome_iff_exists.mp h.router
  exact ((((Run.start.step trivial ⟨i, .wake h.idle⟩).step trivial ⟨i, .consumedEmpty rfl⟩).step
    trivial ⟨i, .ordersEmpty rfl⟩).step trivial ⟨i, .execute h.swept h.internalMatch⟩).step trivial
    ⟨i, .route result rfl hr h.visits⟩

end Matcher

/-! ### A window cut short

A note is parked at time 50 and rolled back, the route channel being full.  At time 60 it
is handed over.  With a window of 100 the entry of the first park expires at 150: the note
is reactivated and handed over a second time, 10 before its window is over. -/

/-- Note 1 offers 10 of token 1 for 10 of token 2. -/
def loadedNote : IngestOrder := ⟨1, parTerms 10, []⟩

/-- The matcher with the note loaded at boot. -/
def oneNote : Matcher :=
  (Matcher.new (fun _ => none) false (some ⟨100⟩)).hydrate 0 [loadedNote]

/-- A quote with room for the note, at the given time. -/
def quotedAt (now : Nat) : MatcherInputs where
  feed := fun _ => none
  quotes := Finmap.insert (1, 2) [⟨7, (1, 2), 10, 10, 1000, 0⟩] ∅
  nowMillis := now
  nowUnix := 0

def rolledBack : Matcher := oneNote.quietTick (quotedAt 50) [(1, 2)] .full

def handedOver : Matcher := rolledBack.quietTick (quotedAt 60) [(1, 2)] .ok

/-- The history of the three ticks. -/
def cutShort : List (Matcher × MatcherEvent) :=
  (Matcher.new (fun _ => none) false (some ⟨100⟩), .hydrate [loadedNote]) ::
    (oneNote.quietSteps (quotedAt 50) [(1, 2)] .full ++
      (rolledBack.quietSteps (quotedAt 60) [(1, 2)] .ok ++
        handedOver.quietSteps (quotedAt 150) [(1, 2)] .ok))

/-- **An entry of an undone park ends a later window**: the note is delivered once, handed
over at 60 and again at 150, though its window lasts until 160. -/
theorem tombstone_cuts_window_short :
    (∃ m, Run MatcherStep unguarded (Matcher.new (fun _ => none) false (some ⟨100⟩)) cutShort m) ∧
    cutShort.flatMap (fun x => x.2.delivers) = [1] ∧
    cutShort.flatMap (fun x => x.2.handsOver.map fun N => (x.1.lastNow, N)) = [(60, 1), (150, 1)] ∧
    ¬ Exclusive 100 cutShort ∧
    ∃ b : OrderBook, b.Reachable ∧ ¬ b.ReturnsExpired 100 150 := by
  have h₁ : oneNote.Quiet (quotedAt 50) [(1, 2)] :=
    ⟨rfl, rfl, rfl, rfl, by decide, by decide, by decide, by decide⟩
  have h₂ : rolledBack.Quiet (quotedAt 60) [(1, 2)] :=
    ⟨rfl, rfl, rfl, rfl, by decide, by decide, by decide, by decide⟩
  have h₃ : handedOver.Quiet (quotedAt 150) [(1, 2)] :=
    ⟨rfl, rfl, rfl, rfl, by decide, by decide, by decide, by decide⟩
  have hboot : MatcherStep (Matcher.new (fun _ => none) false (some ⟨100⟩))
      (.hydrate [loadedNote]) oneNote := ⟨quotedAt 0, .hydrate _ rfl⟩
  refine ⟨⟨_, (Run.single hboot).append ((h₁.run .full).append ((h₂.run .ok).append (h₃.run .ok)))⟩,
    by decide, by decide, by decide, handedOver.book, ?_, fun hret => ?_⟩
  · exact (sound_of_run ((Run.single hboot).append ((h₁.run .full).append (h₂.run .ok)))).reachable
  · obtain ⟨since, hsince, hle⟩ := (hret 1 7).mp (by decide)
    have hparked : handedOver.book.parked.lookup 1 = some (7, 60) := by decide
    cases hparked.symm.trans hsince
    exact absurd hle (by decide)

/-- Without the rolled back park both handovers are exclusive: the second comes at 170,
after the window of the first. -/
theorem handover_exclusive_twice :
    let history := (Matcher.new (fun _ => none) false (some ⟨100⟩), .hydrate [loadedNote]) ::
      (oneNote.quietSteps (quotedAt 60) [(1, 2)] .ok ++
        (oneNote.quietTick (quotedAt 60) [(1, 2)] .ok).quietSteps (quotedAt 170) [(1, 2)] .ok)
    history.flatMap (fun x => x.2.handsOver.map fun N => (x.1.lastNow, N)) = [(60, 1), (170, 1)] ∧
    Exclusive 100 history ∧
    (oneNote.book.ReturnsExpired 100 60 ↔ oneNote.book.NoExpiredTombstone 100 60) := by
  have h₁ : oneNote.Quiet (quotedAt 60) [(1, 2)] :=
    ⟨rfl, rfl, rfl, rfl, by decide, by decide, by decide, by decide⟩
  have h₂ : (oneNote.quietTick (quotedAt 60) [(1, 2)] .ok).Quiet (quotedAt 170) [(1, 2)] :=
    ⟨rfl, rfl, rfl, rfl, by decide, by decide, by decide, by decide⟩
  have hboot : MatcherStep (Matcher.new (fun _ => none) false (some ⟨100⟩))
      (.hydrate [loadedNote]) oneNote := ⟨quotedAt 0, .hydrate _ rfl⟩
  have hrun := (Run.single hboot).append ((h₁.run .ok).append (h₂.run .ok))
  refine ⟨by decide, (handover_exclusive 100).2 _ _ _ _ (hrun.guarded (by decide)), ?_⟩
  exact (handover_exclusive 100).1 _ 60 (sound_of_run (Run.single hboot)).reachable

end PswapSolver
