import PswapSolver.Backoff
import PswapSolver.LpClient

/-! # What the owner of a client is told

`supervise` in `lp-sdk/src/client.rs` reports the life of the link to its owner: the greeting
once, then for each outage the attempts to reconnect, numbered, and the reconnection; a rejected
token ends it.  In between come what the router sends.  The numbers and the delays survive a
reconnection, and start anew only after a link that was stable.

`supervisor_protocol` says that in every run the events follow this protocol, that the number of
an attempt is the number of attempts since the last stable link, and that the delay before it
is determined by this number.
-/
namespace PswapSolver.Lp
open Codecs Runs Wire

variable {AccountId Note : Type}

/-! ## The protocol -/

/-- What the owner knows: how many attempts to reconnect there were, and whether the link is
up. -/
inductive Told where
  | nothing
  | up (attempt : Nat)
  | retrying (attempt : Nat)
  | over
deriving DecidableEq

/-- The attempts are counted up to the largest `u32`. -/
def nextAttempt (attempt : Nat) : Nat := min (attempt + 1) (2 ^ 32 - 1)

/-- The owner has been greeted, and the link is not given up. -/
def Told.begun : Told → Bool
  | .up _ => true
  | .retrying _ => true
  | _ => false

/-- **The protocol**: what the owner knows after an event, if the event may come. -/
def tell : Told → LpEvent AccountId Note → Option Told
  -- what the router sends
  | told, .ask _ => if told.begun then some told else none
  | told, .handover _ _ => if told.begun then some told else none
  | told, .error _ => if told.begun then some told else none
  | .nothing, .authOk => some (.up 0)
  -- the count goes on, or starts anew after a stable link
  | .up k, .reconnecting n => if n = nextAttempt k ∨ n = 1 then some (.retrying n) else none
  | .retrying k, .reconnecting n => if n = nextAttempt k then some (.retrying n) else none
  | .retrying k, .reconnected => some (.up k)
  | .retrying _, .disconnected _ => some .over
  | _, _ => none

/-- What the owner knows after the events, if they follow the protocol. -/
def replay (events : List (LpEvent AccountId Note)) : Option Told := events.foldlM tell .nothing

theorem replay_concat (events : List (LpEvent AccountId Note)) (event : LpEvent AccountId Note) :
    replay (events ++ [event]) = (replay events).bind fun told => tell told event := by
  simp [replay, List.foldlM_append]

theorem tell_ne_nothing {told told' : Told} {event : LpEvent AccountId Note}
    (h : tell told event = some told') : told' ≠ .nothing := by
  rintro rfl
  cases told <;> cases event <;> simp [tell, Told.begun] at h

/-- Whoever knows something is not greeted again. -/
theorem not_greeted_again {told last : Told} {events : List (LpEvent AccountId Note)}
    (htold : told ≠ .nothing) (h : events.foldlM tell told = some last) : .authOk ∉ events := by
  induction events generalizing told with
  | nil => exact List.not_mem_nil
  | cons event events ih =>
    rw [List.foldlM_cons] at h
    obtain ⟨next, hnext, hrest⟩ := Option.bind_eq_some_iff.mp h
    have hevent : event ≠ .authOk := by
      rintro rfl
      cases told with
      | nothing => exact htold rfl
      | _ => cases hnext
    exact List.not_mem_cons_of_ne_of_not_mem hevent.symm (ih (tell_ne_nothing hnext) hrest)

/-- **The greeting comes first, and once.** -/
theorem greeting_first {told : Told} {events : List (LpEvent AccountId Note)}
    (h : replay events = some told) :
    events = [] ∨ ∃ rest, events = .authOk :: rest ∧ .authOk ∉ rest := by
  cases events with
  | nil => exact Or.inl rfl
  | cons event rest =>
    rw [replay, List.foldlM_cons] at h
    obtain ⟨next, hnext, hrest⟩ := Option.bind_eq_some_iff.mp h
    -- of all events only the greeting may come when nothing is known
    cases event with
    | authOk => exact Or.inr ⟨rest, rfl, not_greeted_again (tell_ne_nothing hnext) hrest⟩
    | _ => cases hnext

/-! ## The attempts -/

/-- The attempts since the last stable link, after one more step. -/
def countRetry (n : Nat) : LinkEvent → Nat
  | .retry _ => n + 1
  | .linkDown uptimeMs => if STABLE_UPTIME ≤ uptimeMs then 0 else n
  | _ => n

/-- **The attempts since the last stable link.** -/
def retries (labels : List LinkEvent) : Nat := labels.foldl countRetry 0

theorem retries_concat (labels : List LinkEvent) (e : LinkEvent) :
    retries (labels ++ [e]) = countRetry (retries labels) e := by
  simp [retries]

/-- The delay before attempt number `n`. -/
def delayBefore (n : Nat) : Nat := Backoff.delay RECONNECT_MIN RECONNECT_MAX (n - 1)

/-! ## The invariant -/

/-- What a listening owner knows at each stage. -/
def Stage.Known (attempt : Nat) : Stage → Told → Prop
  | .starting, told => told = .nothing ∧ attempt = 0
  | .waiting, told => told = .up attempt
  | .sending _ _, told => told = .up attempt
  | .flushing, told => told = .up attempt
  | .retrying, told => told = .retrying attempt ∨
      ∃ k, told = .up k ∧ (attempt = k ∨ attempt = 0)
  | .sleeping, told => told = .retrying attempt
  | .connecting, told => told = .retrying attempt
  | .draining, told => told = .retrying attempt
  | .drained, told => told = .retrying attempt
  | .stopped, _ => True

theorem Stage.Known.begun {stage : Stage} {attempt : Nat} {told : Told}
    (h : stage.Known attempt told) (hstarting : stage ≠ .starting) (hstopped : stage ≠ .stopped) :
    told.begun = true := by
  cases stage with
  | starting => exact absurd rfl hstarting
  | stopped => exact absurd rfl hstopped
  | retrying =>
    rcases h with rfl | ⟨k, rfl, -⟩
    · rfl
    · rfl
  | _ =>
    cases h
    rfl

/-- **The invariant of the supervisor.** -/
structure SupervisorInv (history : List (Link AccountId Note × LinkEvent))
    (s : Link AccountId Note) : Prop where
  told : ∃ told, replay s.events = some told ∧
    (s.listening = true → s.stage.Known s.attempt told)
  attempt : s.attempt = min (retries (labels history)) (2 ^ 32 - 1)
  sleeping : s.stage = .sleeping →
    1 ≤ retries (labels history) ∧ s.delay = delayBefore (retries (labels history))
  awake : s.stage ≠ .sleeping → s.delay = delayBefore (retries (labels history) + 1)

theorem supervisorInv_new : SupervisorInv [] (Link.new : Link AccountId Note) where
  told := ⟨.nothing, rfl, fun _ => ⟨rfl, rfl⟩⟩
  attempt := rfl
  sleeping := nofun
  awake := fun _ => rfl

section Step
variable {c : Components AccountId PswapSolver.Asset Note} {s s' : Link AccountId Note}
  {e : LinkEvent} {history : List (Link AccountId Note × LinkEvent)}

@[simp] theorem emit_listening (s : Link AccountId Note) (event : LpEvent AccountId Note) :
    (s.emit event).listening = s.listening := by
  unfold Link.emit
  split
  · rfl
  · rfl

@[simp] theorem emit_attempt (s : Link AccountId Note) (event : LpEvent AccountId Note) :
    (s.emit event).attempt = s.attempt := by
  unfold Link.emit
  split
  · rfl
  · rfl

/-- An event that follows the protocol is reported, and the stage changes. -/
theorem emit_told (event : LpEvent AccountId Note) (stage : Stage) (attempt : Nat)
    (h : ∃ told, replay s.events = some told ∧ (s.listening = true → s.stage.Known s.attempt told))
    (htell : ∀ told, s.stage.Known s.attempt told →
      ∃ told', tell told event = some told' ∧ stage.Known attempt told') :
    ∃ told, replay (s.emit event).events = some told ∧
      ((s.emit event).listening = true → stage.Known attempt told) := by
  obtain ⟨told, hreplay, hknown⟩ := h
  rw [emit_listening]
  unfold Link.emit
  by_cases hlistening : s.listening = true
  · rw [if_pos hlistening]
    obtain ⟨told', htold', hstage⟩ := htell told (hknown hlistening)
    refine ⟨told', ?_, fun _ => hstage⟩
    rw [replay_concat, hreplay]
    exact htold'
  · rw [if_neg hlistening]
    exact ⟨told, hreplay, fun h => absurd h hlistening⟩

/-- What the router sends changes nothing of this. -/
theorem readFrame_told (bytes : Bytes) (hstarting : s.stage ≠ .starting)
    (hstopped : s.stage ≠ .stopped) (h : ∃ told, replay s.events = some told ∧
      (s.listening = true → s.stage.Known s.attempt told)) :
    ∃ told, replay (s.readFrame c bytes).events = some told ∧
      ((s.readFrame c bytes).listening = true →
        (s.readFrame c bytes).stage.Known (s.readFrame c bytes).attempt told) := by
  have hstage : (s.readFrame c bytes).stage = s.stage := by
    obtain ⟨events, heq⟩ := Link.readFrame_eq c s bytes
    rw [heq]
  rw [hstage]
  unfold Link.readFrame
  split
  · exact h
  · rename_i m hm _
    apply emit_told _ _ _ h
    intro told hknown
    rw [emit_attempt]
    have hbegun := hknown.begun hstarting hstopped
    refine ⟨told, ?_, hknown⟩
    cases m with
    | authOk => exact absurd rfl hm
    | ask pairs => exact if_pos hbegun
    | handover note fill => exact if_pos hbegun
    | error code msg => exact if_pos hbegun
  · exact h

/-- **What a step tells the owner.** -/
theorem told_step (h : ∃ told, replay s.events = some told ∧
      (s.listening = true → s.stage.Known s.attempt told)) (hstep : Link.Step c s e s') :
    ∃ told, replay s'.events = some told ∧
      (s'.listening = true → s'.stage.Known s'.attempt told) := by
  -- the stage changes, and nothing is reported
  have hquiet : ∀ {stage : Stage} {attempt : Nat},
      (∀ told, s.stage.Known s.attempt told → stage.Known attempt told) →
      ∃ told, replay s.events = some told ∧ (s.listening = true → stage.Known attempt told) := by
    intro stage attempt hstage
    obtain ⟨told, hreplay, hknown⟩ := h
    exact ⟨told, hreplay, fun hlistening => hstage told (hknown hlistening)⟩
  cases hstep with
  | start stage =>
    apply emit_told .authOk .waiting _ h
    rw [stage, emit_attempt]
    rintro told ⟨rfl, hattempt⟩
    exact ⟨.up 0, rfl, congrArg Told.up hattempt.symm⟩
  | post _ _ => exact h
  | refuse _ _ => exact h
  | dropEvents =>
    obtain ⟨told, hreplay, -⟩ := h
    exact ⟨told, hreplay, nofun⟩
  | dropSenders => exact h
  | frame bytes greeted stage => exact readFrame_told bytes greeted stage h
  | take stage _ =>
    apply hquiet
    rw [stage]
    exact fun told hknown => hknown
  | write stage =>
    apply hquiet
    rw [stage]
    exact fun told hknown => hknown
  | flushed stage =>
    apply hquiet
    rw [stage]
    exact fun told hknown => hknown
  | linkDown uptimeMs live _ =>
    apply hquiet
    intro told hknown
    have hup : told = .up s.attempt := by
      rcases live with hstage | ⟨n, msg, hstage⟩ | hstage
      all_goals
        rw [hstage] at hknown
        exact hknown
    refine Or.inr ⟨s.attempt, hup, ?_⟩
    by_cases hstable : STABLE_UPTIME ≤ uptimeMs
    · exact Or.inr (if_pos hstable)
    · exact Or.inl (if_neg hstable)
  | clientGone _ _ => exact hquiet fun _ _ => trivial
  | giveUp _ _ => exact hquiet fun _ _ => trivial
  | retry stage _ =>
    apply emit_told (.reconnecting (nextAttempt s.attempt)) .sleeping (nextAttempt s.attempt) h
    rw [stage]
    intro told hknown
    refine ⟨.retrying (nextAttempt s.attempt), ?_, rfl⟩
    rcases hknown with rfl | ⟨k, rfl, rfl | hzero⟩
    · exact if_pos rfl
    · exact if_pos (Or.inl rfl)
    · rw [hzero]
      exact if_pos (Or.inr rfl)
  | wake stage =>
    apply hquiet
    rw [stage]
    exact fun told hknown => hknown
  | connected stage =>
    apply hquiet
    rw [stage]
    exact fun told hknown => hknown
  | authRejected stage =>
    apply emit_told (.disconnected LpError.authRejected.display) .stopped _ h
    rw [stage]
    rintro told rfl
    exact ⟨.over, rfl, trivial⟩
  | connectFailed _ stage =>
    apply hquiet
    rw [stage]
    exact fun told hknown => Or.inl hknown
  | discard _ _ => exact h
  | drained stage _ =>
    apply hquiet
    rw [stage]
    exact fun told hknown => hknown
  | reconnected stage =>
    apply emit_told .reconnected .waiting _ h
    rw [stage, emit_attempt]
    rintro told rfl
    exact ⟨.up s.attempt, rfl, rfl⟩

theorem retry_inv {n : Nat} (h : Link.Step c s (.retry n) s') : n = nextAttempt s.attempt := by
  cases h with
  | retry _ _ => rfl

theorem wake_inv (h : Link.Step c s .wake s') : s.stage = .sleeping := by
  cases h with
  | wake stage => exact stage

/-- **How a step changes the attempts and the delay.** -/
inductive Pace (s : Link AccountId Note) (e : LinkEvent) (s' : Link AccountId Note) : Prop
  | same (count : ∀ n, countRetry n e = n) (attempt : s'.attempt = s.attempt)
      (delay : s'.delay = s.delay) (was : s.stage ≠ .sleeping) (stage : s'.stage ≠ .sleeping)
  | rests (count : ∀ n, countRetry n e = n) (attempt : s'.attempt = s.attempt)
      (delay : s'.delay = s.delay) (stage : s'.stage = s.stage)
  | down (uptimeMs : Nat) (event : e = .linkDown uptimeMs) (stage : s'.stage = .retrying)
      (attempt : s'.attempt = if STABLE_UPTIME ≤ uptimeMs then 0 else s.attempt)
      (delay : s'.delay = if STABLE_UPTIME ≤ uptimeMs then RECONNECT_MIN else s.delay)
      (was : s.stage ≠ .sleeping)
  | retries (event : e = .retry (nextAttempt s.attempt)) (was : s.stage = .retrying)
      (stage : s'.stage = .sleeping) (attempt : s'.attempt = nextAttempt s.attempt)
      (delay : s'.delay = s.delay)
  | wakes (event : e = .wake) (was : s.stage = .sleeping) (stage : s'.stage = .connecting)
      (attempt : s'.attempt = s.attempt) (delay : s'.delay = Backoff.next RECONNECT_MAX s.delay)

theorem pace_step (h : Link.Step c s e s') : Pace s e s' := by
  -- a stage that is known not to be the wait
  have hne : ∀ {stage : Stage}, s.stage = stage → stage ≠ .sleeping → s.stage ≠ .sleeping :=
    fun hstage hno => hstage ▸ hno
  cases h with
  | start stage =>
    obtain ⟨events, heq⟩ := Link.emit_eq s .authOk
    rw [heq]
    exact .same (fun _ => rfl) rfl rfl (hne stage nofun) nofun
  | post _ _ => exact .rests (fun _ => rfl) rfl rfl rfl
  | refuse _ _ => exact .rests (fun _ => rfl) rfl rfl rfl
  | dropEvents => exact .rests (fun _ => rfl) rfl rfl rfl
  | dropSenders => exact .rests (fun _ => rfl) rfl rfl rfl
  | frame bytes _ _ =>
    obtain ⟨events, heq⟩ := Link.readFrame_eq c s bytes
    rw [heq]
    exact .rests (fun _ => rfl) rfl rfl rfl
  | take stage _ => exact .same (fun _ => rfl) rfl rfl (hne stage nofun) nofun
  | write stage => exact .same (fun _ => rfl) rfl rfl (hne stage nofun) nofun
  | flushed stage => exact .same (fun _ => rfl) rfl rfl (hne stage nofun) nofun
  | linkDown uptimeMs live _ =>
    refine .down uptimeMs rfl rfl rfl rfl ?_
    rcases live with hstage | ⟨n, msg, hstage⟩ | hstage
    · exact hne hstage nofun
    · exact hne hstage nofun
    · exact hne hstage nofun
  | clientGone live _ =>
    refine .same (fun _ => rfl) rfl rfl ?_ nofun
    rcases live with hstage | ⟨n, msg, hstage⟩ | hstage
    · exact hne hstage nofun
    · exact hne hstage nofun
    · exact hne hstage nofun
  | giveUp stage _ => exact .same (fun _ => rfl) rfl rfl (hne stage nofun) nofun
  | retry stage _ =>
    obtain ⟨events, heq⟩ := Link.emit_eq s (.reconnecting (min (s.attempt + 1) (2 ^ 32 - 1)))
    rw [heq]
    exact .retries rfl stage rfl rfl rfl
  | wake stage => exact .wakes rfl stage rfl rfl rfl
  | connected stage => exact .same (fun _ => rfl) rfl rfl (hne stage nofun) nofun
  | authRejected stage =>
    obtain ⟨events, heq⟩ := Link.emit_eq s (.disconnected LpError.authRejected.display)
    rw [heq]
    exact .same (fun _ => rfl) rfl rfl (hne stage nofun) nofun
  | connectFailed _ stage => exact .same (fun _ => rfl) rfl rfl (hne stage nofun) nofun
  | discard _ _ => exact .rests (fun _ => rfl) rfl rfl rfl
  | drained stage _ => exact .same (fun _ => rfl) rfl rfl (hne stage nofun) nofun
  | reconnected stage =>
    obtain ⟨events, heq⟩ := Link.emit_eq s .reconnected
    rw [heq]
    exact .same (fun _ => rfl) rfl rfl (hne stage nofun) nofun

/-- **One step.** -/
theorem SupervisorInv.step (h : SupervisorInv history s) (hstep : Link.Step c s e s') :
    SupervisorInv (history ++ [(s, e)]) s' := by
  have htold := told_step h.told hstep
  have hcount : retries (labels (history ++ [(s, e)])) =
      countRetry (retries (labels history)) e := by
    rw [labels_append, retries_concat]
  have hattempt := h.attempt
  cases pace_step hstep with
  | same count attempt delay was stage =>
    rw [count] at hcount
    refine ⟨htold, ?_, fun hsleeps => absurd hsleeps stage, fun _ => ?_⟩
    · rw [attempt, hcount, hattempt]
    · rw [delay, hcount, h.awake was]
  | rests count attempt delay stage =>
    rw [count] at hcount
    refine ⟨htold, ?_, fun hsleeps => ?_, fun hawake => ?_⟩
    · rw [attempt, hcount, hattempt]
    · rw [delay, hcount]
      exact h.sleeping (stage ▸ hsleeps)
    · rw [delay, hcount]
      exact h.awake (stage ▸ hawake)
  | down uptimeMs event stage attempt delay was =>
    subst event
    rw [countRetry] at hcount
    have hawake := h.awake was
    by_cases hstable : STABLE_UPTIME ≤ uptimeMs
    · rw [if_pos hstable] at attempt delay hcount
      refine ⟨htold, ?_, fun hsleeps => ?_, fun _ => ?_⟩
      · rw [attempt, hcount]
        rfl
      · cases stage.symm.trans hsleeps
      · rw [delay, hcount]
        rfl
    · rw [if_neg hstable] at attempt delay hcount
      refine ⟨htold, ?_, fun hsleeps => ?_, fun _ => ?_⟩
      · rw [attempt, hcount, hattempt]
      · cases stage.symm.trans hsleeps
      · rw [delay, hcount, hawake]
  | retries event was stage attempt delay =>
    subst event
    rw [countRetry] at hcount
    refine ⟨htold, ?_, fun _ => ?_, fun hawake => absurd stage hawake⟩
    · rw [attempt, hcount, nextAttempt, hattempt]
      omega
    · rw [delay, hcount]
      exact ⟨by omega, h.awake (by rw [was]; nofun)⟩
  | wakes event was stage attempt delay =>
    subst event
    change _ = retries (labels history) at hcount
    obtain ⟨hpos, hdelay⟩ := h.sleeping was
    refine ⟨htold, ?_, fun hsleeps => ?_, fun _ => ?_⟩
    · rw [attempt, hcount, hattempt]
    · cases stage.symm.trans hsleeps
    · rw [delay, hcount, hdelay, delayBefore, Backoff.next_delay, delayBefore]
      congr 1
      omega

end Step

/-- **The protocol of the supervisor.**  In every run of a client:

* the first event its owner gets is the greeting, which does not come again, and the events
  follow the protocol `tell`: what the router sends and the attempts to reconnect only after the
  greeting, every reconnection after numbered attempts, nothing after a disconnection;
* an attempt carries the number of attempts since the last link that was up for ten seconds,
  counted up to the largest `u32`;
* the wait before attempt number `n` lasts 500 ms times `2 ^ (n - 1)`, at most 30 s. -/
theorem supervisor_protocol (c : Components AccountId PswapSolver.Asset Note)
    {history : List (Link AccountId Note × LinkEvent)} {s : Link AccountId Note}
    (hrun : Run (Link.Step c) unguarded Link.new history s) :
    (s.events = [] ∨ ∃ rest, s.events = .authOk :: rest ∧ .authOk ∉ rest) ∧
    (replay s.events).isSome = true ∧
    ∀ before x after, history = before ++ x :: after →
      (∀ n, x.2 = .retry n → n = min (retries (labels before) + 1) (2 ^ 32 - 1)) ∧
      (x.2 = .wake → 1 ≤ retries (labels before) ∧
        x.1.delay = min (500 * 2 ^ (retries (labels before) - 1)) 30000) := by
  have hinv : ∀ {history : List (Link AccountId Note × LinkEvent)} {s : Link AccountId Note},
      Run (Link.Step c) unguarded Link.new history s → SupervisorInv history s := by
    intro history s hrun
    exact hrun.invariant supervisorInv_new fun h _ hstep => h.step hstep
  obtain ⟨told, hreplay, -⟩ := (hinv hrun).told
  refine ⟨greeting_first hreplay, ?_, ?_⟩
  · rw [hreplay]
    rfl
  · rintro before ⟨t, e⟩ after rfl
    obtain ⟨hbefore, t', hstep⟩ := hrun.before
    have ht := hinv hbefore
    refine ⟨?_, ?_⟩
    · rintro n rfl
      rw [retry_inv hstep, nextAttempt, ht.attempt]
      omega
    · rintro rfl
      exact ht.sleeping (wake_inv hstep)

/-- Two attempts after an early drop: the second one is number 2 and comes after a second. -/
theorem supervisor_second_attempt :
    ∃ history, ∃ s : Link Nat Nat, ∃ before t,
      Run (Link.Step default) unguarded Link.new history s ∧
      labels history = [.start, .linkDown 0, .retry 1, .wake, .connectFailed (.transport ""),
        .retry 2, .wake] ∧
      s.events = [.authOk, .reconnecting 1, .reconnecting 2] ∧
      (replay s.events).isSome = true ∧ history = before ++ [(t, .wake)] ∧ t.delay = 1000 := by
  have h₁ : Run (Link.Step default) unguarded (Link.new : Link Nat Nat) _ _ :=
    Run.single (.start rfl)
  have h₂ := h₁.step trivial (.linkDown 0 (Or.inl rfl) (Or.inl rfl))
  have h₃ := h₂.step trivial (.retry rfl rfl)
  have h₄ := h₃.step trivial (.wake rfl)
  have h₅ := h₄.step trivial (.connectFailed "" rfl)
  have h₆ := h₅.step trivial (.retry rfl rfl)
  have h₇ := h₆.step trivial (.wake rfl)
  obtain ⟨-, hreplay, hall⟩ := supervisor_protocol default h₇
  exact ⟨_, _, _, _, h₇, rfl, rfl, hreplay, rfl, ((hall _ _ [] rfl).2 rfl).2⟩

end PswapSolver.Lp
