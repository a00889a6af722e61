import PswapSolver.Runs
import Mathlib.Data.List.Basic
import Mathlib.Logic.Function.Basic
import Mathlib.Tactic.Common

/-! # Start-up and shutdown

The model of `start.rs` and of the bodies of the threads that it spawns.  `start` opens the
database, builds the price client, reads the pairs and prepares the database, and returns if one of
these fails.  Then it runs four tasks of its own and spawns up to four threads; it waits until each
of them has reported that it is ready, runs until the token is cancelled or one of its tasks ends,
then cancels the token and joins the threads.

A client thread (ingest, executor) runs two tasks and looks after them: when the token is cancelled
or one of the two ends, it cancels the token and aborts both, wherever they are.  A server thread
(price API, router) serves until the token is cancelled or the server fails.

`lifecycle` says what holds over every interleaving, `shutdown_returns` that a shutdown comes to its
end, and that it does so without waiting for what a client thread is doing.
-/
namespace PswapSolver.Lifecycle
open Runs

/-- The threads, in the order in which they are spawned. -/
inductive Thread where
  | ingest
  | executor
  | priceApi
  | router
deriving DecidableEq

/-- The thread runs two tasks on a Miden client. -/
def Thread.IsClient (t : Thread) : Prop := t = .ingest ∨ t = .executor

instance (t : Thread) : Decidable t.IsClient := inferInstanceAs (Decidable (_ ∨ _))

/-- The threads that are spawned. -/
def threads (routerEnabled : Bool) : List Thread :=
  [.ingest, .executor, .priceApi] ++ if routerEnabled then [.router] else []

/-- What `start` does before the first task and the first thread, and what can fail. -/
inductive Setup where
  | initDb
  | priceClient
  /-- The faucets of a configured pair may be no account ids. -/
  | pairs
  | prepareDb
deriving DecidableEq

def setups : List Setup := [.initDb, .priceClient, .pairs, .prepareDb]

/-- The tasks of the main thread. -/
inductive Task where
  | matcher
  | price
  | admin
  | obs
deriving DecidableEq

inductive Stage where
  | unspawned
  /-- The client is built or the port bound; nothing is reported yet. -/
  | building
  | running
  /-- The tasks were aborted, and are awaited. -/
  | draining
  | exited
deriving DecidableEq

/-- What has come over the readiness channel; a dropped sender is a failure. -/
inductive Signal where
  | pending
  | ready
  | failed
deriving DecidableEq

/-- The task that does the work of a client thread, `run_ingest` or `run_executor`.  Its units are
an iteration and a batch. -/
inductive Worker where
  | idle
  | busy
  | ended
  /-- It was aborted in the middle of a unit. -/
  | cut
deriving DecidableEq

/-- A worker that is aborted. -/
def Worker.abort : Worker → Worker
  | .idle => .ended
  | .busy => .cut
  | .ended => .ended
  | .cut => .cut

/-- How `start` returns. -/
inductive Outcome where
  | setupFailed (step : Setup)
  | stopped
  | startupFailed
  | routerFailed
  /-- A thread could not be spawned, other than the router's. -/
  | spawnFailed (t : Thread)
deriving DecidableEq

/-- Where `start` is. -/
inductive Main where
  | preparing (left : List Setup)
  | spawning (left : List Thread)
  | gate (left : List Thread)
  | running
  | joining (left : List Thread) (outcome : Outcome)
  | returned (outcome : Outcome)

/-- The tasks of the main thread run only while `start` waits. -/
def Main.Awaits : Main → Prop
  | .preparing _ => False
  | .spawning _ => False
  | .returned _ => False
  | _ => True

structure System where
  main : Main
  cancelled : Bool
  stage : Thread → Stage
  signal : Thread → Signal
  worker : Thread → Worker
  /-- The other task of a client thread has ended. -/
  helperEnded : Thread → Bool
  taskEnded : Task → Bool

/-- Nothing is done yet. -/
def boot : System where
  main := .preparing setups
  cancelled := false
  stage := fun _ => .unspawned
  signal := fun _ => .pending
  worker := fun _ => .idle
  helperEnded := fun _ => false
  taskEnded := fun _ => false

inductive Event where
  /-- Ctrl-C, or whoever else holds the token. -/
  | cancel
  | prepared (step : Setup)
  | setupFailed (step : Setup)
  | allPrepared
  | spawned (t : Thread)
  | allSpawned
  | spawnFailed (t : Thread)
  | readySeen (t : Thread)
  | startupFailed (t : Thread)
  | started
  | stopped
  | joined (t : Thread)
  | returned
  | taskEnds (task : Task) (cancels : Bool)
  | built (t : Thread)
  | buildFailed (t : Thread)
  | unitStarts (t : Thread)
  | unitEnds (t : Thread)
  | workerEnds (t : Thread)
  | helperEnds (t : Thread)
  | drained (t : Thread)
  | exits (t : Thread)
deriving DecidableEq

/-- **The steps of the process.** -/
inductive Step (routerEnabled : Bool) : System → Event → System → Prop
  | cancel {s : System} : Step routerEnabled s .cancel { s with cancelled := true }
  | prepared {s : System} {step : Setup} {left : List Setup}
      (preparing : s.main = .preparing (step :: left)) :
      Step routerEnabled s (.prepared step) { s with main := .preparing left }
  /-- The error is returned at once, and the token is not cancelled. -/
  | setupFailed {s : System} {step : Setup} {left : List Setup}
      (preparing : s.main = .preparing (step :: left)) :
      Step routerEnabled s (.setupFailed step) { s with main := .returned (.setupFailed step) }
  /-- The tasks of the main thread are spawned, and the threads come next. -/
  | allPrepared {s : System} (preparing : s.main = .preparing []) :
      Step routerEnabled s .allPrepared { s with main := .spawning (threads routerEnabled) }
  | spawned {s : System} {t : Thread} {left : List Thread}
      (spawning : s.main = .spawning (t :: left)) :
      Step routerEnabled s (.spawned t)
        { s with main := .spawning left, stage := Function.update s.stage t .building }
  | allSpawned {s : System} (spawning : s.main = .spawning []) :
      Step routerEnabled s .allSpawned { s with main := .gate (threads routerEnabled) }
  /-- The error is returned at once. -/
  | spawnFailed {s : System} {t : Thread} {left : List Thread}
      (spawning : s.main = .spawning (t :: left)) (not_router : t ≠ .router) :
      Step routerEnabled s (.spawnFailed t) { s with main := .returned (.spawnFailed t) }
  /-- For the router, the other threads are stopped first. -/
  | routerFailed {s : System} {left : List Thread}
      (spawning : s.main = .spawning (.router :: left)) :
      Step routerEnabled s (.spawnFailed .router)
        { s with cancelled := true, main := .joining (threads false) .routerFailed }
  | readySeen {s : System} {t : Thread} {left : List Thread} (gate : s.main = .gate (t :: left))
      (ready : s.signal t = .ready) :
      Step routerEnabled s (.readySeen t) { s with main := .gate left }
  | startupFailed {s : System} {t : Thread} {left : List Thread} (gate : s.main = .gate (t :: left))
      (failed : s.signal t = .failed) :
      Step routerEnabled s (.startupFailed t)
        { s with cancelled := true, main := .joining (threads routerEnabled) .startupFailed }
  | started {s : System} (gate : s.main = .gate []) :
      Step routerEnabled s .started { s with main := .running }
  /-- The `select!` on the token and on the tasks. -/
  | stopped {s : System} (running : s.main = .running)
      (cause : s.cancelled = true ∨ ∃ task, s.taskEnded task = true) :
      Step routerEnabled s .stopped
        { s with cancelled := true, main := .joining (threads routerEnabled) .stopped }
  | joined {s : System} {t : Thread} {left : List Thread} {outcome : Outcome}
      (joining : s.main = .joining (t :: left) outcome) (exited : s.stage t = .exited) :
      Step routerEnabled s (.joined t) { s with main := .joining left outcome }
  | returned {s : System} {outcome : Outcome} (joining : s.main = .joining [] outcome) :
      Step routerEnabled s .returned { s with main := .returned outcome }
  /-- The admin task cancels the token if its port cannot be bound or its server fails. -/
  | taskEnds {s : System} (task : Task) (cancels : Bool) (awaits : s.main.Awaits)
      (admin : cancels = true → task = .admin) :
      Step routerEnabled s (.taskEnds task cancels)
        { s with
          cancelled := s.cancelled || cancels
          taskEnded := Function.update s.taskEnded task true }
  | built {s : System} {t : Thread} (building : s.stage t = .building) :
      Step routerEnabled s (.built t)
        { s with
          stage := Function.update s.stage t .running
          signal := Function.update s.signal t .ready }
  | buildFailed {s : System} {t : Thread} (building : s.stage t = .building) :
      Step routerEnabled s (.buildFailed t)
        { s with
          stage := Function.update s.stage t .exited
          signal := Function.update s.signal t .failed }
  | unitStarts {s : System} {t : Thread} (client : t.IsClient) (running : s.stage t = .running)
      (idle : s.worker t = .idle) :
      Step routerEnabled s (.unitStarts t) { s with worker := Function.update s.worker t .busy }
  | unitEnds {s : System} {t : Thread} (client : t.IsClient) (running : s.stage t = .running)
      (busy : s.worker t = .busy) :
      Step routerEnabled s (.unitEnds t) { s with worker := Function.update s.worker t .idle }
  /-- It sees the token, its channel is closed, or it panics. -/
  | workerEnds {s : System} {t : Thread} (client : t.IsClient) (running : s.stage t = .running)
      (alive : s.worker t = .idle ∨ s.worker t = .busy) :
      Step routerEnabled s (.workerEnds t) { s with worker := Function.update s.worker t .ended }
  | helperEnds {s : System} {t : Thread} (client : t.IsClient) (running : s.stage t = .running) :
      Step routerEnabled s (.helperEnds t)
        { s with helperEnded := Function.update s.helperEnded t true }
  /-- The `select!` of a client thread, and what follows it. -/
  | drained {s : System} {t : Thread} (client : t.IsClient) (running : s.stage t = .running)
      (cause : s.cancelled = true ∨ s.worker t = .ended ∨ s.helperEnded t = true) :
      Step routerEnabled s (.drained t)
        { s with
          cancelled := true
          stage := Function.update s.stage t .draining
          worker := Function.update s.worker t (s.worker t).abort
          helperEnded := Function.update s.helperEnded t true }
  | clientExits {s : System} {t : Thread} (client : t.IsClient) (draining : s.stage t = .draining) :
      Step routerEnabled s (.exits t) { s with stage := Function.update s.stage t .exited }
  /-- It is cancelled, or fails. -/
  | serverExits {s : System} {t : Thread} (server : ¬ t.IsClient) (running : s.stage t = .running) :
      Step routerEnabled s (.exits t) { s with stage := Function.update s.stage t .exited }

/-- The threads that are joined before `start` returns. -/
def Outcome.joins (routerEnabled : Bool) : Outcome → List Thread
  | .stopped => threads routerEnabled
  | .startupFailed => threads routerEnabled
  | .routerFailed => threads false
  | .setupFailed _ => []
  | .spawnFailed _ => []

/-- `start` returns after it has cancelled the token and joined the threads. -/
def Outcome.Orderly : Outcome → Prop
  | .setupFailed _ => False
  | .spawnFailed _ => False
  | _ => True

/-- What makes the solver stop: the token is cancelled from outside, a task of the main thread or
of a client thread ends, or the start-up fails. -/
def Event.IsCause : Event → Prop
  | .cancel => True
  | .taskEnds _ _ => True
  | .workerEnds _ => True
  | .helperEnds _ => True
  | .startupFailed _ => True
  | .spawnFailed t => t = .router
  | _ => False

/-- Something of this kind happened while the token was not cancelled. -/
def Caused (history : List (System × Event)) : Prop :=
  ∃ x ∈ history, x.1.cancelled = false ∧ x.2.IsCause

theorem Caused.mono {history later : List (System × Event)} (h : Caused history) :
    Caused (history ++ later) := by
  obtain ⟨x, hx, hcause⟩ := h
  exact ⟨x, List.mem_append_left _ hx, hcause⟩

/-! ## Where `start` is -/

/-- These are the threads that were spawned. -/
def System.Spawned (s : System) (ts : List Thread) : Prop := ∀ t, s.stage t ≠ .unspawned ↔ t ∈ ts

/-- **What is known of the threads**, by the position of `start`. -/
inductive Position (routerEnabled : Bool) (s : System) : Prop
  | preparing {left : List Setup} (main : s.main = .preparing left) (spawned : s.Spawned [])
  | setupFailed {step : Setup} (main : s.main = .returned (.setupFailed step))
      (spawned : s.Spawned [])
  | spawning {left : List Thread} (main : s.main = .spawning left) (done : List Thread)
      (split : threads routerEnabled = done ++ left) (spawned : s.Spawned done)
  | gate {left : List Thread} (main : s.main = .gate left) (done : List Thread)
      (split : threads routerEnabled = done ++ left) (spawned : s.Spawned (threads routerEnabled))
      (ready : ∀ t ∈ done, s.signal t = .ready)
  | running (main : s.main = .running) (spawned : s.Spawned (threads routerEnabled))
      (ready : ∀ t ∈ threads routerEnabled, s.signal t = .ready)
  | joining {left : List Thread} {outcome : Outcome} (main : s.main = .joining left outcome)
      (done : List Thread) (known : outcome.Orderly)
      (split : outcome.joins routerEnabled = done ++ left)
      (spawned : s.Spawned (outcome.joins routerEnabled)) (cancelled : s.cancelled = true)
      (exited : ∀ t ∈ done, s.stage t = .exited)
  | returned {outcome : Outcome} (main : s.main = .returned outcome)
      (known : outcome.Orderly) (spawned : s.Spawned (outcome.joins routerEnabled))
      (cancelled : s.cancelled = true)
      (exited : ∀ t ∈ outcome.joins routerEnabled, s.stage t = .exited)
  | spawnFailed {left : List Thread} {t : Thread} (main : s.main = .returned (.spawnFailed t))
      (done : List Thread) (split : threads routerEnabled = done ++ t :: left)
      (spawned : s.Spawned done)

/-- What the steps of the threads and tasks leave as it is. -/
structure Later (s s' : System) : Prop where
  main : s'.main = s.main
  cancelled : s.cancelled = true → s'.cancelled = true
  spawned : ∀ t, s'.stage t = .unspawned ↔ s.stage t = .unspawned
  exited : ∀ t, s.stage t = .exited → s'.stage t = .exited
  ready : ∀ t, s.signal t = .ready → s'.signal t = .ready

theorem Later.spawnedIn {s s' : System} (h : Later s s') {ts : List Thread} (hs : s.Spawned ts) :
    s'.Spawned ts := by
  intro t
  rw [Ne, h.spawned]
  exact hs t

section Invariant
variable {routerEnabled : Bool} {s s' : System} {e : Event}

theorem Position.later (h : Position routerEnabled s) (hlater : Later s s') :
    Position routerEnabled s' := by
  cases h with
  | preparing main spawned =>
    exact .preparing (hlater.main.trans main) (hlater.spawnedIn spawned)
  | setupFailed main spawned =>
    exact .setupFailed (hlater.main.trans main) (hlater.spawnedIn spawned)
  | spawning main done split spawned =>
    exact .spawning (hlater.main.trans main) done split (hlater.spawnedIn spawned)
  | gate main done split spawned ready =>
    exact .gate (hlater.main.trans main) done split (hlater.spawnedIn spawned)
      fun t ht => hlater.ready t (ready t ht)
  | running main spawned ready =>
    exact .running (hlater.main.trans main) (hlater.spawnedIn spawned)
      fun t ht => hlater.ready t (ready t ht)
  | joining main done known split spawned cancelled exited =>
    exact .joining (hlater.main.trans main) done known split (hlater.spawnedIn spawned)
      (hlater.cancelled cancelled) fun t ht => hlater.exited t (exited t ht)
  | returned main known spawned cancelled exited =>
    exact .returned (hlater.main.trans main) known (hlater.spawnedIn spawned)
      (hlater.cancelled cancelled) fun t ht => hlater.exited t (exited t ht)
  | spawnFailed main done split spawned =>
    exact .spawnFailed (hlater.main.trans main) done split (hlater.spawnedIn spawned)

/-- A thread goes on to another stage. -/
theorem later_update {t : Thread} {stage : Stage} {signal : Thread → Signal} {cancelled : Bool}
    {worker : Thread → Worker} {helperEnded : Thread → Bool}
    (hbefore : s.stage t ≠ .unspawned ∧ s.stage t ≠ .exited) (hafter : stage ≠ .unspawned)
    (hcancelled : s.cancelled = true → cancelled = true)
    (hready : ∀ u, s.signal u = .ready → signal u = .ready) :
    Later s ⟨s.main, cancelled, Function.update s.stage t stage, signal, worker, helperEnded,
      s.taskEnded⟩ := by
  refine ⟨rfl, hcancelled, fun u => ?_, fun u hu => ?_, hready⟩
  · show Function.update s.stage t stage u = .unspawned ↔ _
    by_cases hut : u = t
    · subst hut
      rw [Function.update_self]
      exact iff_of_false hafter hbefore.1
    · rw [Function.update_of_ne hut]
  · show Function.update s.stage t stage u = .exited
    by_cases hut : u = t
    · subst hut
      exact absurd hu hbefore.2
    · rw [Function.update_of_ne hut]
      exact hu

theorem ready_update {t : Thread} {signal : Signal} (hpending : s.signal t ≠ .ready) :
    ∀ u, s.signal u = .ready → Function.update s.signal t signal u = .ready := by
  intro u hu
  have hut : u ≠ t := by
    rintro rfl
    exact hpending hu
  rw [Function.update_of_ne hut]
  exact hu

/-- A thread that is not ready yet has reported nothing. -/
def System.Unreported (s : System) : Prop :=
  ∀ t, s.stage t = .unspawned ∨ s.stage t = .building → s.signal t = .pending

/-- The router comes last. -/
theorem before_router {done left : List Thread}
    (h : threads routerEnabled = done ++ .router :: left) : done = threads false := by
  cases routerEnabled with
  | false =>
    have hmem : Thread.router ∈ threads false := by
      rw [h]
      simp
    exact absurd hmem (by decide)
  | true =>
    have hsplit : threads false ++ .router :: [] = done ++ .router :: left := h
    exact ((List.append_cons_inj_of_notMem (by decide) (by decide)).mp hsplit).1.symm

/-- **A step keeps the position.** -/
theorem Position.step (h : Position routerEnabled s) (hunreported : s.Unreported)
    (hstep : Step routerEnabled s e s') : Position routerEnabled s' := by
  cases hstep with
  | cancel => exact h.later ⟨rfl, fun _ => rfl, fun _ => Iff.rfl, fun _ ht => ht, fun _ ht => ht⟩
  | prepared hmain =>
    cases h with
    | preparing main spawned => exact .preparing rfl spawned
    | _ main => cases main.symm.trans hmain
  | setupFailed hmain =>
    cases h with
    | preparing main spawned => exact .setupFailed rfl spawned
    | _ main => cases main.symm.trans hmain
  | allPrepared hmain =>
    cases h with
    | preparing main spawned => exact .spawning rfl [] rfl spawned
    | _ main => cases main.symm.trans hmain
  | @spawned t left hmain =>
    cases h with
    | spawning main done split spawned =>
      cases main.symm.trans hmain
      refine .spawning rfl (done ++ [t]) (by simp [split]) fun u => ?_
      show Function.update s.stage t .building u ≠ .unspawned ↔ u ∈ done ++ [t]
      by_cases hut : u = t
      · subst hut
        simp
      · simp only [Function.update_of_ne hut, List.mem_append, List.mem_singleton, hut, or_false]
        exact spawned u
    | _ main => cases main.symm.trans hmain
  | allSpawned hmain =>
    cases h with
    | spawning main done split spawned =>
      cases main.symm.trans hmain
      rw [List.append_nil] at split
      exact .gate rfl [] rfl (split ▸ spawned) nofun
    | _ main => cases main.symm.trans hmain
  | spawnFailed hmain _ =>
    cases h with
    | spawning main done split spawned =>
      cases main.symm.trans hmain
      exact .spawnFailed rfl done split spawned
    | _ main => cases main.symm.trans hmain
  | @routerFailed left hmain =>
    cases h with
    | spawning main done split spawned =>
      cases main.symm.trans hmain
      obtain rfl := before_router split
      exact .joining rfl [] trivial rfl spawned rfl nofun
    | _ main => cases main.symm.trans hmain
  | @readySeen t left hmain hready =>
    cases h with
    | gate main done split spawned ready =>
      cases main.symm.trans hmain
      refine .gate rfl (done ++ [t]) (by simp [split]) spawned fun u hu => ?_
      rcases List.mem_append.mp hu with hold | hnew
      · exact ready u hold
      · exact List.mem_singleton.mp hnew ▸ hready
    | _ main => cases main.symm.trans hmain
  | startupFailed hmain _ =>
    cases h with
    | gate main done split spawned _ =>
      exact .joining rfl [] trivial rfl spawned rfl nofun
    | _ main => cases main.symm.trans hmain
  | started hmain =>
    cases h with
    | gate main done split spawned ready =>
      cases main.symm.trans hmain
      rw [List.append_nil] at split
      exact .running rfl spawned (split ▸ ready)
    | _ main => cases main.symm.trans hmain
  | stopped hmain _ =>
    cases h with
    | running main spawned _ => exact .joining rfl [] trivial rfl spawned rfl nofun
    | _ main => cases main.symm.trans hmain
  | @joined t left outcome hmain hexited =>
    cases h with
    | joining main done known split spawned cancelled exited =>
      cases main.symm.trans hmain
      refine .joining rfl (done ++ [t]) known (by simp [split]) spawned cancelled
        fun u hu => ?_
      rcases List.mem_append.mp hu with hold | hnew
      · exact exited u hold
      · exact List.mem_singleton.mp hnew ▸ hexited
    | _ main => cases main.symm.trans hmain
  | returned hmain =>
    cases h with
    | joining main done known split spawned cancelled exited =>
      cases main.symm.trans hmain
      rw [List.append_nil] at split
      exact .returned rfl known spawned cancelled (split ▸ exited)
    | _ main => cases main.symm.trans hmain
  | taskEnds task cancels _ _ =>
    exact h.later ⟨rfl, fun hc => by simp [hc], fun _ => Iff.rfl, fun _ ht => ht, fun _ ht => ht⟩
  | built hbuilding =>
    refine h.later (later_update (by simp [hbuilding]) nofun id (ready_update ?_))
    rw [hunreported _ (Or.inr hbuilding)]
    exact nofun
  | buildFailed hbuilding =>
    refine h.later (later_update (by simp [hbuilding]) nofun id (ready_update ?_))
    rw [hunreported _ (Or.inr hbuilding)]
    exact nofun
  | unitStarts _ _ _ =>
    exact h.later ⟨rfl, id, fun _ => Iff.rfl, fun _ ht => ht, fun _ ht => ht⟩
  | unitEnds _ _ _ => exact h.later ⟨rfl, id, fun _ => Iff.rfl, fun _ ht => ht, fun _ ht => ht⟩
  | workerEnds _ _ _ => exact h.later ⟨rfl, id, fun _ => Iff.rfl, fun _ ht => ht, fun _ ht => ht⟩
  | helperEnds _ _ => exact h.later ⟨rfl, id, fun _ => Iff.rfl, fun _ ht => ht, fun _ ht => ht⟩
  | drained _ hrunning _ =>
    exact h.later (later_update (by simp [hrunning]) nofun (fun _ => rfl) fun _ ht => ht)
  | clientExits _ hdraining =>
    exact h.later (later_update (by simp [hdraining]) nofun id fun _ ht => ht)
  | serverExits _ hrunning =>
    exact h.later (later_update (by simp [hrunning]) nofun id fun _ ht => ht)

/-- Nothing has ended, and the token is not cancelled. -/
structure System.Quiet (s : System) : Prop where
  cancelled : s.cancelled = false
  task : ∀ task, s.taskEnded task = false
  worker : ∀ t, s.worker t = .idle ∨ s.worker t = .busy
  helper : ∀ t, s.helperEnded t = false
  client : ∀ t, t.IsClient → s.stage t ≠ .draining ∧ (s.stage t = .exited → s.signal t = .failed)

/-- A thread goes on to a stage that disturbs nothing. -/
theorem System.Quiet.client_update (h : s.Quiet) {t : Thread} {stage : Stage}
    {signal : Thread → Signal} (hothers : ∀ u, u ≠ t → signal u = s.signal u)
    (hstage : t.IsClient → stage ≠ .draining ∧ (stage = .exited → signal t = .failed))
    (u : Thread) (hu : u.IsClient) : Function.update s.stage t stage u ≠ .draining ∧
      (Function.update s.stage t stage u = .exited → signal u = .failed) := by
  by_cases hut : u = t
  · subst hut
    rw [Function.update_self]
    exact hstage hu
  · rw [Function.update_of_ne hut, hothers u hut]
    exact h.client u hu

theorem System.Quiet.worker_update (h : s.Quiet) {t : Thread} {worker : Worker}
    (hnew : worker = .idle ∨ worker = .busy) (u : Thread) :
    Function.update s.worker t worker u = .idle ∨ Function.update s.worker t worker u = .busy := by
  by_cases hut : u = t
  · subst hut
    rw [Function.update_self]
    exact hnew
  · rw [Function.update_of_ne hut]
    exact h.worker u

/-- **The first disturbance is a cause.** -/
theorem System.Quiet.step (h : s.Quiet) (hstep : Step routerEnabled s e s') :
    e.IsCause ∨ s'.Quiet := by
  cases hstep with
  | cancel => exact Or.inl trivial
  | prepared _ => exact Or.inr ⟨h.cancelled, h.task, h.worker, h.helper, h.client⟩
  | setupFailed _ => exact Or.inr ⟨h.cancelled, h.task, h.worker, h.helper, h.client⟩
  | allPrepared _ => exact Or.inr ⟨h.cancelled, h.task, h.worker, h.helper, h.client⟩
  | spawned _ =>
    exact Or.inr ⟨h.cancelled, h.task, h.worker, h.helper,
      h.client_update (fun _ _ => rfl) fun _ => ⟨nofun, nofun⟩⟩
  | allSpawned _ => exact Or.inr ⟨h.cancelled, h.task, h.worker, h.helper, h.client⟩
  | spawnFailed _ _ => exact Or.inr ⟨h.cancelled, h.task, h.worker, h.helper, h.client⟩
  | routerFailed _ => exact Or.inl rfl
  | readySeen _ _ => exact Or.inr ⟨h.cancelled, h.task, h.worker, h.helper, h.client⟩
  | startupFailed _ _ => exact Or.inl trivial
  | started _ => exact Or.inr ⟨h.cancelled, h.task, h.worker, h.helper, h.client⟩
  | stopped _ hcause =>
    rcases hcause with hcancelled | ⟨task, htask⟩
    · cases h.cancelled.symm.trans hcancelled
    · cases (h.task task).symm.trans htask
  | joined _ _ => exact Or.inr ⟨h.cancelled, h.task, h.worker, h.helper, h.client⟩
  | returned _ => exact Or.inr ⟨h.cancelled, h.task, h.worker, h.helper, h.client⟩
  | taskEnds _ _ _ _ => exact Or.inl trivial
  | built _ =>
    exact Or.inr ⟨h.cancelled, h.task, h.worker, h.helper,
      h.client_update (fun _ hu => Function.update_of_ne hu _ _) fun _ => ⟨nofun, nofun⟩⟩
  | buildFailed _ =>
    exact Or.inr ⟨h.cancelled, h.task, h.worker, h.helper,
      h.client_update (fun _ hu => Function.update_of_ne hu _ _)
        fun _ => ⟨nofun, fun _ => Function.update_self ..⟩⟩
  | unitStarts _ _ _ =>
    exact Or.inr ⟨h.cancelled, h.task, h.worker_update (Or.inr rfl), h.helper, h.client⟩
  | unitEnds _ _ _ =>
    exact Or.inr ⟨h.cancelled, h.task, h.worker_update (Or.inl rfl), h.helper, h.client⟩
  | workerEnds _ _ _ => exact Or.inl trivial
  | helperEnds _ _ => exact Or.inl trivial
  | @drained t _ _ hcause =>
    rcases hcause with hcancelled | hended | hhelper
    · cases h.cancelled.symm.trans hcancelled
    · rcases h.worker t with hidle | hbusy
      · cases hidle.symm.trans hended
      · cases hbusy.symm.trans hended
    · cases (h.helper t).symm.trans hhelper
  | @clientExits t hclient hdraining => exact absurd hdraining (h.client t hclient).1
  | serverExits hserver _ =>
    exact Or.inr ⟨h.cancelled, h.task, h.worker, h.helper,
      h.client_update (fun _ _ => rfl) fun hclient => absurd hclient hserver⟩

/-- Threads that drain are client threads. -/
def System.Drains (s : System) : Prop := ∀ t, s.stage t = .draining → t.IsClient

/-- **The invariant.** -/
structure Inv (routerEnabled : Bool) (history : List (System × Event)) (s : System) : Prop where
  position : Position routerEnabled s
  unreported : s.Unreported
  draining : s.Drains
  cause : Caused history ∨ s.Quiet

theorem inv_boot (routerEnabled : Bool) : Inv routerEnabled [] boot where
  position := .preparing rfl fun t => by simp [boot]
  unreported := fun _ _ => rfl
  draining := nofun
  cause := Or.inr ⟨rfl, fun _ => rfl, fun _ => Or.inl rfl, fun _ => rfl, fun _ _ => ⟨nofun, nofun⟩⟩

/-- The next thread to be spawned is not spawned yet. -/
theorem Position.next_unspawned (h : Position routerEnabled s) {t : Thread} {left : List Thread}
    (hmain : s.main = .spawning (t :: left)) : s.stage t = .unspawned := by
  cases h with
  | spawning main done split spawned =>
    cases main.symm.trans hmain
    have hnodup : (done ++ t :: left).Nodup := by
      rw [← split]
      cases routerEnabled <;> decide
    by_contra hne
    exact (List.nodup_append.mp hnodup).2.2 t ((spawned t).mp hne) t (List.mem_cons_self ..) rfl
  | _ main => cases main.symm.trans hmain

/-- A thread that goes on and has reported is not asked about. -/
theorem unreported_update {t : Thread} {stage : Stage} {signal : Thread → Signal}
    (h : s.Unreported) (hothers : ∀ u, u ≠ t → signal u = s.signal u)
    (hstage : stage = .unspawned ∨ stage = .building → signal t = .pending) (u : Thread)
    (hu : Function.update s.stage t stage u = .unspawned ∨
      Function.update s.stage t stage u = .building) : signal u = .pending := by
  by_cases hut : u = t
  · subst hut
    rw [Function.update_self] at hu
    exact hstage hu
  · rw [Function.update_of_ne hut] at hu
    rw [hothers u hut]
    exact h u hu

theorem Inv.unreported_step {history : List (System × Event)} (h : Inv routerEnabled history s)
    (hstep : Step routerEnabled s e s') : s'.Unreported := by
  cases hstep with
  | spawned hmain =>
    refine unreported_update h.unreported (fun _ _ => rfl) fun _ => ?_
    exact h.unreported _ (Or.inl (h.position.next_unspawned hmain))
  | built _ =>
    exact unreported_update h.unreported (fun _ hu => Function.update_of_ne hu _ _) (by simp)
  | buildFailed _ =>
    exact unreported_update h.unreported (fun _ hu => Function.update_of_ne hu _ _) (by simp)
  | drained _ _ _ => exact unreported_update h.unreported (fun _ _ => rfl) (by simp)
  | clientExits _ _ => exact unreported_update h.unreported (fun _ _ => rfl) (by simp)
  | serverExits _ _ => exact unreported_update h.unreported (fun _ _ => rfl) (by simp)
  | _ => exact h.unreported

theorem draining_update {t : Thread} {stage : Stage} (h : s.Drains)
    (hstage : stage = .draining → t.IsClient)
    (u : Thread) (hu : Function.update s.stage t stage u = .draining) : u.IsClient := by
  by_cases hut : u = t
  · subst hut
    rw [Function.update_self] at hu
    exact hstage hu
  · rw [Function.update_of_ne hut] at hu
    exact h u hu

theorem Inv.draining_step {history : List (System × Event)} (h : Inv routerEnabled history s)
    (hstep : Step routerEnabled s e s') : s'.Drains := by
  cases hstep with
  | spawned _ => exact draining_update h.draining nofun
  | built _ => exact draining_update h.draining nofun
  | buildFailed _ => exact draining_update h.draining nofun
  | drained hclient _ _ => exact draining_update h.draining fun _ => hclient
  | clientExits _ _ => exact draining_update h.draining nofun
  | serverExits _ _ => exact draining_update h.draining nofun
  | _ => exact h.draining

theorem Inv.step {history : List (System × Event)} (h : Inv routerEnabled history s)
    (hstep : Step routerEnabled s e s') : Inv routerEnabled (history ++ [(s, e)]) s' where
  position := h.position.step h.unreported hstep
  unreported := h.unreported_step hstep
  draining := h.draining_step hstep
  cause := by
    rcases h.cause with hcaused | hquiet
    · exact Or.inl hcaused.mono
    · rcases hquiet.step hstep with hcause | hquiet'
      · exact Or.inl ⟨(s, e), List.mem_append_right _ (List.mem_singleton_self _),
          hquiet.cancelled, hcause⟩
      · exact Or.inr hquiet'

theorem inv_of_run {history : List (System × Event)}
    (hrun : Run (Step routerEnabled) unguarded boot history s) :
    Inv routerEnabled history s :=
  hrun.invariant (inv_boot routerEnabled) fun h _ hstep => h.step hstep

end Invariant

/-- **Start-up and shutdown**, over every interleaving of `start`, its tasks and its threads:

* the solver runs only when all threads have reported that they are ready;
* when `start` returns, the token is cancelled and every thread that was spawned has ended, with
  two exceptions.  If the database, the price client or the pairs cannot be set up, no thread was
  spawned.  If a thread other than the router's cannot be spawned, the threads spawned before it
  are left to themselves;
* the token is cancelled only for a cause, and a client thread that was ready ends only for one: the
  end of the price API or of the router is none. -/
theorem lifecycle {routerEnabled : Bool} {history : List (System × Event)} {s : System}
    (hrun : Run (Step routerEnabled) unguarded boot history s) :
    (s.main = .running → ∀ t ∈ threads routerEnabled, s.signal t = .ready) ∧
    (∀ outcome, s.main = .returned outcome → (∀ step, outcome ≠ .setupFailed step) →
      (∀ t, outcome ≠ .spawnFailed t) →
      s.cancelled = true ∧ ∀ t, s.stage t = .unspawned ∨ s.stage t = .exited) ∧
    (∀ step, s.main = .returned (.setupFailed step) → ∀ t, s.stage t = .unspawned) ∧
    (∀ t, s.main = .returned (.spawnFailed t) → ∃ done left,
      threads routerEnabled = done ++ t :: left ∧ ∀ t', s.stage t' ≠ .unspawned ↔ t' ∈ done) ∧
    (s.cancelled = true → Caused history) ∧
    ∀ t, t.IsClient → s.stage t = .exited → s.signal t = .ready → Caused history := by
  have hinv := inv_of_run hrun
  refine ⟨fun hmain => ?_, fun outcome hmain hsetup hspawn => ?_, fun step hmain t => ?_,
    fun t hmain => ?_, fun hcancelled => ?_, fun t hclient hexited hready => ?_⟩
  · cases hinv.position with
    | running _ _ ready => exact ready
    | _ main => cases main.symm.trans hmain
  · cases hinv.position with
    | returned main _ spawned cancelled exited =>
      cases main.symm.trans hmain
      refine ⟨cancelled, fun t => ?_⟩
      by_cases hunspawned : s.stage t = .unspawned
      · exact Or.inl hunspawned
      · exact Or.inr (exited t ((spawned t).mp hunspawned))
    | setupFailed main =>
      cases main.symm.trans hmain
      exact absurd rfl (hsetup _)
    | spawnFailed main =>
      cases main.symm.trans hmain
      exact absurd rfl (hspawn _)
    | _ main => cases main.symm.trans hmain
  · cases hinv.position with
    | setupFailed main spawned =>
      by_contra hspawned
      cases (spawned t).mp hspawned
    | returned main known =>
      cases main.symm.trans hmain
      exact known.elim
    | _ main => cases main.symm.trans hmain
  · cases hinv.position with
    | spawnFailed main done split spawned =>
      cases main.symm.trans hmain
      exact ⟨done, _, split, spawned⟩
    | returned main known =>
      cases main.symm.trans hmain
      exact known.elim
    | _ main => cases main.symm.trans hmain
  · rcases hinv.cause with hcaused | hquiet
    · exact hcaused
    · cases hquiet.cancelled.symm.trans hcancelled
  · rcases hinv.cause with hcaused | hquiet
    · exact hcaused
    · cases ((hquiet.client t hclient).2 hexited).symm.trans hready

/-- Everything is set up, and the first thread comes next. -/
theorem boot_prepared : ∃ history, Run (Step false) unguarded boot history
    { boot with main := .spawning (threads false) } := by
  have h₁ : Run (Step false) unguarded boot _ _ := Run.single (.prepared rfl)
  have h₂ := h₁.step trivial (.prepared rfl)
  have h₃ := h₂.step trivial (.prepared rfl)
  have h₄ := h₃.step trivial (.prepared rfl)
  exact ⟨_, h₄.step trivial (.allPrepared rfl)⟩

/-- `start` has returned, and the ingest thread runs on. -/
theorem ingest_left_running :
    ∃ history, ∃ s : System, Run (Step false) unguarded boot history s ∧
      s.main = .returned (.spawnFailed .executor) ∧ s.stage .ingest = .running ∧
      s.cancelled = false ∧ ∃ done left, threads false = done ++ .executor :: left ∧
        ∀ t, s.stage t ≠ .unspawned ↔ t ∈ done := by
  obtain ⟨_, h₀⟩ := boot_prepared
  have h₁ := h₀.step trivial (.spawned rfl)
  have h₂ := h₁.step trivial (.spawnFailed rfl (by decide))
  have h₃ := h₂.step trivial (.built (t := .ingest) rfl)
  exact ⟨_, _, h₃, rfl, rfl, rfl, (lifecycle h₃).2.2.2.1 .executor rfl⟩

/-! ## The shutdown -/

/-- How far a thread is from its end. -/
def Stage.rank : Stage → Nat
  | .unspawned => 0
  | .building => 3
  | .running => 2
  | .draining => 1
  | .exited => 0

/-- How far `start` is from its end, once it is past the gate. -/
def Main.rank (routerEnabled : Bool) : Main → Nat
  | .running => (threads routerEnabled).length + 2
  | .joining left _ => left.length + 1
  | _ => 0

/-- Sums up over the threads. -/
def overThreads (f : Thread → Nat) : Nat := f .ingest + f .executor + f .priceApi + f .router

/-- **How far the shutdown is from its end.** -/
def System.rank (routerEnabled : Bool) (s : System) : Nat :=
  s.main.rank routerEnabled + overThreads fun t => (s.stage t).rank

/-- A step that brings the shutdown forward. -/
def Event.Advances : Event → Prop
  | .stopped => True
  | .joined _ => True
  | .returned => True
  | .built _ => True
  | .buildFailed _ => True
  | .drained _ => True
  | .exits _ => True
  | _ => False

/-- `start` is about to stop, or joins the threads. -/
def System.ShuttingDown (s : System) : Prop :=
  s.main = .running ∧ s.cancelled = true ∨ ∃ left outcome, s.main = .joining left outcome

section Shutdown
variable {routerEnabled : Bool} {s s' : System} {e : Event}

/-- A thread goes on: what it is farther on, the sum is less. -/
theorem overThreads_update (stage : Thread → Stage) (t : Thread) (new : Stage) :
    overThreads (fun u => (Function.update stage t new u).rank) + (stage t).rank =
      overThreads (fun u => (stage u).rank) + new.rank := by
  cases t <;> simp [overThreads] <;> omega

/-- A step of a task or of a thread keeps the shutdown going. -/
theorem System.ShuttingDown.keeps (h : s.ShuttingDown) (hmain : s'.main = s.main)
    (hcancelled : s.cancelled = true → s'.cancelled = true) : s'.ShuttingDown := by
  rcases h with ⟨hrunning, hc⟩ | ⟨left, outcome, hjoining⟩
  · exact Or.inl ⟨hmain.trans hrunning, hcancelled hc⟩
  · exact Or.inr ⟨left, outcome, hmain.trans hjoining⟩

/-- In a shutdown `start` neither prepares nor spawns nor waits at the gate. -/
theorem System.ShuttingDown.past_gate (h : s.ShuttingDown) : (∀ left, s.main ≠ .preparing left) ∧
    (∀ left, s.main ≠ .spawning left) ∧ ∀ left, s.main ≠ .gate left := by
  rcases h with ⟨hmain, -⟩ | ⟨left, outcome, hmain⟩
  · rw [hmain]
    exact ⟨nofun, nofun, nofun⟩
  · rw [hmain]
    exact ⟨nofun, nofun, nofun⟩

/-- **No step takes the shutdown back**, and one that advances it brings it nearer to its end. -/
theorem System.ShuttingDown.step (h : s.ShuttingDown) (hstep : Step routerEnabled s e s') :
    (s'.ShuttingDown ∨ ∃ outcome, s'.main = .returned outcome) ∧
    s'.rank routerEnabled ≤ s.rank routerEnabled ∧
    (e.Advances → s'.rank routerEnabled < s.rank routerEnabled) := by
  obtain ⟨hpreparing, hspawning, hgate⟩ := h.past_gate
  -- a thread that goes on to a stage of lower rank
  have hmoves : ∀ t new, new.rank < (s.stage t).rank → s'.main = s.main →
      s'.stage = Function.update s.stage t new → (s.cancelled = true → s'.cancelled = true) →
      (s'.ShuttingDown ∨ ∃ outcome, s'.main = .returned outcome) ∧
      s'.rank routerEnabled ≤ s.rank routerEnabled ∧
      (e.Advances → s'.rank routerEnabled < s.rank routerEnabled) := by
    intro t new hlower hmain hstage hcancelled
    have hsum := overThreads_update s.stage t new
    have hrank : s'.rank routerEnabled < s.rank routerEnabled := by
      rw [System.rank, System.rank, hmain, hstage]
      omega
    exact ⟨Or.inl (h.keeps hmain hcancelled), Nat.le_of_lt hrank, fun _ => hrank⟩
  cases hstep with
  | cancel => exact ⟨Or.inl (h.keeps rfl fun _ => rfl), Nat.le_refl _, nofun⟩
  | prepared hmain => exact absurd hmain (hpreparing _)
  | setupFailed hmain => exact absurd hmain (hpreparing _)
  | allPrepared hmain => exact absurd hmain (hpreparing _)
  | spawned hmain => exact absurd hmain (hspawning _)
  | allSpawned hmain => exact absurd hmain (hspawning _)
  | spawnFailed hmain _ => exact absurd hmain (hspawning _)
  | routerFailed hmain => exact absurd hmain (hspawning _)
  | readySeen hmain _ => exact absurd hmain (hgate _)
  | startupFailed hmain _ => exact absurd hmain (hgate _)
  | started hmain => exact absurd hmain (hgate _)
  | stopped hmain _ =>
    have hrank : ∀ k, (threads routerEnabled).length + 1 + k <
        (threads routerEnabled).length + 2 + k := fun k => by omega
    rw [System.rank, System.rank, hmain]
    exact ⟨Or.inl (Or.inr ⟨_, _, rfl⟩), Nat.le_of_lt (hrank _), fun _ => hrank _⟩
  | @joined t left _ hmain _ =>
    have hrank : ∀ k, left.length + 1 + k < (t :: left).length + 1 + k := fun k => by
      rw [List.length_cons]
      omega
    rw [System.rank, System.rank, hmain]
    exact ⟨Or.inl (Or.inr ⟨_, _, rfl⟩), Nat.le_of_lt (hrank _), fun _ => hrank _⟩
  | returned hmain =>
    have hrank : ∀ k, 0 + k < 0 + 1 + k := fun k => by omega
    rw [System.rank, System.rank, hmain]
    exact ⟨Or.inr ⟨_, rfl⟩, Nat.le_of_lt (hrank _), fun _ => hrank _⟩
  | taskEnds _ _ _ _ =>
    exact ⟨Or.inl (h.keeps rfl fun hc => by simp [hc]), Nat.le_refl _, nofun⟩
  | @built t hstage => exact hmoves t .running (by rw [hstage]; decide) rfl rfl id
  | @buildFailed t hstage => exact hmoves t .exited (by rw [hstage]; decide) rfl rfl id
  | unitStarts _ _ _ => exact ⟨Or.inl (h.keeps rfl id), Nat.le_refl _, nofun⟩
  | unitEnds _ _ _ => exact ⟨Or.inl (h.keeps rfl id), Nat.le_refl _, nofun⟩
  | workerEnds _ _ _ => exact ⟨Or.inl (h.keeps rfl id), Nat.le_refl _, nofun⟩
  | helperEnds _ _ => exact ⟨Or.inl (h.keeps rfl id), Nat.le_refl _, nofun⟩
  | @drained t _ hstage _ => exact hmoves t .draining (by rw [hstage]; decide) rfl rfl fun _ => rfl
  | @clientExits t _ hstage => exact hmoves t .exited (by rw [hstage]; decide) rfl rfl id
  | @serverExits t _ hstage => exact hmoves t .exited (by rw [hstage]; decide) rfl rfl id

/-- **A thread can always go on** once the token is cancelled. -/
theorem Inv.thread_advances {history : List (System × Event)} (h : Inv routerEnabled history s)
    (hcancelled : s.cancelled = true) {t : Thread} (hspawned : s.stage t ≠ .unspawned)
    (halive : s.stage t ≠ .exited) : ∃ e s', Step routerEnabled s e s' ∧ e.Advances := by
  cases hstage : s.stage t with
  | unspawned => exact absurd hstage hspawned
  | building => exact ⟨_, _, .built hstage, trivial⟩
  | running =>
    by_cases hclient : t.IsClient
    · exact ⟨_, _, .drained hclient hstage (Or.inl hcancelled), trivial⟩
    · exact ⟨_, _, .serverExits hclient hstage, trivial⟩
  | draining => exact ⟨_, _, .clientExits (h.draining t hstage) hstage, trivial⟩
  | exited => exact absurd hstage halive

/-- **The shutdown does not get stuck.** -/
theorem Inv.advances {history : List (System × Event)} (h : Inv routerEnabled history s)
    (hdown : s.ShuttingDown) : ∃ e s', Step routerEnabled s e s' ∧ e.Advances := by
  rcases hdown with ⟨hmain, hcancelled⟩ | ⟨left, outcome, hmain⟩
  · exact ⟨_, _, .stopped hmain (Or.inl hcancelled), trivial⟩
  · cases left with
    | nil => exact ⟨_, _, .returned hmain, trivial⟩
    | cons t left =>
      by_cases hexited : s.stage t = .exited
      · exact ⟨_, _, .joined hmain hexited, trivial⟩
      · cases h.position with
        | joining main done _ split spawned cancelled _ =>
          cases main.symm.trans hmain
          refine h.thread_advances cancelled ((spawned t).mpr ?_) hexited
          rw [split]
          exact List.mem_append_right _ (List.mem_cons_self ..)
        | _ main => cases main.symm.trans hmain

/-- The unit of a client thread is cut off, or is going to be when the thread is taken down. -/
def System.Doomed (s : System) (t : Thread) : Prop :=
  s.worker t = .cut ∨ t.IsClient ∧ s.stage t = .running ∧ s.worker t = .busy

/-- **What taking down a thread leaves.** -/
structure TakenDown (s : System) (t : Thread) (s' : System) : Prop where
  main : s'.main = s.main
  cancelled : s'.cancelled = true
  exited : s'.stage t = .exited
  stage : ∀ u, u ≠ t → s'.stage u = s.stage u
  worker : ∀ u, u ≠ t → s'.worker u = s.worker u
  cut : s.Doomed t → s'.worker t = .cut

/-- **A thread can be taken down** without waiting for its tasks. -/
theorem takes_down (hcancelled : s.cancelled = true) (hdrains : s.Drains) {t : Thread}
    (hspawned : s.stage t ≠ .unspawned) :
    ∃ history s', Run (Step routerEnabled) unguarded s history s' ∧ TakenDown s t s' ∧
      ∀ x ∈ history, x.2.Advances := by
  have hnotRunning : ∀ {stage}, s.stage t = stage → stage ≠ .running → s.Doomed t →
      s.worker t = .cut := by
    intro stage hstage hne hdoomed
    rcases hdoomed with hcut | ⟨-, hrunning, -⟩
    · exact hcut
    · exact absurd (hstage.symm.trans hrunning) hne
  cases hstage : s.stage t with
  | unspawned => exact absurd hstage hspawned
  | building =>
    exact ⟨_, _, Run.single (.buildFailed hstage), ⟨rfl, hcancelled, Function.update_self ..,
      fun u hu => Function.update_of_ne hu _ _, fun _ _ => rfl, hnotRunning hstage nofun⟩,
      fun x hx => List.mem_singleton.mp hx ▸ trivial⟩
  | running =>
    by_cases hclient : t.IsClient
    · have h₁ : Run (Step routerEnabled) unguarded s _ _ :=
        Run.single (.drained hclient hstage (Or.inl hcancelled))
      have h₂ := h₁.step trivial (.clientExits hclient (Function.update_self ..))
      refine ⟨_, _, h₂, ⟨rfl, rfl, Function.update_self .., fun u hu => ?_, fun u hu => ?_,
        fun hdoomed => ?_⟩, fun x hx => ?_⟩
      · exact (Function.update_of_ne hu _ _).trans (Function.update_of_ne hu _ _)
      · exact Function.update_of_ne hu _ _
      · show Function.update s.worker t (s.worker t).abort t = .cut
        rw [Function.update_self]
        rcases hdoomed with hcut | ⟨-, -, hbusy⟩
        · rw [hcut]
          rfl
        · rw [hbusy]
          rfl
      · rcases List.mem_append.mp hx with hfirst | hlast
        · exact List.mem_singleton.mp hfirst ▸ trivial
        · exact List.mem_singleton.mp hlast ▸ trivial
    · refine ⟨_, _, Run.single (.serverExits hclient hstage), ⟨rfl, hcancelled,
        Function.update_self .., fun u hu => Function.update_of_ne hu _ _, fun _ _ => rfl, ?_⟩,
        fun x hx => List.mem_singleton.mp hx ▸ trivial⟩
      rintro (hcut | ⟨hnot, -⟩)
      · exact hcut
      · exact absurd hnot hclient
  | draining =>
    exact ⟨_, _, Run.single (.clientExits (hdrains t hstage) hstage), ⟨rfl, hcancelled,
      Function.update_self .., fun u hu => Function.update_of_ne hu _ _, fun _ _ => rfl,
      hnotRunning hstage nofun⟩, fun x hx => List.mem_singleton.mp hx ▸ trivial⟩
  | exited =>
    exact ⟨[], s, Run.start, ⟨rfl, hcancelled, hstage, fun _ _ => rfl, fun _ _ => rfl,
      hnotRunning hstage nofun⟩, List.forall_mem_nil _⟩

/-- **The threads are joined** one after the other, and what they were doing is cut off. -/
theorem joins_all {left : List Thread} {outcome : Outcome} (hmain : s.main = .joining left outcome)
    (hcancelled : s.cancelled = true) (hdrains : s.Drains)
    (hspawned : ∀ t ∈ left, s.stage t ≠ .unspawned) {u : Thread}
    (hu : s.worker u = .cut ∨ u ∈ left ∧ s.Doomed u) :
    ∃ history s', Run (Step routerEnabled) unguarded s history s' ∧ s'.main = .returned outcome ∧
      s'.worker u = .cut ∧ ∀ x ∈ history, x.2.Advances := by
  induction left generalizing s with
  | nil =>
    refine ⟨_, _, Run.single (.returned hmain), rfl, hu.resolve_right (by simp), fun x hx => ?_⟩
    exact List.mem_singleton.mp hx ▸ trivial
  | cons t left ih =>
    obtain ⟨history₁, s₁, hrun₁, hdown, hadvances₁⟩ : ∃ history s',
        Run (Step routerEnabled) unguarded s history s' ∧ TakenDown s t s' ∧
          ∀ x ∈ history, x.2.Advances :=
      takes_down hcancelled hdrains (hspawned t (List.mem_cons_self ..))
    have hjoined := hrun₁.step trivial (.joined (hdown.main.trans hmain) hdown.exited)
    -- the other threads are where they were
    have hstage : ∀ v, s₁.stage v = .exited ∨ s₁.stage v = s.stage v := by
      intro v
      by_cases hvt : v = t
      · exact Or.inl (hvt ▸ hdown.exited)
      · exact Or.inr (hdown.stage v hvt)
    have hdrains₁ : s₁.Drains := by
      intro v hv
      rcases hstage v with hexited | hsame
      · cases hexited.symm.trans hv
      · exact hdrains v (hsame.symm.trans hv)
    have hspawned₁ : ∀ v ∈ left, s₁.stage v ≠ .unspawned := by
      intro v hv hunspawned
      rcases hstage v with hexited | hsame
      · cases hexited.symm.trans hunspawned
      · exact hspawned v (List.mem_cons_of_mem _ hv) (hsame.symm.trans hunspawned)
    have hu₁ : s₁.worker u = .cut ∨ u ∈ left ∧ s₁.Doomed u := by
      by_cases hut : u = t
      · subst hut
        refine Or.inl (hdown.cut ?_)
        rcases hu with hcut | ⟨-, hdoomed⟩
        · exact Or.inl hcut
        · exact hdoomed
      · rw [System.Doomed, hdown.worker u hut, hdown.stage u hut]
        rcases hu with hcut | ⟨hmem, hdoomed⟩
        · exact Or.inl hcut
        · exact Or.inr ⟨(List.mem_cons.mp hmem).resolve_left hut, hdoomed⟩
    obtain ⟨history₂, s₂, hrun₂, hreturned, hcut, hadvances₂⟩ :=
      ih (s := { s₁ with main := .joining left outcome }) rfl hdown.cancelled hdrains₁ hspawned₁ hu₁
    refine ⟨_, s₂, Run.append hjoined hrun₂, hreturned, hcut, fun x hx => ?_⟩
    rcases List.mem_append.mp hx with hfirst | hlast
    · rcases List.mem_append.mp hfirst with hx₁ | hx₂
      · exact hadvances₁ x hx₁
      · exact List.mem_singleton.mp hx₂ ▸ trivial
    · exact hadvances₂ x hlast

end Shutdown

/-- **A shutdown comes to its end**: from the moment the token is cancelled in the running solver,
or the start-up has failed, some step always brings `start` nearer to its return, and no step takes
it back.  It does not wait for what the client threads are doing: in whatever state a running solver
is told to stop, an iteration of ingest or a batch of the executor that is under way can be cut off,
and `start` returns as after any other shutdown. -/
theorem shutdown_returns {routerEnabled : Bool} {history : List (System × Event)} {s : System}
    (hrun : Run (Step routerEnabled) unguarded boot history s) :
    (s.ShuttingDown → (∃ e s', Step routerEnabled s e s' ∧ e.Advances) ∧
      ∀ e s', Step routerEnabled s e s' →
        (s'.ShuttingDown ∨ ∃ outcome, s'.main = .returned outcome) ∧
        s'.rank routerEnabled ≤ s.rank routerEnabled ∧
        (e.Advances → s'.rank routerEnabled < s.rank routerEnabled)) ∧
    (s.main = .running → ∀ t, t.IsClient → s.stage t = .running → s.worker t = .busy →
      ∃ history' s', Run (Step routerEnabled) unguarded s history' s' ∧
        s'.main = .returned .stopped ∧ s'.worker t = .cut ∧
        ∀ x ∈ history', x.2 = .cancel ∨ x.2.Advances) := by
  have hinv := inv_of_run hrun
  refine ⟨fun hdown => ⟨hinv.advances hdown, fun e s' hstep => hdown.step hstep⟩, ?_⟩
  intro hmain t hclient hrunning hbusy
  have h₁ : Run (Step routerEnabled) unguarded s _ _ := Run.single .cancel
  have h₂ := h₁.step trivial (.stopped hmain (Or.inl rfl))
  have hmem : t ∈ threads routerEnabled := by
    rcases hclient with rfl | rfl
    · exact List.mem_append_left _ (by decide)
    · exact List.mem_append_left _ (by decide)
  have hspawned : ∀ u ∈ threads routerEnabled, s.stage u ≠ .unspawned := by
    cases hinv.position with
    | running _ spawned _ => exact fun u => (spawned u).mpr
    | _ main => cases main.symm.trans hmain
  obtain ⟨history', s', hrun', hreturned, hcut, hadvances⟩ := joins_all
    (s := { s with cancelled := true, main := .joining (threads routerEnabled) .stopped })
    rfl rfl hinv.draining hspawned (Or.inr ⟨hmem, Or.inr ⟨hclient, hrunning, hbusy⟩⟩)
  refine ⟨_, s', Run.append h₂ hrun', hreturned, hcut, fun x hx => ?_⟩
  rcases List.mem_append.mp hx with hfirst | hlast
  · rcases List.mem_append.mp hfirst with hx₁ | hx₂
    · exact Or.inl (List.mem_singleton.mp hx₁ ▸ rfl)
    · exact Or.inr (List.mem_singleton.mp hx₂ ▸ trivial)
  · exact Or.inr (hadvances x hlast)

/-- Ctrl-C in the middle of an iteration of ingest. -/
theorem iteration_cut_off :
    ∃ history, ∃ s s' : System, Run (Step false) unguarded boot history s ∧
      s.main = .running ∧ s.worker .ingest = .busy ∧
      ∃ history', Run (Step false) unguarded s history' s' ∧ s'.main = .returned .stopped ∧
        s'.worker .ingest = .cut := by
  obtain ⟨_, h₀⟩ := boot_prepared
  have h₁ := h₀.step trivial (.spawned rfl)
  have h₂ := h₁.step trivial (.spawned rfl)
  have h₃ := h₂.step trivial (.spawned rfl)
  have h₄ := h₃.step trivial (.allSpawned rfl)
  have h₅ := h₄.step trivial (.built (t := .ingest) rfl)
  have h₆ := h₅.step trivial (.built (t := .executor) rfl)
  have h₇ := h₆.step trivial (.built (t := .priceApi) rfl)
  have h₈ := h₇.step trivial (.readySeen rfl rfl)
  have h₉ := h₈.step trivial (.readySeen rfl rfl)
  have h₁₀ := h₉.step trivial (.readySeen rfl rfl)
  have h₁₁ := h₁₀.step trivial (.started rfl)
  have h₁₂ := h₁₁.step trivial (.unitStarts (t := .ingest) (Or.inl rfl) rfl rfl)
  obtain ⟨history', s', hrun, hreturned, hcut, -⟩ :=
    (shutdown_returns h₁₂).2 rfl .ingest (Or.inl rfl) rfl rfl
  exact ⟨_, _, s', h₁₂, rfl, rfl, history', hrun, hreturned, hcut⟩

end PswapSolver.Lifecycle
