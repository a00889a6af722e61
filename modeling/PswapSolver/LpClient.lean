import PswapSolver.Wire
import PswapSolver.Runs

/-! # The LP client

The model of `lp-sdk/src/client.rs`: one supervised connection to the router.  Posted quotes
wait in a queue that outlives every socket; the sender loop takes them off and writes them,
the reader loop turns frames into events, and the supervisor reconnects, with a growing
delay, when the link drops.

A posted message carries a serial that the source does not have, its number in the order of
posting, and sockets are numbered, the first one 0.  The steps are labelled, so that what was
posted, written and connected, and in which order, is read off a run.

What was queued during an outage is discarded once the new socket is there, before anything
is written to it (`no_stale_quote`).
-/
namespace PswapSolver.Lp
open Codecs Runs Wire

/-- What the client posts. -/
abbrev Msg := Wire.ClientMsg PswapSolver.Asset

/-- An error of the client. -/
inductive LpError where
  | authRejected
  | transport (reason : String)
  | closed (reason : String)
  | invalidQuote (reason : String)
  | protocol (code msg : String)
deriving DecidableEq

/-- The text of an error. -/
def LpError.display : LpError → String
  | authRejected => "router rejected authentication (check the token)"
  | transport reason => s!"transport error: {reason}"
  | closed reason => s!"connection closed: {reason}"
  | invalidQuote reason => s!"invalid quote: {reason}"
  | protocol code msg => s!"router error [{code}]: {msg}"

/-- What the client's owner sees of the connection. -/
inductive LpEvent (AccountId Note : Type) where
  | authOk
  | ask (pairs : List (PairSpec AccountId))
  | handover (note : Note) (fillAmount : UInt64)
  | error (err : LpError)
  | reconnecting (attempt : Nat)
  | reconnected
  | disconnected (reason : String)
deriving DecidableEq

variable {AccountId Note : Type}

def LpEvent.ofServerMsg : Wire.ServerMsg AccountId Note → LpEvent AccountId Note
  | .authOk => authOk
  | .ask pairs => ask pairs
  | .handover note fillAmount => handover note fillAmount
  | .error code msg => error (.protocol code msg)

/-- `LpSender::quote`: the message to be queued. -/
def LpSender.quote (closed : Bool) (offered requested : PswapSolver.Asset)
    (validForMs : Option UInt64) : Except LpError Msg :=
  if offered.amount = 0 ∨ requested.amount = 0 then
    .error (.invalidQuote "quote amounts must be > 0")
  else if closed then .error (.closed "client dropped; connection task gone")
  else .ok (.quote offered requested validForMs)

/-! ## The supervisor -/

/-- The delay before the first retry, the longest delay, and how long a connection stays up to
count as stable, all in milliseconds. -/
def RECONNECT_MIN : Nat := 500

def RECONNECT_MAX : Nat := 30000

def STABLE_UPTIME : Nat := 10000

/-- Where the supervisor stands. -/
inductive Stage where
  | starting
  /-- The sender loop waits for a message. -/
  | waiting
  /-- It has taken a message off the queue, and is about to write it. -/
  | sending (serial : Nat) (msg : Msg)
  /-- The message is written, and the socket is being flushed. -/
  | flushing
  | retrying
  | sleeping
  | connecting
  | draining
  | drained
  | stopped
deriving DecidableEq

/-- **The state of a client.**  `listening` says that its owner still takes events, `senders`
that somebody can still post. -/
structure Link (AccountId Note : Type) where
  queue : List (Nat × Msg)
  nextSerial : Nat
  listening : Bool
  senders : Bool
  stage : Stage
  socket : Nat
  attempt : Nat
  delay : Nat
  events : List (LpEvent AccountId Note)

/-- What happens in a step. -/
inductive LinkEvent where
  | start
  | post (serial : Nat) (msg : Msg)
  | refuse (err : LpError)
  | dropEvents
  | dropSenders
  | frame (bytes : Bytes)
  | take (serial : Nat)
  | write (socket serial : Nat) (frame : Bytes)
  | flushed
  | linkDown (uptimeMs : Nat)
  | stop
  | retry (attempt : Nat)
  | wake
  | connected (socket : Nat)
  | connectFailed (err : LpError)
  | discard (serial : Nat)
  | drained (socket : Nat)
  | reconnected (socket : Nat)
deriving DecidableEq

namespace Link

/-- The client once its first socket is established. -/
def new : Link AccountId Note where
  queue := []
  nextSerial := 0
  listening := true
  senders := true
  stage := .starting
  socket := 0
  attempt := 0
  delay := RECONNECT_MIN
  events := []

/-- Puts an event on the event channel, if somebody listens. -/
def emit (s : Link AccountId Note) (event : LpEvent AccountId Note) : Link AccountId Note :=
  if s.listening then { s with events := s.events ++ [event] } else s

/-- The reader loop on one frame. -/
def readFrame {Asset : Type} (c : Components AccountId Asset Note) (s : Link AccountId Note)
    (bytes : Bytes) : Link AccountId Note :=
  match readFromBytes (Wire.ServerMsg.readFrom c) bytes with
  | .ok .authOk => s
  | .ok m => s.emit (.ofServerMsg m)
  | .error _ => s

/-- `run_connection` is running. -/
def Live (s : Link AccountId Note) : Prop :=
  s.stage = .waiting ∨ (∃ n msg, s.stage = .sending n msg) ∨ s.stage = .flushing

/-- **The steps of a client.**  A reader that is being aborted may still finish its frame, so
frames are read at any stage once the owner has been greeted; it is done when the client stops. -/
inductive Step (c : Components AccountId PswapSolver.Asset Note) :
    Link AccountId Note → LinkEvent → Link AccountId Note → Prop
  | start {s : Link AccountId Note} (stage : s.stage = .starting) :
      Step c s .start { s.emit .authOk with stage := .waiting }
  | post {s : Link AccountId Note} {offered requested : PswapSolver.Asset}
      {validForMs : Option UInt64} {msg : Msg} (senders : s.senders = true)
      (valid : LpSender.quote (decide (s.stage = .stopped)) offered requested validForMs =
        .ok msg) :
      Step c s (.post s.nextSerial msg)
        { s with queue := s.queue ++ [(s.nextSerial, msg)], nextSerial := s.nextSerial + 1 }
  | refuse {s : Link AccountId Note} {offered requested : PswapSolver.Asset}
      {validForMs : Option UInt64} {err : LpError} (senders : s.senders = true)
      (invalid : LpSender.quote (decide (s.stage = .stopped)) offered requested validForMs =
        .error err) : Step c s (.refuse err) s
  | dropEvents {s : Link AccountId Note} : Step c s .dropEvents { s with listening := false }
  | dropSenders {s : Link AccountId Note} : Step c s .dropSenders { s with senders := false }
  | frame {s : Link AccountId Note} (bytes : Bytes) (greeted : s.stage ≠ .starting)
      (stage : s.stage ≠ .stopped) :
      Step c s (.frame bytes) (s.readFrame c bytes)
  | take {s : Link AccountId Note} {serial : Nat} {msg : Msg} {rest : List (Nat × Msg)}
      (stage : s.stage = .waiting) (queue : s.queue = (serial, msg) :: rest) :
      Step c s (.take serial) { s with queue := rest, stage := .sending serial msg }
  | write {s : Link AccountId Note} {serial : Nat} {msg : Msg}
      (stage : s.stage = .sending serial msg) :
      Step c s (.write s.socket serial (msg.writeInto c)) { s with stage := .flushing }
  | flushed {s : Link AccountId Note} (stage : s.stage = .flushing) :
      Step c s .flushed { s with stage := .waiting }
  /-- The reader ended, or a write failed. -/
  | linkDown {s : Link AccountId Note} (uptimeMs : Nat) (live : s.Live)
      (cause : s.listening = true ∨ s.stage ≠ .waiting) :
      Step c s (.linkDown uptimeMs)
        { s with
          stage := .retrying
          attempt := if STABLE_UPTIME ≤ uptimeMs then 0 else s.attempt
          delay := if STABLE_UPTIME ≤ uptimeMs then RECONNECT_MIN else s.delay }
  /-- Nobody listens, or nobody can post any more. -/
  | clientGone {s : Link AccountId Note} (live : s.Live)
      (cause : s.listening = false ∨ s.stage = .waiting ∧ s.senders = false ∧ s.queue = []) :
      Step c s .stop { s with stage := .stopped }
  | giveUp {s : Link AccountId Note} (stage : s.stage = .retrying) (gone : s.listening = false) :
      Step c s .stop { s with stage := .stopped }
  | retry {s : Link AccountId Note} (stage : s.stage = .retrying) (open_ : s.listening = true) :
      Step c s (.retry (min (s.attempt + 1) (2 ^ 32 - 1)))
        { s.emit (.reconnecting (min (s.attempt + 1) (2 ^ 32 - 1))) with
          stage := .sleeping
          attempt := min (s.attempt + 1) (2 ^ 32 - 1) }
  | wake {s : Link AccountId Note} (stage : s.stage = .sleeping) :
      Step c s .wake { s with stage := .connecting, delay := min (s.delay * 2) RECONNECT_MAX }
  | connected {s : Link AccountId Note} (stage : s.stage = .connecting) :
      Step c s (.connected (s.socket + 1)) { s with stage := .draining, socket := s.socket + 1 }
  | authRejected {s : Link AccountId Note} (stage : s.stage = .connecting) :
      Step c s .stop
        { s.emit (.disconnected LpError.authRejected.display) with stage := .stopped }
  | connectFailed {s : Link AccountId Note} (reason : String) (stage : s.stage = .connecting) :
      Step c s (.connectFailed (.transport reason)) { s with stage := .retrying }
  | discard {s : Link AccountId Note} {serial : Nat} {msg : Msg} {rest : List (Nat × Msg)}
      (stage : s.stage = .draining) (queue : s.queue = (serial, msg) :: rest) :
      Step c s (.discard serial) { s with queue := rest }
  | drained {s : Link AccountId Note} (stage : s.stage = .draining) (queue : s.queue = []) :
      Step c s (.drained s.socket) { s with stage := .drained }
  | reconnected {s : Link AccountId Note} (stage : s.stage = .drained) :
      Step c s (.reconnected s.socket) { s.emit .reconnected with stage := .waiting }

end Link

/-! ## What flows through the queue -/

namespace LinkEvent

/-- The message posted in a step. -/
def posts : LinkEvent → List (Nat × Msg)
  | post serial msg => [(serial, msg)]
  | _ => []

/-- The serial of the message written in a step. -/
def writes : LinkEvent → List Nat
  | write _ serial _ => [serial]
  | _ => []

/-- The socket established in a step. -/
def connects : LinkEvent → List Nat
  | connected socket => [socket]
  | _ => []

end LinkEvent

/-- The stages in which pending messages go to the current socket. -/
def Stage.Open : Stage → Prop
  | starting | waiting | sending _ _ | flushing | drained => True
  | _ => False

namespace Link
variable {c : Components AccountId PswapSolver.Asset Note} {s s' : Link AccountId Note}
  {e : LinkEvent}

/-- The messages that may still be written: the one the sender loop holds, and the queue. -/
def pending (s : Link AccountId Note) : List (Nat × Msg) :=
  match s.stage with
  | .sending serial msg => (serial, msg) :: s.queue
  | _ => s.queue

theorem queue_sublist_pending (s : Link AccountId Note) : s.queue.Sublist s.pending := by
  unfold pending
  split
  · exact List.sublist_cons_self ..
  · exact List.Sublist.refl _

theorem pending_eq_queue (h : ∀ n msg, s.stage ≠ .sending n msg) : s.pending = s.queue := by
  unfold pending
  split
  · rename_i hstage
    exact absurd hstage (h _ _)
  · rfl

theorem emit_eq (s : Link AccountId Note) (event : LpEvent AccountId Note) :
    ∃ events, s.emit event = { s with events := events } := by
  unfold emit
  split
  · exact ⟨_, rfl⟩
  · exact ⟨_, rfl⟩

theorem readFrame_eq (c : Components AccountId PswapSolver.Asset Note) (s : Link AccountId Note)
    (bytes : Bytes) : ∃ events, s.readFrame c bytes = { s with events := events } := by
  unfold readFrame
  split
  · exact ⟨_, rfl⟩
  · exact emit_eq ..
  · exact ⟨_, rfl⟩

/-- **What a step does to the messages**: they leave from the front, or are discarded, and new
ones come at the end. -/
structure Flow (s : Link AccountId Note) (e : LinkEvent) (s' : Link AccountId Note) : Prop where
  pending : s'.pending.Sublist (s.pending ++ e.posts)
  writes : (e.writes ++ s'.pending.map Prod.fst).Sublist ((s.pending ++ e.posts).map Prod.fst)
  posts : e.posts = [] ∧ s'.nextSerial = s.nextSerial ∨
    ∃ msg, e.posts = [(s.nextSerial, msg)] ∧ s'.nextSerial = s.nextSerial + 1
  connects : e.connects = [] ∧ s'.socket = s.socket ∨
    e.connects = [s.socket + 1] ∧ s'.socket = s.socket + 1

/-- A step that neither writes nor posts nor connects. -/
theorem Flow.of_sublist (hpending : s'.pending.Sublist s.pending)
    (hserial : s'.nextSerial = s.nextSerial) (hsocket : s'.socket = s.socket)
    (hposts : e.posts = []) (hwrites : e.writes = []) (hconnects : e.connects = []) :
    Flow s e s' where
  pending := by rw [hposts, List.append_nil]; exact hpending
  writes := by rw [hposts, hwrites, List.append_nil]; exact hpending.map _
  posts := Or.inl ⟨hposts, hserial⟩
  connects := Or.inl ⟨hconnects, hsocket⟩

/-- **The inversion of the client's steps.** -/
theorem Step.flow (h : Step c s e s') : Flow s e s' := by
  have hkeep : ∀ {t : Link AccountId Note}, t.queue = s.queue →
      (∀ n msg, t.stage ≠ .sending n msg) → t.pending.Sublist s.pending := by
    intro t hqueue hstage
    rw [pending_eq_queue hstage, hqueue]
    exact queue_sublist_pending s
  cases h with
  | start hstage =>
    obtain ⟨events, heq⟩ := emit_eq s .authOk
    rw [heq]
    exact .of_sublist (hkeep rfl nofun) rfl rfl rfl rfl rfl
  | @post _ _ _ msg _ _ =>
    have heq : ({ s with
        queue := s.queue ++ [(s.nextSerial, msg)]
        nextSerial := s.nextSerial + 1 } : Link AccountId Note).pending =
          s.pending ++ [(s.nextSerial, msg)] := by
      unfold pending
      dsimp only
      split
      · rfl
      · rfl
    exact ⟨heq ▸ List.Sublist.refl _, heq ▸ List.Sublist.refl _, Or.inr ⟨msg, rfl, rfl⟩,
      Or.inl ⟨rfl, rfl⟩⟩
  | refuse _ _ => exact .of_sublist (.refl _) rfl rfl rfl rfl rfl
  | dropEvents => exact .of_sublist (.refl _) rfl rfl rfl rfl rfl
  | dropSenders => exact .of_sublist (.refl _) rfl rfl rfl rfl rfl
  | frame bytes _ _ =>
    obtain ⟨events, heq⟩ := readFrame_eq c s bytes
    rw [heq]
    exact .of_sublist (.refl _) rfl rfl rfl rfl rfl
  | take hstage hqueue =>
    have heq : s.pending = s.queue := pending_eq_queue (by rw [hstage]; nofun)
    refine .of_sublist ?_ rfl rfl rfl rfl rfl
    rw [heq, hqueue]
    exact .refl _
  | @write serial msg hstage =>
    have heq : s.pending = (serial, msg) :: s.queue := by
      rw [pending, hstage]
    refine ⟨?_, ?_, Or.inl ⟨rfl, rfl⟩, Or.inl ⟨rfl, rfl⟩⟩
    · rw [heq]
      exact (List.sublist_cons_self ..).trans (List.sublist_append_left ..)
    · rw [heq]
      exact (List.append_nil _).symm ▸ List.Sublist.refl _
  | flushed _ => exact .of_sublist (hkeep rfl nofun) rfl rfl rfl rfl rfl
  | linkDown _ _ _ => exact .of_sublist (hkeep rfl nofun) rfl rfl rfl rfl rfl
  | clientGone _ _ => exact .of_sublist (hkeep rfl nofun) rfl rfl rfl rfl rfl
  | giveUp _ _ => exact .of_sublist (hkeep rfl nofun) rfl rfl rfl rfl rfl
  | retry _ _ =>
    obtain ⟨events, heq⟩ := emit_eq s (.reconnecting (min (s.attempt + 1) (2 ^ 32 - 1)))
    rw [heq]
    exact .of_sublist (hkeep rfl nofun) rfl rfl rfl rfl rfl
  | wake _ => exact .of_sublist (hkeep rfl nofun) rfl rfl rfl rfl rfl
  | connected _ =>
    have hsub : ({ s with stage := .draining, socket := s.socket + 1 } :
        Link AccountId Note).pending.Sublist s.pending := hkeep rfl nofun
    refine ⟨?_, ?_, Or.inl ⟨rfl, rfl⟩, Or.inr ⟨rfl, rfl⟩⟩
    · exact hsub.trans (List.sublist_append_left ..)
    · exact (hsub.trans (List.sublist_append_left ..)).map _
  | authRejected _ =>
    obtain ⟨events, heq⟩ := emit_eq s (.disconnected LpError.authRejected.display)
    rw [heq]
    exact .of_sublist (hkeep rfl nofun) rfl rfl rfl rfl rfl
  | connectFailed _ _ => exact .of_sublist (hkeep rfl nofun) rfl rfl rfl rfl rfl
  | @discard serial msg rest hstage hqueue =>
    have heq : s.pending = s.queue := pending_eq_queue (by rw [hstage]; nofun)
    have heq' : ({ s with queue := rest } : Link AccountId Note).pending = rest :=
      pending_eq_queue (by rw [hstage]; nofun)
    refine .of_sublist ?_ rfl rfl rfl rfl rfl
    rw [heq, heq', hqueue]
    exact List.sublist_cons_self ..
  | drained _ _ => exact .of_sublist (hkeep rfl nofun) rfl rfl rfl rfl rfl
  | reconnected _ =>
    obtain ⟨events, heq⟩ := emit_eq s .reconnected
    rw [heq]
    exact .of_sublist (hkeep rfl nofun) rfl rfl rfl rfl rfl

/-- **How the stage changes**: it stays; the sender loop goes on; the link is not open; a socket
is established; or the queue has been drained. -/
inductive Turn (s : Link AccountId Note) (e : LinkEvent) (s' : Link AccountId Note) : Prop
  | same (stage : s'.stage = s.stage) (socket : s'.socket = s.socket)
  | goesOn (was : s.stage.Open) (stage : s'.stage ≠ .draining ∧ s'.stage ≠ .drained)
      (socket : s'.socket = s.socket)
  | shut (closed : ¬ s'.stage.Open) (stage : s'.stage ≠ .draining)
  | connected (event : e = .connected (s.socket + 1)) (stage : s'.stage = .draining)
      (socket : s'.socket = s.socket + 1)
  | drained (event : e = .drained s.socket) (was : s.stage = .draining)
      (stage : s'.stage = .drained) (socket : s'.socket = s.socket) (pending : s'.pending = [])

theorem Step.turn (h : Step c s e s') : Turn s e s' := by
  cases h with
  | start hstage =>
    obtain ⟨events, heq⟩ := emit_eq s .authOk
    rw [heq]
    exact .goesOn (by rw [hstage]; trivial) ⟨nofun, nofun⟩ rfl
  | post _ _ => exact .same rfl rfl
  | refuse _ _ => exact .same rfl rfl
  | dropEvents => exact .same rfl rfl
  | dropSenders => exact .same rfl rfl
  | frame bytes _ _ =>
    obtain ⟨events, heq⟩ := readFrame_eq c s bytes
    rw [heq]
    exact .same rfl rfl
  | take hstage _ => exact .goesOn (by rw [hstage]; trivial) ⟨nofun, nofun⟩ rfl
  | write hstage => exact .goesOn (by rw [hstage]; trivial) ⟨nofun, nofun⟩ rfl
  | flushed hstage => exact .goesOn (by rw [hstage]; trivial) ⟨nofun, nofun⟩ rfl
  | linkDown _ _ _ => exact .shut id nofun
  | clientGone _ _ => exact .shut id nofun
  | giveUp _ _ => exact .shut id nofun
  | retry _ _ => exact .shut id nofun
  | wake _ => exact .shut id nofun
  | connected _ => exact .connected rfl rfl rfl
  | authRejected _ => exact .shut id nofun
  | connectFailed _ _ => exact .shut id nofun
  | discard _ _ => exact .same rfl rfl
  | drained hstage hqueue => exact .drained rfl hstage rfl rfl hqueue
  | reconnected hstage =>
    obtain ⟨events, heq⟩ := emit_eq s .reconnected
    rw [heq]
    exact .goesOn (by rw [hstage]; trivial) ⟨nofun, nofun⟩ rfl

theorem Step.write_inv {k n : Nat} {frame : Bytes} (h : Step c s (.write k n frame) s') :
    ∃ msg, k = s.socket ∧ s.stage = .sending n msg ∧ frame = msg.writeInto c := by
  cases h with
  | write hstage => exact ⟨_, rfl, hstage, rfl⟩

theorem Step.reconnected_inv {k : Nat} (h : Step c s (.reconnected k) s') :
    k = s.socket ∧ s.stage = .drained := by
  cases h with
  | reconnected hstage => exact ⟨rfl, hstage⟩

end Link

/-! ## The invariant -/

section Labels

/-- The labels of a run. -/
def labels (history : List (Link AccountId Note × LinkEvent)) : List LinkEvent :=
  history.map Prod.snd

/-- The messages posted, the serials written and the sockets established by a reconnect, in the
order of the labels. -/
def posted (labels : List LinkEvent) : List (Nat × Msg) := labels.flatMap LinkEvent.posts

def written (labels : List LinkEvent) : List Nat := labels.flatMap LinkEvent.writes

def established (labels : List LinkEvent) : List Nat := labels.flatMap LinkEvent.connects

variable {l : List LinkEvent} {e : LinkEvent}

theorem posted_append : posted (l ++ [e]) = posted l ++ e.posts := by
  simp [posted]

theorem written_append : written (l ++ [e]) = written l ++ e.writes := by
  simp [written]

theorem established_append : established (l ++ [e]) = established l ++ e.connects := by
  simp [established]

theorem mem_established {k : Nat} : k ∈ established l ↔ .connected k ∈ l := by
  rw [established, List.mem_flatMap]
  constructor
  · rintro ⟨e, he, hk⟩
    cases e with
    | connected socket =>
      rw [List.mem_singleton.mp hk]
      exact he
    | _ => cases hk
  · intro h
    exact ⟨_, h, List.mem_singleton_self _⟩

end Labels

/-- **What is written is fresh**: it was posted before, and on the socket of a reconnect it was
posted after that socket was established. -/
def WritesFresh (c : Components AccountId PswapSolver.Asset Note) (l : List LinkEvent) : Prop :=
  ∀ k n frame, .write k n frame ∈ l → ∃ msg, frame = msg.writeInto c ∧
    [.post n msg, .write k n frame].Sublist l ∧
    (0 < k → [.connected k, .post n msg, .write k n frame].Sublist l)

/-- **A reconnect is reported late enough**: its socket was established and the queue drained
before, and what is queued by then was posted after the socket was established. -/
def ReportsDrained (history : List (Link AccountId Note × LinkEvent)) : Prop :=
  ∀ x ∈ history, ∀ k, x.2 = .reconnected k →
    [.connected k, .drained k, .reconnected k].Sublist (labels history) ∧
    ∀ p ∈ x.1.queue, [.connected k, .post p.1 p.2].Sublist (labels history)

/-- The invariant of a run. -/
structure LinkInv (c : Components AccountId PswapSolver.Asset Note)
    (history : List (Link AccountId Note × LinkEvent)) (s : Link AccountId Note) : Prop where
  serials : (posted (labels history)).map Prod.fst = List.range s.nextSerial
  sockets : established (labels history) = (List.range s.socket).map (· + 1)
  order : (written (labels history) ++ s.pending.map Prod.fst).Pairwise (· < ·)
  bound : ∀ n ∈ written (labels history) ++ s.pending.map Prod.fst, n < s.nextSerial
  known : ∀ p ∈ s.pending, .post p.1 p.2 ∈ labels history
  fresh : s.stage.Open → 0 < s.socket →
    ∀ p ∈ s.pending, [.connected s.socket, .post p.1 p.2].Sublist (labels history)
  draining : s.stage = .draining → 0 < s.socket
  drained : s.stage = .drained →
    0 < s.socket ∧ [.connected s.socket, .drained s.socket].Sublist (labels history)
  writes : WritesFresh c (labels history)
  reports : ReportsDrained history

theorem linkInv_new (c : Components AccountId PswapSolver.Asset Note) : LinkInv c [] Link.new where
  serials := rfl
  sockets := rfl
  order := List.Pairwise.nil
  bound := fun _ h => absurd h List.not_mem_nil
  known := fun _ h => absurd h List.not_mem_nil
  fresh := fun _ _ _ h => absurd h List.not_mem_nil
  draining := nofun
  drained := nofun
  writes := fun _ _ _ h => absurd h List.not_mem_nil
  reports := fun _ h => absurd h List.not_mem_nil

section Step
variable {c : Components AccountId PswapSolver.Asset Note} {s s' : Link AccountId Note}
  {e : LinkEvent} {history : List (Link AccountId Note × LinkEvent)}

theorem labels_append :
    labels (history ++ [(s, e)]) = labels history ++ [e] := by
  simp [labels]

/-- What is pending after a step was pending before, or is posted in it. -/
theorem Link.Flow.mem {p : Nat × Msg} (h : Link.Flow s e s') (hp : p ∈ s'.pending) :
    p ∈ s.pending ∨ e = .post p.1 p.2 := by
  rcases List.mem_append.mp (h.pending.subset hp) with hp | hp
  · exact Or.inl hp
  · refine Or.inr ?_
    cases e with
    | post serial msg => rw [List.mem_singleton.mp hp]
    | _ => cases hp

/-- The messages written so far and those pending stay in order. -/
theorem LinkInv.order_step (h : LinkInv c history s) (hflow : Link.Flow s e s') :
    (written (labels history ++ [e]) ++ s'.pending.map Prod.fst).Pairwise (· < ·) ∧
      ∀ n ∈ written (labels history ++ [e]) ++ s'.pending.map Prod.fst, n < s'.nextSerial := by
  have hsub : (written (labels history ++ [e]) ++ s'.pending.map Prod.fst).Sublist
      (written (labels history) ++ s.pending.map Prod.fst ++ e.posts.map Prod.fst) := by
    rw [written_append, List.append_assoc, List.append_assoc, ← List.map_append]
    exact hflow.writes.append_left _
  suffices hall : (written (labels history) ++ s.pending.map Prod.fst ++
      e.posts.map Prod.fst).Pairwise (· < ·) ∧
      ∀ n ∈ written (labels history) ++ s.pending.map Prod.fst ++ e.posts.map Prod.fst,
        n < s'.nextSerial by
    exact ⟨hall.1.sublist hsub, fun n hn => hall.2 n (hsub.subset hn)⟩
  rcases hflow.posts with ⟨hnone, hserial⟩ | ⟨msg, hposts, hserial⟩
  · rw [hnone, hserial, List.map_nil, List.append_nil]
    exact ⟨h.order, h.bound⟩
  · rw [hposts, hserial]
    constructor
    · -- the new serial is above all others
      refine List.pairwise_append.mpr ⟨h.order, List.pairwise_singleton _ _, fun n hn m hm => ?_⟩
      rw [List.mem_singleton.mp hm]
      exact h.bound n hn
    · intro n hn
      rcases List.mem_append.mp hn with hn | hn
      · exact Nat.lt_succ_of_lt (h.bound n hn)
      · rw [List.mem_singleton.mp hn]
        exact Nat.lt_succ_self _

theorem LinkInv.serials_step (h : LinkInv c history s) (hflow : Link.Flow s e s') :
    (posted (labels history ++ [e])).map Prod.fst = List.range s'.nextSerial := by
  rw [posted_append, List.map_append, h.serials]
  rcases hflow.posts with ⟨hnone, hserial⟩ | ⟨msg, hposts, hserial⟩
  · rw [hnone, hserial]
    exact List.append_nil _
  · rw [hposts, hserial, List.range_succ]
    rfl

theorem LinkInv.sockets_step (h : LinkInv c history s) (hflow : Link.Flow s e s') :
    established (labels history ++ [e]) = (List.range s'.socket).map (· + 1) := by
  rw [established_append, h.sockets]
  rcases hflow.connects with ⟨hnone, hsocket⟩ | ⟨hconnects, hsocket⟩
  · rw [hnone, hsocket]
    exact List.append_nil _
  · rw [hconnects, hsocket, List.range_succ, List.map_append]
    rfl

/-- The socket in use has been established. -/
theorem LinkInv.connected_mem (h : LinkInv c history s) (hpos : 0 < s.socket) :
    .connected s.socket ∈ labels history := by
  rw [← mem_established, h.sockets, List.mem_map]
  exact ⟨s.socket - 1, List.mem_range.mpr (by omega), by omega⟩

/-- What is pending at an open stage was posted after its socket was established. -/
theorem LinkInv.fresh_step (h : LinkInv c history s) (hstep : Link.Step c s e s')
    (hopen : s'.stage.Open) (hpos : 0 < s'.socket) :
    ∀ p ∈ s'.pending, [.connected s'.socket, .post p.1 p.2].Sublist (labels history ++ [e]) := by
  have hgoes : s.stage.Open → s'.socket = s.socket →
      ∀ p ∈ s'.pending, [.connected s'.socket, .post p.1 p.2].Sublist (labels history ++ [e]) := by
    intro hwas hsocket p hp
    rw [hsocket] at hpos ⊢
    rcases hstep.flow.mem hp with hold | rfl
    · exact (h.fresh hwas hpos p hold).trans (List.sublist_append_left ..)
    · exact (List.singleton_sublist.mpr (h.connected_mem hpos)).append (List.Sublist.refl _)
  cases hstep.turn with
  | same hstage hsocket => exact hgoes (hstage ▸ hopen) hsocket
  | goesOn hwas _ hsocket => exact hgoes hwas hsocket
  | shut hclosed _ => exact absurd hopen hclosed
  | connected _ hstage _ =>
    rw [hstage] at hopen
    exact hopen.elim
  | drained _ _ _ _ hpending =>
    rw [hpending]
    exact fun p hp => absurd hp List.not_mem_nil

theorem LinkInv.draining_step (h : LinkInv c history s) (hstep : Link.Step c s e s')
    (hdraining : s'.stage = .draining) : 0 < s'.socket := by
  cases hstep.turn with
  | same hstage hsocket =>
    rw [hsocket]
    exact h.draining (hstage ▸ hdraining)
  | goesOn _ hstage _ => exact absurd hdraining hstage.1
  | shut _ hstage => exact absurd hdraining hstage
  | connected _ _ hsocket =>
    rw [hsocket]
    exact Nat.succ_pos _
  | drained _ _ hstage _ _ => cases hstage.symm.trans hdraining

theorem LinkInv.drained_step (h : LinkInv c history s) (hstep : Link.Step c s e s')
    (hdrained : s'.stage = .drained) : 0 < s'.socket ∧
      [.connected s'.socket, .drained s'.socket].Sublist (labels history ++ [e]) := by
  cases hstep.turn with
  | same hstage hsocket =>
    rw [hsocket]
    obtain ⟨hpos, hsub⟩ := h.drained (hstage ▸ hdrained)
    exact ⟨hpos, hsub.trans (List.sublist_append_left ..)⟩
  | goesOn _ hstage _ => exact absurd hdrained hstage.2
  | shut hclosed _ =>
    rw [hdrained] at hclosed
    exact absurd trivial hclosed
  | connected _ hstage _ => cases hstage.symm.trans hdrained
  | drained hevent hwas _ hsocket _ =>
    rw [hsocket, hevent]
    have hpos := h.draining hwas
    exact ⟨hpos, (List.singleton_sublist.mpr (h.connected_mem hpos)).append (List.Sublist.refl _)⟩

/-- A message is written as it was posted, to the socket its stage belongs to. -/
theorem LinkInv.writes_step (h : LinkInv c history s) (hstep : Link.Step c s e s') :
    WritesFresh c (labels history ++ [e]) := by
  intro k n frame hmem
  rcases List.mem_append.mp hmem with hold | hnew
  · obtain ⟨msg, hframe, hposted, hfresh⟩ := h.writes k n frame hold
    exact ⟨msg, hframe, hposted.trans (List.sublist_append_left ..),
      fun hk => (hfresh hk).trans (List.sublist_append_left ..)⟩
  · rw [← List.mem_singleton.mp hnew] at hstep ⊢
    obtain ⟨msg, rfl, hstage, hframe⟩ := hstep.write_inv
    have hp : (n, msg) ∈ s.pending := by
      rw [Link.pending, hstage]
      exact List.mem_cons_self ..
    refine ⟨msg, hframe, ?_, fun hk => ?_⟩
    · exact (List.singleton_sublist.mpr (h.known _ hp)).append (List.Sublist.refl _)
    · exact (h.fresh (by rw [hstage]; trivial) hk _ hp).append (List.Sublist.refl _)

theorem LinkInv.reports_step (h : LinkInv c history s) (hstep : Link.Step c s e s') :
    ReportsDrained (history ++ [(s, e)]) := by
  intro x hx k hk
  rw [labels_append]
  rcases List.mem_append.mp hx with hold | hnew
  · obtain ⟨hsub, hqueue⟩ := h.reports x hold k hk
    exact ⟨hsub.trans (List.sublist_append_left ..),
      fun p hp => (hqueue p hp).trans (List.sublist_append_left ..)⟩
  · rw [List.mem_singleton.mp hnew] at hk ⊢
    obtain rfl : e = .reconnected k := hk
    obtain ⟨rfl, hstage⟩ := hstep.reconnected_inv
    obtain ⟨hpos, hsub⟩ := h.drained hstage
    refine ⟨hsub.append (List.Sublist.refl _), fun p hp => ?_⟩
    exact (h.fresh (by rw [hstage]; trivial) hpos p
      (s.queue_sublist_pending.subset hp)).trans (List.sublist_append_left ..)

/-- **One step.** -/
theorem LinkInv.step (h : LinkInv c history s) (hstep : Link.Step c s e s') :
    LinkInv c (history ++ [(s, e)]) s' where
  serials := labels_append ▸ h.serials_step hstep.flow
  sockets := labels_append ▸ h.sockets_step hstep.flow
  order := labels_append ▸ (h.order_step hstep.flow).1
  bound := labels_append ▸ (h.order_step hstep.flow).2
  known := by
    intro p hp
    rw [labels_append]
    rcases hstep.flow.mem hp with hold | hnew
    · exact List.mem_append_left _ (h.known p hold)
    · exact List.mem_append_right _ (List.mem_singleton.mpr hnew.symm)
  fresh := fun hopen hpos => labels_append ▸ h.fresh_step hstep hopen hpos
  draining := h.draining_step hstep
  drained := fun hdrained => labels_append ▸ h.drained_step hstep hdrained
  writes := labels_append ▸ h.writes_step hstep
  reports := h.reports_step hstep

end Step

/-- **No stale quote is put on a new link.**  In every interleaving of posts, link drops, failed
and successful reconnects and the supervisor's steps: messages are numbered in the order they
are posted and sockets in the order they are established; everything written was posted before,
and on the socket of a reconnect it was posted after that socket was established; the written
messages are in the order of posting, none twice; and a reconnect is reported only after the
backlog was discarded. -/
theorem no_stale_quote (c : Components AccountId PswapSolver.Asset Note)
    {history : List (Link AccountId Note × LinkEvent)} {s : Link AccountId Note}
    (hrun : Run (Link.Step c) unguarded Link.new history s) :
    (posted (labels history)).map Prod.fst = List.range s.nextSerial ∧
    established (labels history) = (List.range s.socket).map (· + 1) ∧
    WritesFresh c (labels history) ∧ (written (labels history)).Pairwise (· < ·) ∧
    ReportsDrained history := by
  have hinv : LinkInv c history s := hrun.invariant (P := LinkInv c) (linkInv_new c)
    fun h _ hstep => h.step hstep
  exact ⟨hinv.serials, hinv.sockets, hinv.writes, (List.pairwise_append.mp hinv.order).1,
    hinv.reports⟩

/-- The quote 5 of token 2 for 7 of token 1. -/
def samplePost : Msg := .quote ⟨2, 5⟩ ⟨1, 7⟩ none

/-- A quote is posted just before the link drops, and another one after the reconnect: only
the second one is written to the new socket. -/
def outage : List LinkEvent :=
  [.start, .post 0 samplePost, .linkDown 0, .retry 1, .wake, .connected 1, .discard 0, .drained 1,
    .reconnected 1, .post 1 samplePost, .take 1,
    .write 1 1 (samplePost.writeInto (default : Components Nat PswapSolver.Asset Nat))]

theorem no_stale_quote_outage :
    ∃ history, ∃ s : Link Nat Nat, Run (Link.Step default) unguarded Link.new history s ∧
      labels history = outage ∧
      WritesFresh (default : Components Nat PswapSolver.Asset Nat) outage ∧
      ReportsDrained history := by
  have h₁ : Run (Link.Step default) unguarded (Link.new : Link Nat Nat) _ _ :=
    Run.single (.start rfl)
  have h₂ := h₁.step trivial (@Link.Step.post _ _ _ _ ⟨2, 5⟩ ⟨1, 7⟩ none samplePost rfl rfl)
  have h₃ := h₂.step trivial (.linkDown 0 (Or.inl rfl) (Or.inl rfl))
  have h₄ := h₃.step trivial (.retry rfl rfl)
  have h₅ := h₄.step trivial (.wake rfl)
  have h₆ := h₅.step trivial (.connected rfl)
  have h₇ := h₆.step trivial (.discard rfl rfl)
  have h₈ := h₇.step trivial (.drained rfl rfl)
  have h₉ := h₈.step trivial (.reconnected rfl)
  have h₁₀ := h₉.step trivial (@Link.Step.post _ _ _ _ ⟨2, 5⟩ ⟨1, 7⟩ none samplePost rfl rfl)
  have h₁₁ := h₁₀.step trivial (.take rfl rfl)
  have h₁₂ := h₁₁.step trivial (.write rfl)
  obtain ⟨-, -, hwrites, -, hreports⟩ := no_stale_quote default h₁₂
  exact ⟨_, _, h₁₂, rfl, hwrites, hreports⟩

end PswapSolver.Lp
