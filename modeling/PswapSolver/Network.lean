import PswapSolver.Delivery
import PswapSolver.LpClient

/-! # A client and the server

The client of `LpClient` beside the server of `Connections`.  Each socket of the client is a
connection of the server, numbered when the server starts to handle it; the client writes its
quotes on its socket and the server takes them off; the server writes its messages and the
client reads them, in order and as far as it gets.  The other connections, the relay and the
matcher act at any time, and so do the reconnects of the client.

Every handover the owner of the client sees is a note that ingest delivered, was routed to one
of the client's own connections, and was selected against a quote that the client posted for
this very connection (`handover_end_to_end`).
-/
namespace PswapSolver
open Codecs Runs Wire
open Lp (Link LinkEvent LpEvent)

variable {AccountId Note : Type}

/-! ## Frames -/

/-- The frame of a message, as the router sends it. -/
def frameOf (c : Components AccountId PswapSolver.Asset Note) : PswapSolver.ServerMsg → Bytes
  | .authOk => (Wire.ServerMsg.authOk : Wire.ServerMsg AccountId Note).writeInto c
  | .handover noteBytes fill => handoverFrame c noteBytes (UInt64.ofNat fill)
  | .error code msg => (Wire.ServerMsg.error code msg : Wire.ServerMsg AccountId Note).writeInto c

/-- The note and the amount a client takes from a message. -/
def handoverIn (c : Components AccountId PswapSolver.Asset Note) (msg : PswapSolver.ServerMsg) :
    Option (Note × UInt64) :=
  match readFromBytes (Wire.ServerMsg.readFrom c) (frameOf c msg) with
  | .ok (.handover note fillAmount) => some (note, fillAmount)
  | _ => none

/-- The note and the amount in an event. -/
def handoverEvent : LpEvent AccountId Note → Option (Note × UInt64)
  | .handover note fillAmount => some (note, fillAmount)
  | _ => none

/-- A client finds a handover in a handover only. -/
theorem handoverIn_eq_some {c : Components AccountId PswapSolver.Asset Note}
    {msg : PswapSolver.ServerMsg} {x : Note × UInt64} (h : handoverIn c msg = some x) :
    ∃ bytes fill, msg = .handover bytes fill ∧ ∀ note, bytes = c.note.write note →
      x = (note, UInt64.ofNat fill) := by
  unfold handoverIn at h
  cases msg with
  | authOk =>
    rw [frameOf, readFromBytes, (Wire.ServerMsg.reads c _).readAll] at h
    cases h
  | error code msg =>
    rw [frameOf, readFromBytes, (Wire.ServerMsg.reads c _).readAll] at h
    cases h
  | handover bytes fill =>
    refine ⟨bytes, fill, rfl, ?_⟩
    rintro note rfl
    rw [frameOf, handoverFrame_eq, readFromBytes, (Wire.ServerMsg.reads c _).readAll] at h
    exact (Option.some.inj h).symm

/-! ## The steps -/

/-- A connection of the client: its socket, and how many frames the client has read. -/
structure Port where
  socket : Nat
  read : Nat

/-- **The client and the server**: the frames on each socket that the server has not taken, and
the client's connections. -/
structure Network (AccountId Note : Type) where
  server : Server
  link : Link AccountId Note
  wires : Nat → List Bytes
  ports : FiniteMap DexId Port

/-- What happens in a step. -/
inductive NetworkEvent where
  | server (e : ServerEvent)
  | link (e : LinkEvent)
  | attach (dex : DexId) (socket : Nat)
  | take (dex : DexId) (e : ServerEvent)
  | read (dex : DexId) (msg : PswapSolver.ServerMsg)

/-- The connection whose frame is handled in a step of the server. -/
def ServerEvent.takes : ServerEvent → Option DexId
  | routing (.router (.register q)) => some q.dex
  | routing (.router (.reject dex _)) => some dex
  | _ => none

/-- The frames on the sockets after a step of the client. -/
def wiresAfter (wires : Nat → List Bytes) : LinkEvent → Nat → List Bytes
  | .write socket _ frame => Function.update wires socket (wires socket ++ [frame])
  | _ => wires

/-- A frame on a socket was there, or has just been written. -/
theorem mem_wiresAfter {wires : Nat → List Bytes} {e : LinkEvent} {socket : Nat} {frame : Bytes}
    (h : frame ∈ wiresAfter wires e socket) :
    frame ∈ wires socket ∨ ∃ n, e = .write socket n frame := by
  cases e with
  | write k n written =>
    rw [wiresAfter] at h
    by_cases hk : socket = k
    · subst hk
      rw [Function.update_self] at h
      rcases List.mem_append.mp h with hold | hnew
      · exact Or.inl hold
      · exact Or.inr ⟨n, by rw [List.mem_singleton.mp hnew]⟩
    · rw [Function.update_of_ne hk] at h
      exact Or.inl h
  | _ => exact Or.inl h

/-- A frame that is left was there before. -/
theorem mem_of_mem_update {wires : Nat → List Bytes} {k socket : Nat} {frame f : Bytes}
    {rest : List Bytes} (hqueued : wires k = frame :: rest)
    (h : f ∈ Function.update wires k rest socket) : f ∈ wires socket := by
  by_cases hk : socket = k
  · subst hk
    rw [Function.update_self] at h
    rw [hqueued]
    exact List.mem_cons_of_mem _ h
  · rw [Function.update_of_ne hk] at h
    exact h

namespace Network

/-- The client has its first socket, and the server has just started. -/
def boot (feed : PriceFeed) (triangularEnabled : Bool) (hooks : Option RouterHooks) :
    Network AccountId Note where
  server := Server.boot feed triangularEnabled hooks
  link := Link.new
  wires := fun _ => []
  ports := ∅

/-- **The steps of client and server.** -/
inductive Step (cfg : RouterConfig) (c : Components AccountId PswapSolver.Asset Note)
    (display : DeserializationError → String) :
    Network AccountId Note → NetworkEvent → Network AccountId Note → Prop
  /-- The server takes no frame of the client. -/
  | server {s : Network AccountId Note} {e : ServerEvent} {server : Server}
      (step : Server.Step cfg s.server e server)
      (others : ∀ dex, e.takes = some dex → dex ∉ s.ports) :
      Step cfg c display s (.server e) { s with server := server }
  | link {s : Network AccountId Note} {e : LinkEvent} {link : Link AccountId Note}
      (step : Link.Step c s.link e link) (own : ∀ bytes, e ≠ .frame bytes) :
      Step cfg c display s (.link e) { s with link := link, wires := wiresAfter s.wires e }
  /-- The server starts to handle a socket of the client. -/
  | attach {s : Network AccountId Note} {dex : DexId} {socket : Nat} {server : Server}
      (step : Server.Step cfg s.server (.number dex) server) (socket_le : socket ≤ s.link.socket)
      (unused : ∀ d p, s.ports.lookup d = some p → p.socket ≠ socket) :
      Step cfg c display s (.attach dex socket)
        { s with server := server, ports := s.ports.insert dex ⟨socket, 0⟩ }
  /-- The server takes a quote off the socket. -/
  | quote {s : Network AccountId Note} {dex : DexId} {p : Port} {frame : Bytes}
      {rest : List Bytes} {now : Nat} {q : Quote} {server : Server}
      (port : s.ports.lookup dex = some p) (queued : s.wires p.socket = frame :: rest)
      (handled : handleFrame c display cfg.quoteTtlMs dex frame now
        s.server.routing.router.nextSerial = .ok q)
      (step : Server.Step cfg s.server (.routing (.router (.register q))) server) :
      Step cfg c display s (.take dex (.routing (.router (.register q))))
        { s with server := server, wires := Function.update s.wires p.socket rest }
  /-- The server takes a frame that it rejects. -/
  | reject {s : Network AccountId Note} {dex : DexId} {p : Port} {frame : Bytes}
      {rest : List Bytes} {now : Nat} {reply : PswapSolver.ServerMsg} {server : Server}
      (port : s.ports.lookup dex = some p) (queued : s.wires p.socket = frame :: rest)
      (handled : handleFrame c display cfg.quoteTtlMs dex frame now
        s.server.routing.router.nextSerial = .error reply)
      (step : Server.Step cfg s.server (.routing (.router (.reject dex reply))) server) :
      Step cfg c display s (.take dex (.routing (.router (.reject dex reply))))
        { s with server := server, wires := Function.update s.wires p.socket rest }
  /-- The client reads the next frame of a connection; an aborted reader may still do so. -/
  | read {s : Network AccountId Note} {dex : DexId} {p : Port} {x : Session}
      {msg : PswapSolver.ServerMsg} {link : Link AccountId Note}
      (port : s.ports.lookup dex = some p) (session : s.server.sessions.lookup dex = some x)
      (next : x.written[p.read]? = some msg)
      (step : Link.Step c s.link (.frame (frameOf c msg)) link) :
      Step cfg c display s (.read dex msg)
        { s with link := link, ports := s.ports.insert dex { p with read := p.read + 1 } }

end Network

/-! ## The two sides -/

namespace NetworkEvent

/-- The step of the server. -/
def toServer : NetworkEvent → Option ServerEvent
  | server e => some e
  | attach dex _ => some (.number dex)
  | take _ e => some e
  | _ => none

/-- The step of the client. -/
def toLink (c : Components AccountId PswapSolver.Asset Note) : NetworkEvent → Option LinkEvent
  | link e => some e
  | read _ msg => some (.frame (frameOf c msg))
  | _ => none

/-- The message the client reads. -/
def reads : NetworkEvent → Option (DexId × PswapSolver.ServerMsg)
  | read dex msg => some (dex, msg)
  | _ => none

end NetworkEvent

abbrev NetworkHistory (AccountId Note : Type) := List (Network AccountId Note × NetworkEvent)

def serverHistory (history : NetworkHistory AccountId Note) : List (Server × ServerEvent) :=
  projection Network.server NetworkEvent.toServer history

def linkHistory (c : Components AccountId PswapSolver.Asset Note)
    (history : NetworkHistory AccountId Note) : List (Link AccountId Note × LinkEvent) :=
  projection Network.link (NetworkEvent.toLink c) history

/-- The messages the client has read, in order, each with its connection. -/
def readBy (history : NetworkHistory AccountId Note) : List (DexId × PswapSolver.ServerMsg) :=
  history.filterMap fun x => x.2.reads

/-- The messages the client has read from a connection. -/
def readFrom (dex : DexId) (history : NetworkHistory AccountId Note) :
    List PswapSolver.ServerMsg :=
  ((readBy history).filter fun x => x.1 = dex).map Prod.snd

namespace Network
variable {cfg : RouterConfig} {c : Components AccountId PswapSolver.Asset Note}
  {display : DeserializationError → String} {s s' : Network AccountId Note} {e : NetworkEvent}

theorem Step.toServer (h : Step cfg c display s e s') :
    e.toServer = none ∧ s'.server = s.server ∨
      ∃ se, e.toServer = some se ∧ Server.Step cfg s.server se s'.server := by
  cases h with
  | server step _ => exact Or.inr ⟨_, rfl, step⟩
  | link _ _ => exact Or.inl ⟨rfl, rfl⟩
  | attach step _ _ => exact Or.inr ⟨_, rfl, step⟩
  | quote _ _ _ step => exact Or.inr ⟨_, rfl, step⟩
  | reject _ _ _ step => exact Or.inr ⟨_, rfl, step⟩
  | read _ _ _ _ => exact Or.inl ⟨rfl, rfl⟩

theorem Step.toLink (h : Step cfg c display s e s') :
    e.toLink c = none ∧ s'.link = s.link ∨
      ∃ le, e.toLink c = some le ∧ Link.Step c s.link le s'.link := by
  cases h with
  | link step _ => exact Or.inr ⟨_, rfl, step⟩
  | read _ _ _ step => exact Or.inr ⟨_, rfl, step⟩
  | _ => exact Or.inl ⟨rfl, rfl⟩

end Network

/-! ## The histories after one more step -/

section Concat
variable {c : Components AccountId PswapSolver.Asset Note} {history : NetworkHistory AccountId Note}
  {s : Network AccountId Note} {e : NetworkEvent} {dex : DexId}

theorem readBy_concat : readBy (history ++ [(s, e)]) = readBy history ++ e.reads.toList := by
  rw [readBy, List.filterMap_append, List.filterMap_cons, List.filterMap_nil]
  cases e.reads with
  | none => rfl
  | some x => rfl

theorem readFrom_concat_of_none (h : e.reads = none) :
    readFrom dex (history ++ [(s, e)]) = readFrom dex history := by
  rw [readFrom, readBy_concat, h, Option.toList_none, List.append_nil]
  rfl

theorem readFrom_concat_read (d : DexId) (msg : PswapSolver.ServerMsg) :
    readFrom dex (history ++ [(s, .read d msg)]) =
      readFrom dex history ++ if d = dex then [msg] else [] := by
  rw [readFrom, readBy_concat, List.filter_append, List.map_append]
  show readFrom dex history ++ ([(d, msg)].filter fun x => x.1 = dex).map Prod.snd = _
  by_cases hd : d = dex
  · simp [hd]
  · simp [hd]

/-- A quote is posted in a step of the server. -/
theorem posted_of_concat {q : Quote}
    (h : q ∈ posted (routingHistory (serverHistory (history ++ [(s, e)])))) :
    q ∈ posted (routingHistory (serverHistory history)) ∨
      e.toServer = some (.routing (.router (.register q))) := by
  rw [serverHistory, projection_concat] at h
  cases hse : e.toServer with
  | none =>
    rw [hse, Option.map_none, Option.toList_none, List.append_nil] at h
    exact Or.inl h
  | some se =>
    have hsplit : routingHistory (serverHistory history ++ [(s.server, se)]) =
        routingHistory (serverHistory history) ++
          (se.toRouting.map (Prod.mk s.server.routing)).toList :=
      projection_concat _ _ _ _ _
    rw [hse] at h
    have hmem : q ∈ posted (routingHistory (serverHistory history ++ [(s.server, se)])) := h
    rw [hsplit, posted, List.flatMap_append, List.mem_append] at hmem
    rcases hmem with hold | hnew
    · exact Or.inl hold
    · obtain ⟨⟨r, re⟩, hre, hq⟩ := List.mem_flatMap.mp hnew
      obtain ⟨re', hre', heq⟩ := Option.map_eq_some_iff.mp (Option.mem_toList.mp hre)
      cases heq
      cases re with
      | matcher me => cases hq
      | router re =>
        rw [mem_posts_router] at hq
        subst hq
        cases se with
        | routing event =>
          cases hre'
          exact Or.inr rfl
        | _ => cases hre'

theorem labels_mono {le : LinkEvent} (h : le ∈ Lp.labels (linkHistory c history)) :
    le ∈ Lp.labels (linkHistory c (history ++ [(s, e)])) := by
  rw [linkHistory, projection_concat, Lp.labels, List.map_append]
  exact List.mem_append_left _ h

theorem mem_labels_link {le : LinkEvent} :
    le ∈ Lp.labels (linkHistory c (history ++ [(s, .link le)])) := by
  rw [linkHistory, projection_concat, Lp.labels, List.map_append]
  exact List.mem_append_right _ (List.mem_singleton_self _)

end Concat

/-- What was written stays written. -/
theorem Server.Step.written_grows {cfg : RouterConfig} {s s' : Server} {e : ServerEvent}
    (h : Step cfg s e s') (hknown : s.Known) {dex : DexId} {x : Session}
    (hx : s.sessions.lookup dex = some x) :
    ∃ x', s'.sessions.lookup dex = some x' ∧ x.written <+: x'.written := by
  have hmem : dex ∈ s.sessions := FiniteMap.mem_of_lookup hx
  obtain ⟨x', hx'⟩ := Finmap.mem_iff.mp (h.keeps_session hmem)
  refine ⟨x', hx', ?_⟩
  rcases h.session hx' with ⟨rfl, -⟩ | ⟨y, hy, heffect⟩
  · exact absurd (hknown.numbered dex hmem) h.numbers.1.not_lt
  · cases hx.symm.trans hy
    cases heffect with
    | receives =>
      unfold Session.receive
      split
      · exact List.prefix_refl _
      · exact List.prefix_refl _
    | advances _ _ => exact List.prefix_refl _
    | greets _ _ => exact List.prefix_refl _
    | writes _ _ _ => exact List.prefix_append _ _
    | ends _ _ => exact List.prefix_refl _

/-! ## The invariant -/

/-- The quote came on the socket: it is the answer of the router to a frame the client wrote. -/
def CameOn (cfg : RouterConfig) (c : Components AccountId PswapSolver.Asset Note)
    (display : DeserializationError → String) (history : NetworkHistory AccountId Note)
    (q : Quote) (socket : Nat) : Prop :=
  ∃ n frame now, .write socket n frame ∈ Lp.labels (linkHistory c history) ∧
    handleFrame c display cfg.quoteTtlMs q.dex frame now q.serial = .ok q

/-- **The invariant of client and server.** -/
structure NetworkInv (cfg : RouterConfig) (c : Components AccountId PswapSolver.Asset Note)
    (display : DeserializationError → String) (history : NetworkHistory AccountId Note)
    (s : Network AccountId Note) : Prop where
  known : s.server.Known
  /-- What was read of a connection is the start of what was written. -/
  attached : ∀ {dex p}, s.ports.lookup dex = some p → ∃ x, s.server.sessions.lookup dex = some x ∧
    p.read ≤ x.written.length ∧ readFrom dex history = x.written.take p.read
  unread : ∀ dex, dex ∉ s.ports → readFrom dex history = []
  wires : ∀ socket, ∀ frame ∈ s.wires socket, ∃ n,
    .write socket n frame ∈ Lp.labels (linkHistory c history)
  posters : ∀ q ∈ posted (routingHistory (serverHistory history)), q.dex ∈ s.server.sessions ∧
    ∀ p, s.ports.lookup q.dex = some p → CameOn cfg c display history q p.socket
  events : (s.link.events.filterMap handoverEvent).Sublist
    ((readBy history).filterMap fun x => handoverIn c x.2)

theorem networkInv_boot (cfg : RouterConfig) (c : Components AccountId PswapSolver.Asset Note)
    (display : DeserializationError → String) (feed : PriceFeed) (triangularEnabled : Bool)
    (hooks : Option RouterHooks) :
    NetworkInv cfg c display [] (Network.boot feed triangularEnabled hooks) where
  known := Server.known_boot feed triangularEnabled hooks
  attached := fun h => by cases h
  unread := fun _ _ => rfl
  wires := fun _ _ h => absurd h List.not_mem_nil
  posters := fun _ h => absurd h List.not_mem_nil
  events := List.Sublist.refl _

/-! ### The events of the client -/

section Events
variable {c : Components AccountId PswapSolver.Asset Note} {s s' : Link AccountId Note}

theorem handovers_emit {event : LpEvent AccountId Note} (h : handoverEvent event = none) :
    (s.emit event).events.filterMap handoverEvent = s.events.filterMap handoverEvent := by
  unfold Link.emit
  split
  · rw [List.filterMap_append, List.filterMap_cons_none h, List.filterMap_nil, List.append_nil]
  · rfl

theorem handovers_emit_sublist {event : LpEvent AccountId Note} (h : handoverEvent event = none)
    (more : List (Note × UInt64)) : ((s.emit event).events.filterMap handoverEvent).Sublist
      (s.events.filterMap handoverEvent ++ more) := by
  rw [handovers_emit h]
  exact List.sublist_append_left ..

/-- Only frames bring handovers. -/
theorem handovers_of_step {e : LinkEvent} (h : Link.Step c s e s')
    (hown : ∀ bytes, e ≠ .frame bytes) :
    s'.events.filterMap handoverEvent = s.events.filterMap handoverEvent := by
  cases h with
  | start _ => exact handovers_emit rfl
  | retry _ _ => exact handovers_emit rfl
  | authRejected _ => exact handovers_emit rfl
  | reconnected _ => exact handovers_emit rfl
  | frame bytes _ _ => exact absurd rfl (hown bytes)
  | _ => rfl

theorem handovers_of_frame (msg : PswapSolver.ServerMsg) :
    ((s.readFrame c (frameOf c msg)).events.filterMap handoverEvent).Sublist
      (s.events.filterMap handoverEvent ++ (handoverIn c msg).toList) := by
  unfold Link.readFrame handoverIn
  split
  · rename_i hread
    rw [hread]
    exact List.sublist_append_left ..
  · rename_i m _ hread
    rw [hread]
    cases m with
    | handover note fill =>
      unfold Link.emit
      split
      · rw [List.filterMap_append]
        exact List.Sublist.refl _
      · exact List.sublist_append_left ..
    | authOk => exact handovers_emit_sublist rfl _
    | ask pairs => exact handovers_emit_sublist rfl _
    | error code msg => exact handovers_emit_sublist rfl _
  · rename_i hread
    rw [hread]
    exact List.sublist_append_left ..

end Events

/-! ### One step -/

section Step
variable {cfg : RouterConfig} {c : Components AccountId PswapSolver.Asset Note}
  {display : DeserializationError → String} {history : NetworkHistory AccountId Note}
  {s s' : Network AccountId Note} {e : NetworkEvent} {dex : DexId} {p : Port} {q : Quote}

theorem CameOn.mono {socket : Nat} (h : CameOn cfg c display history q socket)
    (s : Network AccountId Note) (e : NetworkEvent) :
    CameOn cfg c display (history ++ [(s, e)]) q socket := by
  obtain ⟨n, frame, now, hwrite, hhandled⟩ := h
  exact ⟨n, frame, now, labels_mono hwrite, hhandled⟩

/-- A step of the server leaves the client's readings in place. -/
theorem NetworkInv.attached_server (h : NetworkInv cfg c display history s) {se : ServerEvent}
    {server : Server} (hstep : Server.Step cfg s.server se server)
    (hp : s.ports.lookup dex = some p) : ∃ x, server.sessions.lookup dex = some x ∧
      p.read ≤ x.written.length ∧ readFrom dex history = x.written.take p.read := by
  obtain ⟨x, hx, hle, hread⟩ := h.attached hp
  obtain ⟨x', hx', hgrows⟩ := hstep.written_grows h.known hx
  refine ⟨x', hx', hle.trans hgrows.length_le, ?_⟩
  obtain ⟨more, hmore⟩ := hgrows
  rw [hread, ← hmore, List.take_append_of_le_length hle]

/-- The step takes nothing from a connection of the client. -/
theorem NetworkInv.attached_other (h : NetworkInv cfg c display history s) {se : ServerEvent}
    {server : Server} (hstep : Server.Step cfg s.server se server) (hreads : e.reads = none)
    (hp : s.ports.lookup dex = some p) : ∃ x, server.sessions.lookup dex = some x ∧
      p.read ≤ x.written.length ∧
      readFrom dex (history ++ [(s, e)]) = x.written.take p.read := by
  rw [readFrom_concat_of_none hreads]
  exact h.attached_server hstep hp

theorem NetworkInv.wires_other (h : NetworkInv cfg c display history s) {wires : Nat → List Bytes}
    (hwires : ∀ socket, ∀ frame ∈ wires socket, frame ∈ s.wires socket) :
    ∀ socket, ∀ frame ∈ wires socket, ∃ n,
      .write socket n frame ∈ Lp.labels (linkHistory c (history ++ [(s, e)])) := by
  intro socket frame hframe
  obtain ⟨n, hn⟩ := h.wires socket frame (hwires socket frame hframe)
  exact ⟨n, labels_mono hn⟩

theorem NetworkInv.events_other (h : NetworkInv cfg c display history s)
    {link : Link AccountId Note}
    (hevents : link.events.filterMap handoverEvent = s.link.events.filterMap handoverEvent) :
    (link.events.filterMap handoverEvent).Sublist
      ((readBy (history ++ [(s, e)])).filterMap fun x => handoverIn c x.2) := by
  rw [hevents, readBy_concat, List.filterMap_append]
  exact h.events.trans (List.sublist_append_left ..)

/-- The quotes posted so far, when the ports may have lost nothing but their readings. -/
theorem NetworkInv.posters_old (h : NetworkInv cfg c display history s) {server : Server}
    (hsessions : ∀ d, d ∈ s.server.sessions → d ∈ server.sessions)
    (hq : q ∈ posted (routingHistory (serverHistory history)))
    (hport : ∀ p, s'.ports.lookup q.dex = some p →
      ∃ p₀, s.ports.lookup q.dex = some p₀ ∧ p₀.socket = p.socket) :
    q.dex ∈ server.sessions ∧ ∀ p, s'.ports.lookup q.dex = some p →
      CameOn cfg c display (history ++ [(s, e)]) q p.socket := by
  obtain ⟨hmem, hcame⟩ := h.posters q hq
  refine ⟨hsessions _ hmem, fun p hp => ?_⟩
  obtain ⟨p₀, hp₀, hsocket⟩ := hport p hp
  rw [← hsocket]
  exact (hcame p₀ hp₀).mono s e

/-- A quote is posted on a connection. -/
theorem mem_sessions_of_register {server : Server}
    (h : Server.Step cfg s.server (.routing (.router (.register q))) server) :
    q.dex ∈ server.sessions := by
  have hmem : q.dex ∈ s.server.sessions := by
    cases h with
    | routing allowed _ =>
      obtain ⟨x, hx, -⟩ := Server.stageOf_eq_some allowed
      exact FiniteMap.mem_of_lookup hx
  exact h.keeps_session hmem

/-- The server makes a step of its own. -/
theorem NetworkInv.server (h : NetworkInv cfg c display history s) {se : ServerEvent}
    {server : Server} (hstep : Server.Step cfg s.server se server)
    (hothers : ∀ dex, se.takes = some dex → dex ∉ s.ports) :
    NetworkInv cfg c display (history ++ [(s, .server se)]) { s with server := server } where
  known := h.known.step hstep
  attached := fun hp => h.attached_other hstep rfl hp
  unread := fun dex hdex => by
    rw [readFrom_concat_of_none rfl]
    exact h.unread dex hdex
  wires := h.wires_other fun _ _ hf => hf
  posters := fun q hq => by
    rcases posted_of_concat hq with hold | hnew
    · exact h.posters_old (fun _ hd => hstep.keeps_session hd) hold fun p hp => ⟨p, hp, rfl⟩
    · cases hnew
      exact ⟨mem_sessions_of_register hstep, fun p hp =>
        absurd (FiniteMap.mem_of_lookup hp) (hothers q.dex rfl)⟩
  events := h.events_other rfl

/-- The client makes a step of its own. -/
theorem NetworkInv.link_step (h : NetworkInv cfg c display history s) {le : LinkEvent}
    {link : Link AccountId Note} (hstep : Link.Step c s.link le link)
    (hown : ∀ bytes, le ≠ .frame bytes) :
    NetworkInv cfg c display (history ++ [(s, .link le)])
      { s with link := link, wires := wiresAfter s.wires le } where
  known := h.known
  attached := fun hp => by
    rw [readFrom_concat_of_none rfl]
    exact h.attached hp
  unread := fun dex hdex => by
    rw [readFrom_concat_of_none rfl]
    exact h.unread dex hdex
  wires := fun socket frame hframe => by
    rcases mem_wiresAfter hframe with hold | ⟨n, rfl⟩
    · exact h.wires_other (fun _ _ hf => hf) socket frame hold
    · exact ⟨n, mem_labels_link⟩
  posters := fun q hq => by
    rcases posted_of_concat hq with hold | hnew
    · exact h.posters_old (fun _ hd => hd) hold fun p hp => ⟨p, hp, rfl⟩
    · cases hnew
  events := h.events_other (handovers_of_step hstep hown)

/-- A socket of the client gets its connection. -/
theorem NetworkInv.attach (h : NetworkInv cfg c display history s) {socket : Nat} {server : Server}
    (hstep : Server.Step cfg s.server (.number dex) server) :
    NetworkInv cfg c display (history ++ [(s, .attach dex socket)])
      { s with server := server, ports := s.ports.insert dex ⟨socket, 0⟩ } := by
  have hnew : dex ∉ s.server.sessions := fun hmem =>
    absurd (h.known.numbered dex hmem) hstep.numbers.1.not_lt
  have hfree : dex ∉ s.ports := fun hmem => by
    obtain ⟨p, hp⟩ := Finmap.mem_iff.mp hmem
    obtain ⟨x, hx, -⟩ := h.attached hp
    exact hnew (FiniteMap.mem_of_lookup hx)
  refine ⟨h.known.step hstep, fun {d p} hp => ?_, fun d hd => ?_, h.wires_other fun _ _ hf => hf,
    fun q hq => ?_, h.events_other rfl⟩
  · rw [FiniteMap.lookup_insert_if] at hp
    split at hp
    · rename_i hd
      subst hd
      cases hp
      obtain ⟨x, hx⟩ : ∃ x, server.sessions.lookup d = some x := by
        cases hstep with
        | number _ _ => exact ⟨_, Finmap.lookup_insert _⟩
      refine ⟨x, hx, Nat.zero_le _, ?_⟩
      rw [readFrom_concat_of_none rfl, h.unread d hfree]
      rfl
    · exact h.attached_other hstep rfl hp
  · rw [readFrom_concat_of_none rfl]
    exact h.unread d fun hmem => hd (Finmap.mem_insert.mpr (Or.inr hmem))
  · rcases posted_of_concat hq with hold | hnone
    · -- nobody has posted a quote on the new connection
      have hne : q.dex ≠ dex := fun heq => hnew (heq ▸ (h.posters q hold).1)
      refine h.posters_old (fun _ hd => hstep.keeps_session hd) hold fun p hp => ⟨p, ?_, rfl⟩
      rw [← Finmap.lookup_insert_of_ne _ hne]
      exact hp
    · cases hnone

/-- The server takes a frame of the client. -/
theorem NetworkInv.take (h : NetworkInv cfg c display history s) {se : ServerEvent}
    {server : Server} {frame : Bytes} {rest : List Bytes}
    (hstep : Server.Step cfg s.server se server) (hqueued : s.wires p.socket = frame :: rest)
    (hcame : ∀ q, se = .routing (.router (.register q)) → ∀ p, s.ports.lookup q.dex = some p →
      CameOn cfg c display history q p.socket) :
    NetworkInv cfg c display (history ++ [(s, .take dex se)])
      { s with server := server, wires := Function.update s.wires p.socket rest } where
  known := h.known.step hstep
  attached := fun hp => h.attached_other hstep rfl hp
  unread := fun d hd => by
    rw [readFrom_concat_of_none rfl]
    exact h.unread d hd
  wires := h.wires_other fun _ _ hf => mem_of_mem_update hqueued hf
  posters := fun q hq => by
    rcases posted_of_concat hq with hold | hnew
    · exact h.posters_old (fun _ hd => hstep.keeps_session hd) hold fun p hp => ⟨p, hp, rfl⟩
    · cases hnew
      exact ⟨mem_sessions_of_register hstep, fun p hp => (hcame q rfl p hp).mono _ _⟩
  events := h.events_other rfl

/-- The client reads a frame. -/
theorem NetworkInv.read (h : NetworkInv cfg c display history s) {x : Session}
    {msg : PswapSolver.ServerMsg} {link : Link AccountId Note}
    (hport : s.ports.lookup dex = some p) (hx : s.server.sessions.lookup dex = some x)
    (hnext : x.written[p.read]? = some msg)
    (hstep : Link.Step c s.link (.frame (frameOf c msg)) link) :
    NetworkInv cfg c display (history ++ [(s, .read dex msg)])
      { s with link := link, ports := s.ports.insert dex { p with read := p.read + 1 } } where
  known := h.known
  attached := fun {d p'} hp' => by
    rw [readFrom_concat_read]
    rw [FiniteMap.lookup_insert_if] at hp'
    split at hp'
    · rename_i hd
      subst hd
      cases hp'
      obtain ⟨y, hy, -, hread⟩ := h.attached hport
      cases hx.symm.trans hy
      obtain ⟨hlt, hget⟩ := List.getElem?_eq_some_iff.mp hnext
      refine ⟨x, hx, hlt, ?_⟩
      rw [if_pos rfl, hread, List.take_add_one, hnext]
      rfl
    · rename_i hd
      rw [if_neg (Ne.symm hd), List.append_nil]
      exact h.attached hp'
  unread := fun d hd => by
    have hne : dex ≠ d := fun heq => hd (Finmap.mem_insert.mpr (Or.inl heq.symm))
    rw [readFrom_concat_read, if_neg hne, List.append_nil]
    exact h.unread d fun hmem => hd (Finmap.mem_insert.mpr (Or.inr hmem))
  wires := h.wires_other fun _ _ hf => hf
  posters := fun q hq => by
    rcases posted_of_concat hq with hold | hnew
    · refine h.posters_old (fun _ hd => hd) hold fun p' hp' => ?_
      rw [FiniteMap.lookup_insert_if] at hp'
      split at hp'
      · rename_i hd
        cases hp'
        exact ⟨p, hd ▸ hport, rfl⟩
      · exact ⟨p', hp', rfl⟩
    · cases hnew
  events := by
    cases hstep with
    | frame _ _ =>
      rw [readBy_concat, List.filterMap_append]
      exact (handovers_of_frame msg).trans (h.events.append (List.Sublist.refl _))

/-- **One step.** -/
theorem NetworkInv.step (h : NetworkInv cfg c display history s)
    (hstep : Network.Step cfg c display s e s') :
    NetworkInv cfg c display (history ++ [(s, e)]) s' := by
  cases hstep with
  | server step others => exact h.server step others
  | link step own => exact h.link_step step own
  | attach step _ _ => exact h.attach step
  | @quote dex p frame rest now q server port queued handled step =>
    refine h.take step queued ?_
    rintro _ ⟨⟩ p' hp'
    obtain ⟨hdex, hserial, -⟩ := handleClientMsg_ok handled
    rw [hdex] at hp'
    cases port.symm.trans hp'
    obtain ⟨n, hwrite⟩ := h.wires p.socket frame (queued ▸ List.mem_cons_self ..)
    refine ⟨n, frame, now, hwrite, ?_⟩
    rw [hdex, hserial]
    exact handled
  | reject port queued _ step => exact h.take step queued nofun
  | read port session next step => exact h.read port session next step

end Step

/-! ## From the quote to the handover -/

/-- **A handover, end to end.**  Ingest gives the matcher each note in its own encoding.  Then, in
every run of client, server, matcher and all other connections:

* what the client reads from a connection is the start of the greeting and what the router
  addressed to this connection, so nothing is read twice or out of order;
* the handovers its owner sees are some of those it read, in the order of reading;
* each is a note that ingest delivered, decoded to what was encoded; it was routed to a
  connection of this client, and was selected against a quote that the client posted and wrote
  on the socket of this connection, and that the router took as it was posted. -/
theorem handover_end_to_end (cfg : RouterConfig) (c : Components AccountId PswapSolver.Asset Note)
    (display : DeserializationError → String) (idOf : Note → OrderId) (feed : PriceFeed)
    (triangularEnabled : Bool) (hooks : Option RouterHooks)
    {history : NetworkHistory AccountId Note} {s : Network AccountId Note}
    (hrun : Run (Network.Step cfg c display) unguarded
      (Network.boot feed triangularEnabled hooks) history s)
    (hnotes : ∀ order ∈ given (routingHistory (serverHistory history)),
      ∃ note, order.rawNoteData = c.note.write note ∧ idOf note = order.noteId) :
    (∀ dex, readFrom dex history <+: .authOk :: addressed dex (serverHistory history)) ∧
    (s.link.events.filterMap handoverEvent).Sublist
      ((readBy history).filterMap fun x => handoverIn c x.2) ∧
    ∀ note fill, .handover note fill ∈ s.link.events →
      ∃ item ∈ delivered (routingHistory (serverHistory history)),
        idOf note = item.noteId ∧ item.noteBytes = c.note.write note ∧
        fill = UInt64.ofNat item.fill ∧
        ∃ port, s.ports.lookup item.dex = some port ∧
        ∃ n offered requested validForMs,
          .post n (.quote offered requested validForMs) ∈ Lp.labels (linkHistory c history) ∧
          .write port.socket n ((Wire.ClientMsg.quote offered requested validForMs).writeInto c) ∈
            Lp.labels (linkHistory c history) ∧
          ∃ q ∈ posted (routingHistory (serverHistory history)), item.AgainstQuote q ∧
            item.pair = (requested.faucetId, offered.faucetId) ∧ q.supply = offered.amount ∧
            q.demand = requested.amount := by
  have hinv : NetworkInv cfg c display history s :=
    hrun.invariant (networkInv_boot cfg c display feed triangularEnabled hooks)
      fun h _ hstep => h.step hstep
  -- the same run, seen by the server, by matcher and router, and by the client
  have hserver : Run (Server.Step cfg) unguarded _ (serverHistory history) s.server :=
    hrun.project Network.Step.toServer
  have hrouting : Run (Routing.Step cfg.quoteTtlMs) unguarded _
      (routingHistory (serverHistory history)) s.server.routing :=
    hserver.project Server.Step.toRouting
  have hlink : Run (Link.Step c) unguarded _ (linkHistory c history) s.link :=
    hrun.project Network.Step.toLink
  have htraced : Traced (routingHistory (serverHistory history)) s.server.routing :=
    hrouting.invariant (traced_boot feed triangularEnabled hooks) fun h _ hstep => h.step hstep
  have hlinkInv : Lp.LinkInv c (linkHistory c history) s.link :=
    hlink.invariant (Lp.linkInv_new c) fun h _ hstep => h.step hstep
  have hread : ∀ dex,
      readFrom dex history <+: .authOk :: addressed dex (serverHistory history) := by
    intro dex
    by_cases hdex : dex ∈ s.ports
    · obtain ⟨p, hp⟩ := Finmap.mem_iff.mp hdex
      obtain ⟨x, hx, -, heq⟩ := hinv.attached hp
      rw [heq]
      exact (List.take_prefix _ _).trans ((streamInv_of_run hserver).stream hx).written
    · rw [hinv.unread dex hdex]
      exact List.nil_prefix
  refine ⟨hread, hinv.events, fun note fill hevent => ?_⟩
  -- the event was read as a message addressed to one of the client's connections
  have hmem : (note, fill) ∈ s.link.events.filterMap handoverEvent :=
    List.mem_filterMap.mpr ⟨_, hevent, rfl⟩
  obtain ⟨⟨dex, msg⟩, hmsg, hin⟩ := List.mem_filterMap.mp (hinv.events.subset hmem)
  obtain ⟨bytes, amount, rfl, hdecode⟩ := handoverIn_eq_some hin
  have hfrom : .handover bytes amount ∈ readFrom dex history :=
    List.mem_map.mpr ⟨_, List.mem_filter.mpr ⟨hmsg, decide_eq_true rfl⟩, rfl⟩
  have hport : dex ∈ s.ports := by
    by_contra hno
    rw [hinv.unread dex hno] at hfrom
    cases hfrom
  obtain ⟨port, hport⟩ := Finmap.mem_iff.mp hport
  have haddressed : .handover bytes amount ∈ addressed dex (serverHistory history) := by
    rcases List.mem_cons.mp ((hread dex).subset hfrom) with hno | hyes
    · cases hno
    · exact hyes
  -- so it is an item of a batch, and where that comes from is known
  obtain ⟨item, hitem, rfl, rfl, rfl⟩ := delivered_of_addressed hserver haddressed
  obtain ⟨⟨order, horder, hid, hraw⟩, q, hq, hagainst, hpair⟩ := htraced.delivered item hitem
  obtain ⟨note', hwrite, hid'⟩ := hnotes order horder
  obtain ⟨rfl, rfl⟩ := Prod.mk.inj (hdecode note' (hraw.symm.trans hwrite))
  -- the quote came as a frame of the client
  obtain ⟨n, frame, now, hframe, hhandled⟩ := (hinv.posters q hq).2 port (hagainst.1 ▸ hport)
  obtain ⟨⟨offered, requested, validForMs⟩, rfl, hposted, -⟩ :=
    hlinkInv.writes _ _ _ hframe
  rw [handleFrame_write, makeQuote] at hhandled
  split at hhandled
  · cases hhandled
  · have htaken := (Except.ok.inj hhandled).symm
    exact ⟨item, hitem, hid'.trans hid, hraw.symm.trans hwrite, rfl, port, hport, n, offered,
      requested, validForMs, hposted.subset (List.mem_cons_self ..), hframe, q, hq, hagainst,
      hpair.symm.trans (congrArg Quote.pair htaken), congrArg Quote.supply htaken,
      congrArg Quote.demand htaken⟩

/-! ### A quote and its handover

A client connects and posts a quote; a note is loaded, selected against the quote in the next
tick, delivered, written and read. -/

/-- A note in its encoding. -/
def encodedNote : IngestOrder :=
  { loadedNote with rawNoteData := (default : Components Nat PswapSolver.Asset Nat).note.write 7 }

/-- The matcher with the note loaded. -/
def encodedBook : Matcher :=
  (Matcher.new (fun _ => none) false (some ⟨100⟩)).hydrate 0 [encodedNote]

/-- The batch with the note. -/
def encodedBatch : RouteBatch := ⟨[⟨1, 1, 10, (1, 2), encodedNote.rawNoteData, 0⟩]⟩

theorem encodedBook_quiet : encodedBook.Quiet (readsFirst 50) [(1, 2)] :=
  ⟨rfl, rfl, rfl, rfl, by decide, by decide, by decide, by decide⟩

theorem handover_reached : ∃ history, ∃ s : Network Nat Nat,
    Run (Network.Step oneSlot default fun _ => "") unguarded
      (Network.boot (fun _ => none) false (some ⟨100⟩)) history s ∧
    given (routingHistory (serverHistory history)) = [encodedNote] ∧
    s.link.events = [.authOk, .handover 7 10] := by
  -- the client posts a quote and connects
  have h₁ : Run (Network.Step oneSlot default fun _ => "") unguarded
      (Network.boot (fun _ => none) false (some ⟨100⟩) : Network Nat Nat) _ _ :=
    Run.single (.link (.start rfl) nofun)
  have h₂ := h₁.step trivial (.link (@Link.Step.post _ _ _ _ ⟨2, 10⟩ ⟨1, 10⟩ none
    (.quote ⟨2, 10⟩ ⟨1, 10⟩ none) rfl rfl) nofun)
  have h₃ := h₂.step trivial (.link (.take rfl rfl) nofun)
  have h₄ := h₃.step trivial (.link (.write rfl) nofun)
  have h₅ := h₄.step trivial (.server (@Server.Step.accept _ _ validRequest (by decide)) nofun)
  have h₆ := h₅.step trivial (@Network.Step.attach _ _ _ _ _ _ _ 0 _
    (.number rfl (.router nofun .connect)) (by decide) nofun)
  have h₇ := h₆.step trivial (.server (@Server.Step.count _ _ 1 Session.new rfl rfl) nofun)
  have h₈ := h₇.step trivial (.server
    (@Server.Step.list _ _ 1 ⟨.counted, [], [], true⟩ rfl rfl) nofun)
  have h₉ := h₈.step trivial (.server
    (@Server.Step.greet _ _ 1 ⟨.listed, [], [], true⟩ rfl rfl) nofun)
  -- the router takes the quote and publishes it
  have h₁₀ := h₉.step trivial (@Network.Step.quote _ _ _ _ _ _ 1 ⟨0, 0⟩
    ((.quote ⟨2, 10⟩ ⟨1, 10⟩ none : Lp.Msg).writeInto default) [] 0 (postedQuote 1 0) _ rfl rfl rfl
    (.routing rfl (.router nofun (@RouterState.Step.register 1000 _ 1 (.ok parMsg) 0
      (postedQuote 1 0) (by decide) (by decide) rfl))))
  have h₁₁ := h₁₀.step trivial (.server (@Server.Step.routing _ _ (.router (.publish _)) _ trivial
    (.router nofun (.publish (.compute (show _ = [] ++ _ from rfl) ⟨_, visits_first, rfl⟩)))) nofun)
  have h₁₂ := h₁₁.step trivial (.server (@Server.Step.routing _ _ (.router (.publish _)) _ trivial
    (.router nofun (.publish (.send (show _ = [] ++ _ from rfl) (by decide))))) nofun)
  -- the matcher loads the note and hands it over in its first tick
  have h₁₃ := h₁₂.step trivial (.server (@Server.Step.routing _ _ (.matcher _) _ trivial
    (.matcher_alone (i := readsFirst 0) rfl (.hydrate [encodedNote] rfl) rfl)) nofun)
  have h₁₄ := h₁₃.step trivial (.server (@Server.Step.routing _ _ (.matcher _) _ trivial
    (.matcher_alone (i := readsFirst 50) rfl (.wake encodedBook_quiet.idle) rfl)) nofun)
  have h₁₅ := h₁₄.step trivial (.server (@Server.Step.routing _ _ (.matcher _) _ trivial
    (.matcher_alone (i := readsFirst 50) rfl (.consumedEmpty rfl) rfl)) nofun)
  have h₁₆ := h₁₅.step trivial (.server (@Server.Step.routing _ _ (.matcher _) _ trivial
    (.matcher_alone (i := readsFirst 50) rfl (.ordersEmpty rfl) rfl)) nofun)
  have h₁₇ := h₁₆.step trivial (.server (@Server.Step.routing _ _ (.matcher _) _ trivial
    (.matcher_alone (i := readsFirst 50) rfl
      (.execute encodedBook_quiet.swept encodedBook_quiet.internalMatch) rfl)) nofun)
  have h₁₈ := h₁₇.step trivial (.server (@Server.Step.routing _ _ (.matcher _) _ trivial
    (quiet_pass 1000 (s := { quoted with matcher := encodedBook }) rfl encodedBook_quiet
      (show _ = some encodedBatch by decide))) nofun)
  -- it is delivered, written and read
  have h₁₉ := h₁₈.step trivial (.server (@Server.Step.routing _ _
    (.router (.deliver 0 encodedBatch)) _ trivial (.deliver rfl (.deliver _ (by decide)))) nofun)
  have h₂₀ := h₁₉.step trivial (.server (@Server.Step.write _ _ 1
    ⟨.reading, [.authOk, .handover encodedNote.rawNoteData 10], [], true⟩ _ _
    rfl rfl rfl rfl) nofun)
  have h₂₁ := h₂₀.step trivial (.server (@Server.Step.write _ _ 1
    ⟨.reading, [.handover encodedNote.rawNoteData 10], [.authOk], true⟩ _ _ rfl rfl rfl rfl) nofun)
  have h₂₂ := h₂₁.step trivial (@Network.Step.read _ _ _ _ _ _ 1 ⟨0, 0⟩
    ⟨.reading, [], [.authOk, .handover encodedNote.rawNoteData 10], true⟩ _ _ rfl rfl rfl
    (.frame _ (by decide) (by decide)))
  have h₂₃ := h₂₂.step trivial (@Network.Step.read _ _ _ _ _ _ 1 ⟨0, 1⟩
    ⟨.reading, [], [.authOk, .handover encodedNote.rawNoteData 10], true⟩ _ _ rfl rfl rfl
    (.frame _ (by decide) (by decide)))
  exact ⟨_, _, h₂₃, rfl, rfl⟩

/-- The client's owner sees note 7, and it was routed against the quote the client posted. -/
theorem handover_seen : ∃ history, ∃ s : Network Nat Nat,
    Run (Network.Step oneSlot default fun _ => "") unguarded
      (Network.boot (fun _ => none) false (some ⟨100⟩)) history s ∧
    .handover 7 10 ∈ s.link.events ∧
    ∃ item ∈ delivered (routingHistory (serverHistory history)), item.noteId = 1 ∧
      item.noteBytes = encodedNote.rawNoteData := by
  obtain ⟨history, s, hrun, hgiven, hevents⟩ := handover_reached
  have hmem : .handover 7 10 ∈ s.link.events := by
    rw [hevents]
    exact List.mem_cons_of_mem _ (List.mem_singleton_self _)
  obtain ⟨-, -, hall⟩ := handover_end_to_end oneSlot default (fun _ => "") (fun _ => 1)
    (fun _ => none) false (some ⟨100⟩) hrun (by
      rw [hgiven]
      rintro order horder
      rw [List.mem_singleton.mp horder]
      exact ⟨7, rfl, rfl⟩)
  obtain ⟨item, hitem, hid, hbytes, -⟩ := hall 7 10 hmem
  exact ⟨history, s, hrun, hmem, item, hitem, hid.symm, hbytes⟩

end PswapSolver
