import PswapSolver.QuoteCapacity

/-! # The connections of the router

The model of `ws_handler`, `handle_conn` and `deregister` in `router/server.rs`, around the
matcher and router of `QuoteCapacity`.  A request is admitted by its token and by the number
of connections, and is upgraded later; a connection gets its id, is counted, gets its
outbound channel listed, greets its DEX and reads; a writer task moves what is queued to the
socket.  None of this is atomic: between any two of these steps other connections, the relay
and the matcher may act.

`Router` takes the id, the listing and the greeting as one step.  That is no loss: nobody
addresses a message to a connection that has not greeted its DEX yet, since batches go to DEXes
that have posted a quote, and a DEX posts after it was greeted.  So what a socket gets is the
greeting and then what is addressed to its own DEX, in order (`socket_gets_own_frames`).
-/
namespace PswapSolver
open Publication Runs

/-! ## Admission -/

/-- The configuration of the server, apart from its address. -/
structure RouterConfig where
  maxConnections : Nat
  quoteTtlMs : Nat
  authTokens : List String

/-- What `ws_handler` reads of a request: the `Authorization` header and `?token=`. -/
structure UpgradeRequest where
  authorization : Option String
  token : Option String
deriving DecidableEq

def bearerFrom (authorization : Option String) : Option String :=
  authorization.bind fun s => ("Bearer ".toList.isPrefixOf? s.toList).map String.ofList

/-- Checks a token against the allow-list; an empty one rejects everybody. -/
def authorized (authTokens : List String) (provided : Option String) : Bool :=
  match provided with
  | none => false
  | some token => authTokens.any (· == token)

/-- **`ws_handler`**: the status and the text of a refusal, or the upgrade. -/
def wsHandler (cfg : RouterConfig) (connCount : Nat) (req : UpgradeRequest) :
    Except (Nat × String) Unit :=
  if !authorized cfg.authTokens ((bearerFrom req.authorization).or req.token) then
    .error (401, "unauthorized")
  else if cfg.maxConnections ≤ connCount then .error (503, "router at capacity")
  else .ok ()

/-! ## Sessions -/

/-- Where `handle_conn` stands. -/
inductive ConnStage where
  /-- It has its id. -/
  | numbered
  | counted
  /-- Its outbound channel is in `conns`. -/
  | listed
  /-- The DEX is greeted, and the reader loop runs. -/
  | reading
  /-- The reader loop is over, and the writer aborted. -/
  | closing
  | unlisted
  /-- Its quotes are removed. -/
  | forgotten
  | closed
deriving DecidableEq

namespace ConnStage

/-- The connection is in `conns`. -/
def isListed : ConnStage → Bool
  | listed | reading | closing => true
  | _ => false

/-- The DEX has been greeted. -/
def isGreeted : ConnStage → Bool
  | numbered | counted | listed => false
  | _ => true

/-- The connection is part of `conn_count`. -/
def isCounted : ConnStage → Bool
  | numbered | closed => false
  | _ => true

/-- The stages follow each other. -/
inductive Next : ConnStage → ConnStage → Prop
  | count : Next numbered counted
  | list : Next counted listed
  | close : Next reading closing
  | unlist : Next closing unlisted
  | forget : Next unlisted forgotten
  | uncount : Next forgotten closed

end ConnStage

/-- **A connection**: what is queued on its outbound channel, what its socket has got, and
whether the receiving end of the channel is still there. -/
structure Session where
  stage : ConnStage
  outbound : List ServerMsg
  written : List ServerMsg
  writer : Bool

namespace Session

/-- A connection with an id. -/
def new : Session := ⟨.numbered, [], [], true⟩

/-- A message reaches the outbound channel. -/
def Takes (x : Session) : Prop := x.stage.isListed = true ∧ x.writer = true

instance (x : Session) : Decidable x.Takes := inferInstanceAs (Decidable (_ ∧ _))

/-- Sends messages on the outbound channel; they are lost when the connection is not listed or
its writer is gone. -/
def receive (x : Session) (msgs : List ServerMsg) : Session :=
  if x.Takes then { x with outbound := x.outbound ++ msgs } else x

@[simp] theorem receive_nil (x : Session) : x.receive [] = x := by
  unfold receive
  split
  · rw [List.append_nil]
  · rfl

theorem receive_of_takes {x : Session} (h : x.Takes) (msgs : List ServerMsg) :
    x.receive msgs = { x with outbound := x.outbound ++ msgs } := if_pos h

theorem receive_of_not_takes {x : Session} (h : ¬ x.Takes) (msgs : List ServerMsg) :
    x.receive msgs = x := if_neg h

@[simp] theorem receive_stage (x : Session) (msgs : List ServerMsg) :
    (x.receive msgs).stage = x.stage := by
  unfold receive
  split
  · rfl
  · rfl

theorem receive_append (x : Session) (msgs msgs' : List ServerMsg) :
    (x.receive msgs).receive msgs' = x.receive (msgs ++ msgs') := by
  by_cases h : x.Takes
  · have h' : (x.receive msgs).Takes := by
      rw [receive_of_takes h]
      exact h
    rw [receive_of_takes h', receive_of_takes h, receive_of_takes h, List.append_assoc]
  · rw [receive_of_not_takes h, receive_of_not_takes h, receive_of_not_takes h]

end Session

/-- The handovers of a batch to one DEX. -/
def handoversTo (dex : DexId) (items : List RoutedNote) : List ServerMsg :=
  (items.filter fun item => item.dex = dex).map fun item => .handover item.noteBytes item.fill

/-- `deliver` with the connections locked: every item goes to the connection of its DEX. -/
def deliverItems (sessions : FiniteMap DexId Session) (items : List RoutedNote) :
    FiniteMap DexId Session :=
  items.foldl (fun sessions item =>
    sessions.modify item.dex (·.receive [.handover item.noteBytes item.fill])) sessions

theorem lookup_deliverItems (sessions : FiniteMap DexId Session) (items : List RoutedNote)
    (dex : DexId) : (deliverItems sessions items).lookup dex =
      (sessions.lookup dex).map fun x => x.receive (handoversTo dex items) := by
  induction items generalizing sessions with
  | nil => simp [deliverItems, handoversTo]
  | cons item items ih =>
    have hcons : deliverItems sessions (item :: items) = deliverItems
        (sessions.modify item.dex (·.receive [.handover item.noteBytes item.fill])) items := rfl
    rw [hcons, ih, FiniteMap.lookup_modify, handoversTo, handoversTo]
    by_cases hdex : dex = item.dex
    · subst hdex
      rw [if_pos rfl, Option.map_map, List.filter_cons_of_pos (by simp), List.map_cons]
      congr 1
      funext x
      exact x.receive_append _ _
    · rw [if_neg hdex, List.filter_cons_of_neg (by simpa using Ne.symm hdex)]

/-! ## The server -/

/-- **The state of the server**: matcher and router, the admitted requests whose upgrade is not
through, the count, and a session for every id given so far. -/
structure Server where
  routing : Routing
  upgrading : Nat
  connCount : Nat
  sessions : FiniteMap DexId Session

/-- What happens in a step. -/
inductive ServerEvent where
  | request (req : UpgradeRequest)
  | upgradeLost
  | number (dex : DexId)
  | count (dex : DexId)
  | list (dex : DexId)
  | greet (dex : DexId)
  | write (dex : DexId) (msg : ServerMsg)
  | writerEnds (dex : DexId)
  | close (dex : DexId)
  | uncount (dex : DexId)
  | routing (event : RoutingEvent)

namespace Server

/-- The server when it starts. -/
def boot (feed : PriceFeed) (triangularEnabled : Bool) (hooks : Option RouterHooks) : Server where
  routing := Routing.boot feed triangularEnabled hooks
  upgrading := 0
  connCount := 0
  sessions := ∅

/-- The stage of a connection. -/
def stageOf (s : Server) (dex : DexId) : Option ConnStage :=
  (s.sessions.lookup dex).map Session.stage

/-- The stage in which a connection makes a step of the router; the ids are given in `number`. -/
def Allows (s : Server) : RoutingEvent → Prop
  | .router (.connect _) => False
  | .router (.register q) => s.stageOf q.dex = some .reading
  | .router (.reject dex _) => s.stageOf dex = some .reading
  | .router (.disconnect dex) => s.stageOf dex = some .closing
  | .router (.forget dex) => s.stageOf dex = some .unlisted
  | _ => True

/-- What a step of the router does to the connections. -/
def sessionsAfter (sessions : FiniteMap DexId Session) : RoutingEvent → FiniteMap DexId Session
  | .router (.reject dex reply) => sessions.modify dex (·.receive [reply])
  | .router (.deliver _ batch) => deliverItems sessions batch.items
  | .router (.disconnect dex) => sessions.modify dex fun x => { x with stage := .unlisted }
  | .router (.forget dex) => sessions.modify dex fun x => { x with stage := .forgotten }
  | _ => sessions

/-- Puts a connection into another stage. -/
def move (s : Server) (dex : DexId) (x : Session) (stage : ConnStage) : Server :=
  { s with sessions := s.sessions.insert dex { x with stage := stage } }

/-- **The steps of the server.**  An aborted writer may still finish a write. -/
inductive Step (cfg : RouterConfig) : Server → ServerEvent → Server → Prop
  | accept {s : Server} {req : UpgradeRequest} (admitted : wsHandler cfg s.connCount req = .ok ()) :
      Step cfg s (.request req) { s with upgrading := s.upgrading + 1 }
  | refuse {s : Server} {req : UpgradeRequest} {reply : Nat × String}
      (refused : wsHandler cfg s.connCount req = .error reply) : Step cfg s (.request req) s
  | upgradeLost {s : Server} {rest : Nat} (upgrading : s.upgrading = rest + 1) :
      Step cfg s .upgradeLost { s with upgrading := rest }
  | number {s : Server} {rest : Nat} {dex : DexId} {routing : Routing}
      (upgrading : s.upgrading = rest + 1)
      (step : Routing.Step cfg.quoteTtlMs s.routing (.router (.connect dex)) routing) :
      Step cfg s (.number dex)
        { s with
          routing := routing
          upgrading := rest
          sessions := s.sessions.insert dex Session.new }
  | count {s : Server} {dex : DexId} {x : Session} (session : s.sessions.lookup dex = some x)
      (stage : x.stage = .numbered) :
      Step cfg s (.count dex) { s.move dex x .counted with connCount := s.connCount + 1 }
  | list {s : Server} {dex : DexId} {x : Session} (session : s.sessions.lookup dex = some x)
      (stage : x.stage = .counted) : Step cfg s (.list dex) (s.move dex x .listed)
  | greet {s : Server} {dex : DexId} {x : Session} (session : s.sessions.lookup dex = some x)
      (stage : x.stage = .listed) :
      Step cfg s (.greet dex) (s.move dex { x with outbound := x.outbound ++ [.authOk] } .reading)
  | write {s : Server} {dex : DexId} {x : Session} {msg : ServerMsg} {rest : List ServerMsg}
      (session : s.sessions.lookup dex = some x) (greeted : x.stage.isGreeted = true)
      (writer : x.writer = true) (queued : x.outbound = msg :: rest) :
      Step cfg s (.write dex msg)
        { s with
          sessions := s.sessions.insert dex
            { x with outbound := rest, written := x.written ++ [msg] } }
  /-- The socket failed, or the writer was aborted. -/
  | writerEnds {s : Server} {dex : DexId} {x : Session} (session : s.sessions.lookup dex = some x)
      (greeted : x.stage.isGreeted = true) :
      Step cfg s (.writerEnds dex)
        { s with sessions := s.sessions.insert dex { x with writer := false } }
  | close {s : Server} {dex : DexId} {x : Session} (session : s.sessions.lookup dex = some x)
      (stage : x.stage = .reading) : Step cfg s (.close dex) (s.move dex x .closing)
  | uncount {s : Server} {dex : DexId} {x : Session} (session : s.sessions.lookup dex = some x)
      (stage : x.stage = .forgotten) :
      Step cfg s (.uncount dex) { s.move dex x .closed with connCount := s.connCount - 1 }
  | routing {s : Server} {e : RoutingEvent} {routing : Routing} (allowed : s.Allows e)
      (step : Routing.Step cfg.quoteTtlMs s.routing e routing) :
      Step cfg s (.routing e)
        { s with routing := routing, sessions := sessionsAfter s.sessions e }

end Server

/-! ## What is addressed to a DEX -/

/-- The messages a step addresses to a DEX, whether they arrive or not. -/
def ServerEvent.addressed (dex : DexId) : ServerEvent → List ServerMsg
  | routing (.router (.reject d reply)) => if d = dex then [reply] else []
  | routing (.router (.deliver _ batch)) => handoversTo dex batch.items
  | _ => []

/-- The messages addressed to a DEX in a run, apart from its greeting. -/
def addressed (dex : DexId) (history : List (Server × ServerEvent)) : List ServerMsg :=
  history.flatMap fun x => x.2.addressed dex

theorem addressed_append (dex : DexId) (history history' : List (Server × ServerEvent)) :
    addressed dex (history ++ history') = addressed dex history ++ addressed dex history' :=
  List.flatMap_append

theorem addressed_concat (dex : DexId) (history : List (Server × ServerEvent)) (s : Server)
    (e : ServerEvent) :
    addressed dex (history ++ [(s, e)]) = addressed dex history ++ e.addressed dex := by
  rw [addressed_append, addressed, addressed, List.flatMap_singleton]

/-- **What a step does to a connection.** -/
inductive Session.Effect (msgs : List ServerMsg) (x : Session) : Session → Prop
  | receives : Effect msgs x (x.receive msgs)
  | advances {stage : ConnStage} (next : x.stage.Next stage) (quiet : msgs = []) :
      Effect msgs x { x with stage := stage }
  | greets (stage : x.stage = .listed) (quiet : msgs = []) :
      Effect msgs x { x with stage := .reading, outbound := x.outbound ++ [.authOk] }
  | writes {msg : ServerMsg} {rest : List ServerMsg} (greeted : x.stage.isGreeted = true)
      (queued : x.outbound = msg :: rest) (quiet : msgs = []) :
      Effect msgs x { x with outbound := rest, written := x.written ++ [msg] }
  | ends (greeted : x.stage.isGreeted = true) (quiet : msgs = []) :
      Effect msgs x { x with writer := false }

/-- A connection without a message may stay as it is. -/
theorem Session.Effect.rest (x : Session) : x.Effect [] x := by
  have h := @receives [] x
  rw [receive_nil] at h
  exact h

namespace Server
variable {cfg : RouterConfig} {s s' : Server} {e : ServerEvent} {dex : DexId} {x x' : Session}

theorem stageOf_eq_some {stage : ConnStage} (h : s.stageOf dex = some stage) :
    ∃ x, s.sessions.lookup dex = some x ∧ x.stage = stage := Option.map_eq_some_iff.mp h

/-- A connection after one of them was overwritten. -/
theorem lookup_insert_cases {sessions : FiniteMap DexId Session} {d : DexId} {y : Session}
    (h : (sessions.insert d y).lookup dex = some x') :
    dex = d ∧ x' = y ∨ dex ≠ d ∧ sessions.lookup dex = some x' := by
  rw [FiniteMap.lookup_insert_if] at h
  split at h
  · rename_i hd
    cases h
    exact Or.inl ⟨hd, rfl⟩
  · rename_i hd
    exact Or.inr ⟨hd, h⟩

/-- One connection is overwritten, and the step addresses no message. -/
theorem effect_of_insert {d : DexId} {y z : Session} (hquiet : e.addressed dex = [])
    (hy : s.sessions.lookup d = some y) (hz : y.Effect [] z)
    (h : (s.sessions.insert d z).lookup dex = some x') :
    ∃ x, s.sessions.lookup dex = some x ∧ x.Effect (e.addressed dex) x' := by
  rw [hquiet]
  rcases lookup_insert_cases h with ⟨rfl, rfl⟩ | ⟨-, hx⟩
  · exact ⟨y, hy, hz⟩
  · exact ⟨x', hx, .rest x'⟩

/-- A step of the router on the connections. -/
theorem effect_of_routing {event : RoutingEvent} (hallowed : s.Allows event)
    (h : (sessionsAfter s.sessions event).lookup dex = some x') :
    ∃ x, s.sessions.lookup dex = some x ∧
      x.Effect ((ServerEvent.routing event).addressed dex) x' := by
  have hadvance : ∀ {d : DexId} {stage stage' : ConnStage}, s.stageOf d = some stage →
      stage.Next stage' →
      (s.sessions.modify d fun x => { x with stage := stage' }).lookup dex = some x' →
      ∃ x, s.sessions.lookup dex = some x ∧ x.Effect [] x' := by
    intro d stage stage' hstage hnext hx
    obtain ⟨y, hy, rfl⟩ := stageOf_eq_some hstage
    rw [FiniteMap.lookup_modify] at hx
    split at hx
    · rename_i hd
      rw [hy] at hx
      cases hx
      exact ⟨y, hd ▸ hy, .advances hnext rfl⟩
    · exact ⟨x', hx, .rest x'⟩
  cases event with
  | matcher event => exact ⟨x', h, .rest x'⟩
  | router event =>
    cases event with
    | connect d => cases hallowed
    | reject d reply =>
      have hx : (s.sessions.modify d (·.receive [reply])).lookup dex = some x' := h
      rw [FiniteMap.lookup_modify] at hx
      show ∃ x, _ ∧ Session.Effect (if d = dex then [reply] else []) x x'
      by_cases hd : dex = d
      · subst hd
        rw [if_pos rfl] at hx ⊢
        obtain ⟨y, hy, rfl⟩ := Option.map_eq_some_iff.mp hx
        exact ⟨y, hy, .receives⟩
      · rw [if_neg hd] at hx
        rw [if_neg (Ne.symm hd)]
        exact ⟨x', hx, .rest x'⟩
    | deliver task batch =>
      have hx : (deliverItems s.sessions batch.items).lookup dex = some x' := h
      rw [lookup_deliverItems] at hx
      obtain ⟨y, hy, rfl⟩ := Option.map_eq_some_iff.mp hx
      exact ⟨y, hy, .receives⟩
    | disconnect d => exact hadvance hallowed .unlist h
    | forget d => exact hadvance hallowed .forget h
    | register q => exact ⟨x', h, .rest x'⟩
    | consume task batch => exact ⟨x', h, .rest x'⟩
    | publish step => exact ⟨x', h, .rest x'⟩

/-- **The inversion of the server's steps**, for one connection: it is new, or it was there. -/
theorem Step.session (h : Step cfg s e s') (hx : s'.sessions.lookup dex = some x') :
    (e = .number dex ∧ x' = Session.new) ∨
      ∃ x, s.sessions.lookup dex = some x ∧ x.Effect (e.addressed dex) x' := by
  have hsame : s.sessions.lookup dex = some x' → e.addressed dex = [] →
      ∃ x, s.sessions.lookup dex = some x ∧ x.Effect (e.addressed dex) x' := by
    intro hlookup hquiet
    rw [hquiet]
    exact ⟨x', hlookup, .rest x'⟩
  cases h with
  | accept _ => exact Or.inr (hsame hx rfl)
  | refuse _ => exact Or.inr (hsame hx rfl)
  | upgradeLost _ => exact Or.inr (hsame hx rfl)
  | number _ _ =>
    rcases lookup_insert_cases hx with ⟨rfl, rfl⟩ | ⟨-, hlookup⟩
    · exact Or.inl ⟨rfl, rfl⟩
    · exact Or.inr (hsame hlookup rfl)
  | count session stage =>
    exact Or.inr (effect_of_insert rfl session (.advances (stage ▸ .count) rfl) hx)
  | list session stage =>
    exact Or.inr (effect_of_insert rfl session (.advances (stage ▸ .list) rfl) hx)
  | greet session stage => exact Or.inr (effect_of_insert rfl session (.greets stage rfl) hx)
  | write session greeted _ queued =>
    exact Or.inr (effect_of_insert rfl session (.writes greeted queued rfl) hx)
  | writerEnds session greeted =>
    exact Or.inr (effect_of_insert rfl session (.ends greeted rfl) hx)
  | close session stage =>
    exact Or.inr (effect_of_insert rfl session (.advances (stage ▸ .close) rfl) hx)
  | uncount session stage =>
    exact Or.inr (effect_of_insert rfl session (.advances (stage ▸ .uncount) rfl) hx)
  | routing allowed _ => exact Or.inr (effect_of_routing allowed hx)

/-! ## Nobody is addressed before the greeting -/

/-- The DEX has a connection and was greeted. -/
def Greeted (s : Server) (dex : DexId) : Prop :=
  ∃ x, s.sessions.lookup dex = some x ∧ x.stage.isGreeted = true

theorem greeted_of_reading (h : s.stageOf dex = some .reading) : s.Greeted dex := by
  obtain ⟨x, hx, hstage⟩ := stageOf_eq_some h
  exact ⟨x, hx, by rw [hstage]; rfl⟩

theorem mem_deliverItems {sessions : FiniteMap DexId Session} {items : List RoutedNote} :
    dex ∈ deliverItems sessions items ↔ dex ∈ sessions := by
  rw [← Finmap.lookup_isSome, lookup_deliverItems, Option.isSome_map, Finmap.lookup_isSome]

/-- No connection is ever taken out. -/
theorem Step.keeps_session (h : Step cfg s e s') (hdex : dex ∈ s.sessions) : dex ∈ s'.sessions := by
  cases h with
  | accept _ => exact hdex
  | refuse _ => exact hdex
  | upgradeLost _ => exact hdex
  | routing _ _ =>
    rename_i event _ _ _
    cases event with
    | matcher event => exact hdex
    | router event =>
      cases event with
      | reject d reply => exact FiniteMap.mem_modify.mpr hdex
      | deliver task batch => exact mem_deliverItems.mpr hdex
      | disconnect d => exact FiniteMap.mem_modify.mpr hdex
      | forget d => exact FiniteMap.mem_modify.mpr hdex
      | connect d => exact hdex
      | register q => exact hdex
      | consume task batch => exact hdex
      | publish step => exact hdex
  | _ => exact Finmap.mem_insert.mpr (Or.inr hdex)

/-- **What is known of the DEXes**: ids are not used again; and whoever has a quote, is in a
snapshot on its way to the matcher, or is in a batch on its way back, was greeted. -/
structure Known (s : Server) : Prop where
  inv : s.routing.router.Inv
  numbered : ∀ dex ∈ s.sessions, dex < s.routing.router.nextDex
  stored : ∀ {dex pair q}, quoteAt s.routing.router.quotes dex pair = some q → s.Greeted dex
  snapshots : s.routing.router.board.All fun snap =>
    ∀ pair, ∀ q ∈ (snap.lookup pair).getD [], s.Greeted q.dex
  routed : ∀ batch ∈ s.routing.routeCh, ∀ item ∈ batch.items, s.Greeted item.dex

theorem known_boot (feed : PriceFeed) (triangularEnabled : Bool) (hooks : Option RouterHooks) :
    (boot feed triangularEnabled hooks).Known where
  inv := RouterState.inv_new
  numbered := fun _ h => absurd h Finmap.notMem_empty
  stored := fun h => by cases h
  snapshots := ⟨fun _ _ h => absurd h List.not_mem_nil, fun _ h => absurd h List.not_mem_nil⟩
  routed := fun _ h => absurd h List.not_mem_nil

section Routing
variable {quoteTtlMs : Nat} {event : RoutingEvent} {r : Routing}

/-- A step of matcher and router that only greeted DEXes take part in. -/
structure Introduces (s : Server) (r : Routing) : Prop where
  inv : r.router.Inv
  stored : ∀ {dex pair q}, quoteAt r.router.quotes dex pair = some q → s.Greeted dex
  snapshots : r.router.board.All fun snap =>
    ∀ pair, ∀ q ∈ (snap.lookup pair).getD [], s.Greeted q.dex
  routed : ∀ batch ∈ r.routeCh, ∀ item ∈ batch.items, s.Greeted item.dex

theorem Known.router (h : s.Known) {re : RouterEvent} {router : RouterState}
    (hstep : RouterState.Step quoteTtlMs s.routing.router re router)
    (hregister : ∀ q, re = .register q → s.Greeted q.dex) {routeCh : List RouteBatch}
    (hroute : ∀ batch ∈ routeCh, batch ∈ s.routing.routeCh) :
    s.Introduces { s.routing with router := router, routeCh := routeCh } where
  inv := h.inv.step hstep
  stored := fun hq => by
    rcases hstep.quoteAt_origin hq with hold | ⟨he, hdex, -⟩
    · exact h.stored hold
    · exact hdex ▸ hregister _ he
  snapshots := hstep.all h.snapshots fun hsnap pair q hq => by
    obtain ⟨dex, hat⟩ := hsnap.mem.mp hq
    exact (h.inv.stored hat).1 ▸ h.stored hat
  routed := fun batch hbatch => h.routed batch (hroute batch hbatch)

/-- The matcher routes to DEXes whose quotes it reads. -/
theorem Known.matcher (h : s.Known) {i : MatcherInputs} {me : MatcherEvent} {m : Matcher}
    (hreads : i.quotes = s.routing.router.published)
    (hstep : Matcher.Step i s.routing.matcher me m) :
    s.Introduces { s.routing with matcher := m, routeCh := s.routing.routeCh ++ me.routes } where
  inv := h.inv
  stored := h.stored
  snapshots := h.snapshots
  routed := fun batch hbatch item hitem => by
    rcases List.mem_append.mp hbatch with hold | hnew
    · exact h.routed batch hold item hitem
    · have hmem : item ∈ (RoutingEvent.matcher me).hands :=
        List.mem_flatMap.mpr ⟨batch, hnew, hitem⟩
      obtain hnone | ⟨_, order, result, -, horder, hhands⟩ := hands_matcher hstep
      · rw [hnone] at hmem
        cases hmem
      · rw [hhands] at hmem
        obtain ⟨q, hq, hagainst⟩ := quote_of_mem_externalPass horder hmem
        rw [hreads] at hq
        rw [hagainst.1]
        exact h.snapshots.1 _ q hq

theorem Known.introduces (h : s.Known) (hstep : Routing.Step quoteTtlMs s.routing event r)
    (hregister : ∀ q, event = .router (.register q) → s.Greeted q.dex) : s.Introduces r := by
  cases hstep with
  | matcher reads step => exact h.matcher reads step
  | router _ step =>
    exact h.router step (fun q hq => hregister q (congrArg _ hq)) fun _ hbatch => hbatch
  | deliver queued step =>
    refine h.router step nofun fun batch hbatch => ?_
    rw [queued]
    exact List.mem_cons_of_mem _ hbatch

/-- Ids are given in order. -/
theorem nextDex_of_step (hstep : Routing.Step quoteTtlMs s.routing event r) :
    s.routing.router.nextDex ≤ r.router.nextDex ∧ ∀ d, event = .router (.connect d) →
      d = s.routing.router.nextDex ∧ r.router.nextDex = s.routing.router.nextDex + 1 := by
  have hrouter : ∀ {re : RouterEvent} {router : RouterState},
      RouterState.Step quoteTtlMs s.routing.router re router →
      s.routing.router.nextDex ≤ router.nextDex ∧ ∀ d, re = .connect d →
        d = s.routing.router.nextDex ∧ router.nextDex = s.routing.router.nextDex + 1 := by
    intro re router hstep
    cases hstep with
    | connect => exact ⟨Nat.le_succ _, by rintro d ⟨⟩; exact ⟨rfl, rfl⟩⟩
    | _ => exact ⟨Nat.le_refl _, nofun⟩
  cases hstep with
  | matcher _ _ => exact ⟨Nat.le_refl _, nofun⟩
  | router _ step =>
    obtain ⟨hle, hconnect⟩ := hrouter step
    exact ⟨hle, by rintro d ⟨⟩; exact hconnect d rfl⟩
  | deliver _ step => exact ⟨(hrouter step).1, nofun⟩

end Routing

/-- A step takes at most one step of matcher and router, and a quote is posted by a connection
that reads. -/
theorem Step.routing_cases (h : Step cfg s e s') : s'.routing = s.routing ∨
    ∃ event, Routing.Step cfg.quoteTtlMs s.routing event s'.routing ∧
      ∀ q, event = .router (.register q) → s.Greeted q.dex := by
  cases h with
  | number _ step => exact Or.inr ⟨_, step, nofun⟩
  | routing allowed step =>
    refine Or.inr ⟨_, step, ?_⟩
    rintro q rfl
    exact greeted_of_reading allowed
  | _ => exact Or.inl rfl

/-- A connection that was not there has just got its id. -/
theorem Step.numbers (h : Step cfg s (.number dex) s') :
    dex = s.routing.router.nextDex ∧ s'.routing.router.nextDex = dex + 1 := by
  cases h with
  | number _ step =>
    obtain ⟨hdex, hnext⟩ := (nextDex_of_step step).2 dex rfl
    exact ⟨hdex, hdex ▸ hnext⟩

theorem Step.nextDex_le (h : Step cfg s e s') :
    s.routing.router.nextDex ≤ s'.routing.router.nextDex := by
  rcases h.routing_cases with hsame | ⟨event, hstep, -⟩
  · rw [hsame]
  · exact (nextDex_of_step hstep).1

end Server

namespace Session

theorem Effect.isGreeted {msgs : List ServerMsg} {x x' : Session} (h : x.Effect msgs x')
    (hx : x.stage.isGreeted = true) : x'.stage.isGreeted = true := by
  cases h with
  | receives =>
    rw [receive_stage]
    exact hx
  | advances next _ =>
    revert hx
    generalize x.stage = stage at next
    cases next with
    | count => exact nofun
    | list => exact nofun
    | close => exact fun _ => rfl
    | unlist => exact fun _ => rfl
    | forget => exact fun _ => rfl
    | uncount => exact fun _ => rfl
  | greets _ _ => rfl
  | writes _ _ _ => exact hx
  | ends _ _ => exact hx

end Session

namespace Server
variable {cfg : RouterConfig} {s s' : Server} {e : ServerEvent} {dex : DexId}

/-- A greeted DEX stays greeted. -/
theorem Known.greeted (h : s.Known) (hstep : Step cfg s e s') (hdex : s.Greeted dex) :
    s'.Greeted dex := by
  obtain ⟨x, hx, hgreeted⟩ := hdex
  have hmem : dex ∈ s.sessions := FiniteMap.mem_of_lookup hx
  obtain ⟨x', hx'⟩ := Finmap.mem_iff.mp (hstep.keeps_session hmem)
  rcases hstep.session hx' with ⟨rfl, -⟩ | ⟨y, hy, heffect⟩
  · exact absurd (h.numbered dex hmem) hstep.numbers.1.not_lt
  · cases hx.symm.trans hy
    exact ⟨x', hx', heffect.isGreeted hgreeted⟩

/-- **One step.** -/
theorem Known.step (h : s.Known) (hstep : Step cfg s e s') : s'.Known := by
  have hintro : s.Introduces s'.routing := by
    rcases hstep.routing_cases with hsame | ⟨event, hrouting, hregister⟩
    · rw [hsame]
      exact ⟨h.inv, h.stored, h.snapshots, h.routed⟩
    · exact h.introduces hrouting hregister
  refine ⟨hintro.inv, fun d hd => ?_, fun hq => h.greeted hstep (hintro.stored hq),
    hintro.snapshots.mono fun hsnap pair q hq => h.greeted hstep (hsnap pair q hq),
    fun batch hbatch item hitem => h.greeted hstep (hintro.routed batch hbatch item hitem)⟩
  obtain ⟨x', hx'⟩ := Finmap.mem_iff.mp hd
  rcases hstep.session hx' with ⟨rfl, -⟩ | ⟨y, hy, -⟩
  · rw [hstep.numbers.2]
    exact Nat.lt_succ_self d
  · exact (h.numbered d (FiniteMap.mem_of_lookup hy)).trans_le hstep.nextDex_le

/-- Whoever is addressed was greeted. -/
theorem Known.addressed (h : s.Known) (hstep : Step cfg s e s') (hmsgs : e.addressed dex ≠ []) :
    s.Greeted dex := by
  cases hstep with
  | routing allowed step =>
    rename_i event _
    cases event with
    | matcher event => exact absurd rfl hmsgs
    | router event =>
      cases event with
      | reject d reply =>
        have hd : d = dex := by
          by_contra hne
          exact hmsgs (if_neg hne)
        exact greeted_of_reading (hd ▸ allowed)
      | deliver task batch =>
        obtain ⟨item, hitem⟩ := List.exists_mem_of_ne_nil _ fun hnil : batch.items.filter
          (fun item => item.dex = dex) = [] => hmsgs (by
            show (batch.items.filter _).map _ = []
            rw [hnil]
            rfl)
        obtain ⟨hitem, hdex⟩ := List.mem_filter.mp hitem
        cases step with
        | router own _ => exact absurd rfl (own task batch)
        | deliver queued _ =>
          have hbatch : batch ∈ s.routing.routeCh := by
            rw [queued]
            exact List.mem_cons_self ..
          have := h.routed batch hbatch item hitem
          rw [of_decide_eq_true hdex] at this
          exact this
      | connect d => exact absurd rfl hmsgs
      | register q => exact absurd rfl hmsgs
      | consume task batch => exact absurd rfl hmsgs
      | disconnect d => exact absurd rfl hmsgs
      | forget d => exact absurd rfl hmsgs
      | publish step => exact absurd rfl hmsgs
  | _ => exact absurd rfl hmsgs

end Server

/-! ## What a socket gets -/

/-- **The stream of a connection**, when `sent` was addressed to it: before the greeting there is
nothing; after it, what is written and queued is the start of the greeting and `sent`, and all
of it as long as messages arrive. -/
structure Session.Stream (x : Session) (sent : List ServerMsg) : Prop where
  fresh : x.stage.isGreeted = false →
    x.outbound = [] ∧ x.written = [] ∧ x.writer = true ∧ sent = []
  start : x.stage.isGreeted = true → x.written ++ x.outbound <+: .authOk :: sent
  complete : x.stage.isGreeted = true → x.Takes → x.written ++ x.outbound = .authOk :: sent

namespace Session

/-- What is written is the start of the stream. -/
theorem Stream.written {x : Session} {sent : List ServerMsg} (h : x.Stream sent) :
    x.written <+: .authOk :: sent := by
  cases hgreeted : x.stage.isGreeted with
  | false =>
    rw [(h.fresh hgreeted).2.1]
    exact List.nil_prefix
  | true => exact (List.prefix_append _ _).trans (h.start hgreeted)

theorem stream_new : Session.new.Stream [] where
  fresh := fun _ => ⟨rfl, rfl, rfl, rfl⟩
  start := nofun
  complete := nofun

/-- A message more. -/
theorem Stream.receives {x : Session} {sent msgs : List ServerMsg} (h : x.Stream sent)
    (hmsgs : msgs ≠ [] → x.stage.isGreeted = true) : (x.receive msgs).Stream (sent ++ msgs) := by
  by_cases hnil : msgs = []
  · subst hnil
    rw [receive_nil, List.append_nil]
    exact h
  have hgreeted := hmsgs hnil
  by_cases htakes : x.Takes
  · rw [receive_of_takes htakes]
    have hall : x.written ++ (x.outbound ++ msgs) = .authOk :: (sent ++ msgs) := by
      rw [← List.append_assoc, h.complete hgreeted htakes]
      rfl
    refine ⟨fun hfresh => ?_, fun _ => ?_, fun _ _ => hall⟩
    · rw [hgreeted] at hfresh
      cases hfresh
    · show x.written ++ (x.outbound ++ msgs) <+: _
      rw [hall]
  · rw [receive_of_not_takes htakes]
    refine ⟨fun hfresh => ?_, fun _ => ?_, fun _ h => absurd h htakes⟩
    · rw [hgreeted] at hfresh
      cases hfresh
    · exact (h.start hgreeted).trans (List.prefix_append (.authOk :: sent) msgs)

/-- **One step.** -/
theorem Stream.effect {x x' : Session} {sent msgs : List ServerMsg} (h : x.Stream sent)
    (heffect : x.Effect msgs x') (hmsgs : msgs ≠ [] → x.stage.isGreeted = true) :
    x'.Stream (sent ++ msgs) := by
  cases heffect with
  | receives => exact h.receives hmsgs
  | @advances stage next quiet =>
    rw [quiet, List.append_nil]
    obtain ⟨fresh, start, complete⟩ := h
    obtain ⟨stage₀, outbound, written, writer⟩ := x
    dsimp only at next fresh start complete
    cases next with
    | count => exact ⟨fresh, nofun, nofun⟩
    | list => exact ⟨fresh, nofun, nofun⟩
    | close => exact ⟨nofun, start, complete⟩
    | unlist => exact ⟨nofun, start, fun _ htakes => nomatch htakes.1⟩
    | forget => exact ⟨nofun, start, fun _ htakes => nomatch htakes.1⟩
    | uncount => exact ⟨nofun, start, fun _ htakes => nomatch htakes.1⟩
  | greets stage quiet =>
    have hfresh : x.stage.isGreeted = false := by
      rw [stage]
      rfl
    obtain ⟨hout, hwritten, -, hsent⟩ := h.fresh hfresh
    rw [quiet, hsent, hout, hwritten]
    exact ⟨nofun, fun _ => List.prefix_refl _, fun _ _ => rfl⟩
  | @writes msg rest greeted queued quiet =>
    rw [quiet, List.append_nil]
    have heq : (x.written ++ [msg]) ++ rest = x.written ++ x.outbound := by
      rw [queued, List.append_assoc]
      rfl
    refine ⟨fun hfresh => ?_, fun _ => ?_, fun _ htakes => ?_⟩
    · rw [greeted] at hfresh
      cases hfresh
    · show (x.written ++ [msg]) ++ rest <+: _
      rw [heq]
      exact h.start greeted
    · show (x.written ++ [msg]) ++ rest = _
      rw [heq]
      exact h.complete greeted htakes
  | ends greeted quiet =>
    rw [quiet, List.append_nil]
    refine ⟨fun hfresh => ?_, fun _ => h.start greeted, fun _ htakes => nomatch htakes.2⟩
    rw [greeted] at hfresh
    cases hfresh

end Session

/-- The invariant of a run: what is known of the DEXes, and the stream of every connection. -/
structure StreamInv (history : List (Server × ServerEvent)) (s : Server) : Prop where
  known : s.Known
  unborn : ∀ dex, s.routing.router.nextDex ≤ dex → addressed dex history = []
  stream : ∀ {dex x}, s.sessions.lookup dex = some x → x.Stream (addressed dex history)

theorem streamInv_boot (feed : PriceFeed) (triangularEnabled : Bool) (hooks : Option RouterHooks) :
    StreamInv [] (Server.boot feed triangularEnabled hooks) where
  known := Server.known_boot feed triangularEnabled hooks
  unborn := fun _ _ => rfl
  stream := fun h => by cases h

theorem StreamInv.step {cfg : RouterConfig} {history : List (Server × ServerEvent)}
    {s s' : Server} {e : ServerEvent} (h : StreamInv history s) (hstep : Server.Step cfg s e s') :
    StreamInv (history ++ [(s, e)]) s' := by
  refine ⟨h.known.step hstep, fun dex hdex => ?_, fun {dex x'} hx' => ?_⟩
  · have hle := hstep.nextDex_le
    rw [addressed_concat, h.unborn dex (hle.trans hdex), List.nil_append]
    -- an id that was not given yet belongs to nobody
    by_contra hmsgs
    obtain ⟨x, hx, -⟩ := h.known.addressed hstep hmsgs
    exact (hle.trans hdex).not_gt (h.known.numbered dex (FiniteMap.mem_of_lookup hx))
  · rw [addressed_concat]
    rcases hstep.session hx' with ⟨rfl, rfl⟩ | ⟨x, hx, heffect⟩
    · rw [h.unborn dex hstep.numbers.1.ge]
      exact Session.stream_new
    · refine (h.stream hx).effect heffect fun hmsgs => ?_
      obtain ⟨y, hy, hgreeted⟩ := h.known.addressed hstep hmsgs
      cases hx.symm.trans hy
      exact hgreeted

theorem streamInv_of_run {cfg : RouterConfig} {feed : PriceFeed} {triangularEnabled : Bool}
    {hooks : Option RouterHooks} {guard : Guard Server ServerEvent}
    {history : List (Server × ServerEvent)} {s : Server}
    (hrun : Run (Server.Step cfg) guard (Server.boot feed triangularEnabled hooks) history s) :
    StreamInv history s :=
  hrun.invariant (streamInv_boot feed triangularEnabled hooks) fun h _ hstep => h.step hstep

/-- **A socket gets the greeting and what is addressed to its own DEX, in order.**  Whatever the
interleaving of requests, connections, deliveries and ticks: what is on the socket of a
connection is the start of the greeting followed by the replies to its own messages and the
handovers of the items routed to it; nothing of another DEX, nothing twice, nothing out of
order and nothing before the greeting.  As long as the connection is listed and its writer
lives, whatever is not on the socket is queued behind it. -/
theorem socket_gets_own_frames (cfg : RouterConfig) (feed : PriceFeed) (triangularEnabled : Bool)
    (hooks : Option RouterHooks) {history : List (Server × ServerEvent)} {s : Server}
    (hrun : Run (Server.Step cfg) unguarded (Server.boot feed triangularEnabled hooks) history s)
    {dex : DexId} {x : Session} (hx : s.sessions.lookup dex = some x) :
    x.written <+: .authOk :: addressed dex history ∧
    (x.stage.isGreeted = false → addressed dex history = []) ∧
    (x.stage.isGreeted = true → x.Takes →
      x.written ++ x.outbound = .authOk :: addressed dex history) := by
  have hstream := (streamInv_of_run hrun).stream hx
  exact ⟨hstream.written, fun hfresh => (hstream.fresh hfresh).2.2.2, hstream.complete⟩

namespace Server

/-- The server after an admitted DEX has joined: it has its id and is greeted. -/
def joined (s : Server) : Server where
  routing :=
    { s.routing with
      router :=
        { s.routing.router with
          nextDex := s.routing.router.nextDex + 1
          conns := s.routing.router.conns.insert s.routing.router.nextDex [.authOk] } }
  upgrading := s.upgrading - 1
  connCount := s.connCount + 1
  sessions := s.sessions.insert s.routing.router.nextDex ⟨.reading, [.authOk], [], true⟩

/-- An admitted DEX may join. -/
theorem joins (cfg : RouterConfig) {P : Server → ServerEvent → Prop}
    (hP : ∀ s e, (∀ req, e ≠ .request req) → P s e) {s : Server} (h : 0 < s.upgrading) :
    ∃ history, Run (Step cfg) (fun _ => P) s history s.joined ∧
      ∀ dex, addressed dex history = [] := by
  obtain ⟨rest, hrest⟩ := Nat.exists_eq_add_one.mpr h
  have h₁ : Run (Step cfg) (fun _ => P) s _ _ :=
    Run.start.step (hP _ (.number _) nofun) (.number hrest (.router nofun .connect))
  have h₂ := h₁.step (hP _ (.count _) nofun)
    (@Step.count cfg _ _ Session.new (Finmap.lookup_insert _) rfl)
  have h₃ := h₂.step (hP _ (.list _) nofun)
    (@Step.list cfg _ _ ⟨.counted, [], [], true⟩ (Finmap.lookup_insert _) rfl)
  have h₄ := h₃.step (hP _ (.greet _) nofun)
    (@Step.greet cfg _ _ ⟨.listed, [], [], true⟩ (Finmap.lookup_insert _) rfl)
  -- the last of the insertions at the new id is the one that counts
  simp only [move, Finmap.insert_insert] at h₄
  rw [joined, hrest]
  exact ⟨_, h₄, fun _ => rfl⟩

end Server

/-- A server for one connection. -/
def oneSlot : RouterConfig := ⟨1, 1000, ["t"]⟩

/-- A request with the token of `oneSlot`. -/
def validRequest : UpgradeRequest := ⟨some "Bearer t", none⟩

/-- The reply to a frame that cannot be decoded. -/
def undecodable : ServerMsg := .error "bad_message" "undecodable message: eof"

/-- A DEX connects and sends a frame that cannot be decoded: its socket gets the greeting, and
the reply is queued. -/
theorem socket_gets_reply :
    ∃ history, ∃ s : Server, ∃ x : Session, Run (Server.Step oneSlot) unguarded
      (Server.boot (fun _ => none) false none) history s ∧ s.sessions.lookup 1 = some x ∧
      addressed 1 history = [undecodable] ∧ x.written = [.authOk] ∧ x.outbound = [undecodable] ∧
      x.written <+: .authOk :: addressed 1 history := by
  have h₁ : Run (Server.Step oneSlot) unguarded (Server.boot (fun _ => none) false none) _ _ :=
    Run.single (@Server.Step.accept _ _ validRequest (by decide))
  obtain ⟨joining, h₂, hjoining⟩ := Server.joins oneSlot (P := fun _ _ => True)
    (fun _ _ _ => trivial) (s := { Server.boot (fun _ => none) false none with upgrading := 1 })
    (by decide)
  have h₃ := (h₁.append h₂).step trivial
    (@Server.Step.write _ _ 1 ⟨.reading, [.authOk], [], true⟩ .authOk [] rfl rfl rfl rfl)
  have h₄ := h₃.step trivial (@Server.Step.routing _ _ (.router (.reject 1 undecodable)) _ rfl
    (.router nofun (@RouterState.Step.reject 1000 _ 1 (.error "eof") 0 undecodable
      (by decide) (by decide) rfl)))
  refine ⟨_, _, _, h₄, rfl, ?_, rfl, rfl, (socket_gets_own_frames _ _ _ _ h₄ rfl).1⟩
  rw [addressed_concat, addressed_concat, addressed_append, hjoining]
  rfl

end PswapSolver
