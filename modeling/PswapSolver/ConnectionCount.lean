import PswapSolver.Connections

/-! # The number of connections

`ws_handler` compares `conn_count` with `max_connections`, and `handle_conn` raises the count
after the upgrade; so requests that are admitted and not yet counted do not count against the
limit.  The count itself is right: it is the number of open connections, its decrement never
saturates, and every stored quote belongs to a connection that is part of it
(`connections_accounted`).  The limit is kept up to the overlap: with at most `p` requests in
flight at a time there are never more than `max_connections - 1 + p` connections, and this many
can be reached (`connection_cap`).
-/
namespace PswapSolver
open Runs

/-- The connection has its id and is not counted yet. -/
def ConnStage.isNumbered : ConnStage → Bool
  | numbered => true
  | _ => false

/-- The quotes of the connection may be stored. -/
def ConnStage.mayQuote : ConnStage → Bool
  | reading | closing | unlisted => true
  | _ => false

theorem ConnStage.isCounted_of_mayQuote {stage : ConnStage} (h : stage.mayQuote = true) :
    stage.isCounted = true := by
  cases stage with
  | reading => rfl
  | closing => rfl
  | unlisted => rfl
  | numbered => cases h
  | counted => cases h
  | listed => cases h
  | forgotten => cases h
  | closed => cases h

/-- The stage a connection leaves and the stage it enters in a step. -/
def ServerEvent.moves : ServerEvent → Option ConnStage × Option ConnStage
  | number _ => (none, some .numbered)
  | count _ => (some .numbered, some .counted)
  | list _ => (some .counted, some .listed)
  | greet _ => (some .listed, some .reading)
  | close _ => (some .reading, some .closing)
  | routing (.router (.disconnect _)) => (some .closing, some .unlisted)
  | routing (.router (.forget _)) => (some .unlisted, some .forgotten)
  | uncount _ => (some .forgotten, some .closed)
  | _ => (none, none)

namespace Server

/-- The number of connections in a stage of the kind. -/
def population (s : Server) (kind : ConnStage → Bool) : Nat :=
  FiniteMap.total s.sessions fun _ x => (kind x.stage).toNat

/-- The requests that were admitted and are not counted yet. -/
def inFlight (s : Server) : Nat := s.upgrading + s.population ConnStage.isNumbered

section Tally
variable {cfg : RouterConfig} {s s' : Server} {e : ServerEvent} {dex : DexId} {x y : Session}
  (kind : ConnStage → Bool)

theorem population_boot (feed : PriceFeed) (triangularEnabled : Bool)
    (hooks : Option RouterHooks) : (boot feed triangularEnabled hooks).population kind = 0 :=
  FiniteMap.total_empty _

/-- A connection is overwritten. -/
theorem population_insert {stage : ConnStage} (hx : s.sessions.lookup dex = some x)
    (hstage : x.stage = stage) :
    FiniteMap.total (s.sessions.insert dex y) (fun _ x => (kind x.stage).toNat) +
      (kind stage).toNat = s.population kind + (kind y.stage).toNat := by
  subst hstage
  exact FiniteMap.total_insert_of_lookup hx y _

/-- A connection is overwritten by one in the same stage. -/
theorem population_insert_same (hx : s.sessions.lookup dex = some x) (hstage : y.stage = x.stage) :
    FiniteMap.total (s.sessions.insert dex y) (fun _ x => (kind x.stage).toNat) =
      s.population kind :=
  Nat.add_right_cancel (population_insert kind hx hstage.symm)

/-- A connection is put into another stage. -/
theorem population_modify {stage stage' : ConnStage} (hstage : s.stageOf dex = some stage) :
    FiniteMap.total (s.sessions.modify dex fun x => { x with stage := stage' })
      (fun _ x => (kind x.stage).toNat) + (kind stage).toNat =
        s.population kind + (kind stage').toNat := by
  obtain ⟨x, hx, rfl⟩ := stageOf_eq_some hstage
  rw [FiniteMap.modify, hx]
  exact population_insert kind hx rfl

/-- A reply changes no stage. -/
theorem stage_reply (sessions : FiniteMap DexId Session) (d dex : DexId) (msgs : List ServerMsg) :
    ((sessions.modify d (·.receive msgs)).lookup dex).map Session.stage =
      (sessions.lookup dex).map Session.stage := by
  rw [FiniteMap.lookup_modify]
  by_cases hd : dex = d
  · rw [if_pos hd, Option.map_map, hd]
    exact congrArg (Option.map · _) (funext fun x => x.receive_stage _)
  · rw [if_neg hd]

/-- A delivery changes no stage. -/
theorem stage_deliverItems (sessions : FiniteMap DexId Session) (items : List RoutedNote)
    (dex : DexId) : ((deliverItems sessions items).lookup dex).map Session.stage =
      (sessions.lookup dex).map Session.stage := by
  rw [lookup_deliverItems, Option.map_map]
  exact congrArg (Option.map · _) (funext fun x => x.receive_stage _)

theorem population_of_stage {sessions : FiniteMap DexId Session}
    (h : ∀ dex, (sessions.lookup dex).map Session.stage = s.stageOf dex) :
    FiniteMap.total sessions (fun _ x => (kind x.stage).toNat) = s.population kind := by
  refine FiniteMap.total_congr fun dex => ?_
  have hmap : ∀ o : Option Session, o.map (fun x => (kind x.stage).toNat) =
      (o.map Session.stage).map fun stage => (kind stage).toNat := fun o => by
    rw [Option.map_map]
    rfl
  rw [hmap, hmap, h]
  rfl

theorem population_routing {event : RoutingEvent} (hallowed : s.Allows event) :
    FiniteMap.total (sessionsAfter s.sessions event) (fun _ x => (kind x.stage).toNat) +
      (((ServerEvent.routing event).moves.1.map kind).getD false).toNat =
    s.population kind + (((ServerEvent.routing event).moves.2.map kind).getD false).toNat := by
  cases event with
  | matcher event => rfl
  | router event =>
    cases event with
    | disconnect d => exact population_modify kind hallowed
    | forget d => exact population_modify kind hallowed
    | reject d reply =>
      exact congrArg (· + 0) (population_of_stage kind fun dex => stage_reply _ d dex [reply])
    | deliver task batch =>
      exact congrArg (· + 0) (population_of_stage kind fun dex => stage_deliverItems _ _ dex)
    | connect d => rfl
    | register q => rfl
    | consume task batch => rfl
    | publish step => rfl

/-- **One step** moves at most one connection from one stage into another. -/
theorem Step.tally (h : Step cfg s e s') (hknown : s.Known) :
    s'.population kind + ((e.moves.1.map kind).getD false).toNat =
      s.population kind + ((e.moves.2.map kind).getD false).toNat := by
  cases h with
  | accept _ => rfl
  | refuse _ => rfl
  | upgradeLost _ => rfl
  | number _ step =>
    rename_i d _ _
    have hnew : d ∉ s.sessions := fun hmem =>
      absurd (hknown.numbered d hmem) ((nextDex_of_step step).2 d rfl).1.not_lt
    exact FiniteMap.total_insert_of_notMem hnew Session.new _
  | count session stage => exact population_insert kind session stage
  | list session stage => exact population_insert kind session stage
  | greet session stage => exact population_insert kind session stage
  | write session _ _ _ => exact congrArg (· + 0) (population_insert_same kind session rfl)
  | writerEnds session _ => exact congrArg (· + 0) (population_insert_same kind session rfl)
  | close session stage => exact population_insert kind session stage
  | uncount session stage => exact population_insert kind session stage
  | routing allowed _ => exact population_routing kind allowed

end Tally

/-! ## The count -/

/-- **The accounts of the server**: the count is that of the open connections, and every stored
quote is of a connection that may quote. -/
structure Accounted (s : Server) : Prop where
  known : s.Known
  count : s.connCount = s.population ConnStage.isCounted
  quoting : ∀ {dex pair q}, quoteAt s.routing.router.quotes dex pair = some q →
    ∃ stage, s.stageOf dex = some stage ∧ stage.mayQuote = true

section Accounts
variable {cfg : RouterConfig} {s s' : Server} {e : ServerEvent} {dex : DexId}

theorem accounted_boot (feed : PriceFeed) (triangularEnabled : Bool) (hooks : Option RouterHooks) :
    (boot feed triangularEnabled hooks).Accounted where
  known := known_boot feed triangularEnabled hooks
  count := (population_boot _ feed triangularEnabled hooks).symm
  quoting := fun h => by cases h

theorem Accounted.count_step (h : s.Accounted) (hstep : Step cfg s e s') :
    s'.connCount = s'.population ConnStage.isCounted := by
  have hcount := h.count
  have htally := hstep.tally ConnStage.isCounted h.known
  cases hstep with
  | accept _ => exact hcount
  | refuse _ => exact hcount
  | upgradeLost _ => exact hcount
  | number _ _ => exact hcount.trans htally.symm
  | count _ _ =>
    show s.connCount + 1 = _
    rw [hcount]
    exact htally.symm
  | list _ _ => exact hcount.trans (Nat.add_right_cancel htally).symm
  | greet _ _ => exact hcount.trans (Nat.add_right_cancel htally).symm
  | write _ _ _ _ => exact hcount.trans htally.symm
  | writerEnds _ _ => exact hcount.trans htally.symm
  | close _ _ => exact hcount.trans (Nat.add_right_cancel htally).symm
  | uncount _ _ =>
    -- the connection was counted, so there is something to take off
    show s.connCount - 1 = _
    rw [hcount]
    exact Nat.sub_eq_of_eq_add htally.symm
  | routing _ _ =>
    rename_i event _ _ _
    refine hcount.trans ?_
    cases event with
    | matcher event => exact htally.symm
    | router event =>
      cases event with
      | disconnect d => exact (Nat.add_right_cancel htally).symm
      | forget d => exact (Nat.add_right_cancel htally).symm
      | connect d => exact htally.symm
      | register q => exact htally.symm
      | reject d reply => exact htally.symm
      | deliver task batch => exact htally.symm
      | consume task batch => exact htally.symm
      | publish step => exact htally.symm

/-- A connection that may quote goes on, unless its quotes are removed in this step. -/
theorem Step.mayQuote {x : Session} {pair : Pair} {q : Quote} (h : Step cfg s e s')
    (hknown : s.Known) (hx : s.sessions.lookup dex = some x) (hquote : x.stage.mayQuote = true)
    (hq : quoteAt s'.routing.router.quotes dex pair = some q) :
    ∃ stage, s'.stageOf dex = some stage ∧ stage.mayQuote = true := by
  have hmoved : ∀ {d : DexId} {y z : Session}, s.sessions.lookup d = some y →
      (y.stage.mayQuote = true → z.stage.mayQuote = true) →
      ∃ stage, ((s.sessions.insert d z).lookup dex).map Session.stage = some stage ∧
        stage.mayQuote = true := by
    intro d y z hy hz
    rw [FiniteMap.lookup_insert_if]
    by_cases hd : dex = d
    · subst hd
      cases hx.symm.trans hy
      rw [if_pos rfl]
      exact ⟨_, rfl, hz hquote⟩
    · rw [if_neg hd, hx]
      exact ⟨_, rfl, hquote⟩
  have hstays : s.stageOf dex = some x.stage := by rw [stageOf, hx, Option.map_some]
  cases h with
  | accept _ => exact ⟨_, hstays, hquote⟩
  | refuse _ => exact ⟨_, hstays, hquote⟩
  | upgradeLost _ => exact ⟨_, hstays, hquote⟩
  | number _ step =>
    rename_i d _ _
    have hne : dex ≠ d := fun hd => absurd (hknown.numbered dex (FiniteMap.mem_of_lookup hx))
      (hd ▸ ((nextDex_of_step step).2 d rfl).1).not_lt
    refine ⟨x.stage, ?_, hquote⟩
    show ((s.sessions.insert d _).lookup dex).map Session.stage = _
    rw [Finmap.lookup_insert_of_ne _ hne, hx, Option.map_some]
  | count session stage => exact hmoved session fun h => by rw [stage] at h; cases h
  | list session stage => exact hmoved session fun h => by rw [stage] at h; cases h
  | greet session stage => exact hmoved session fun h => by rw [stage] at h; cases h
  | write session _ _ _ => exact hmoved session id
  | writerEnds session _ => exact hmoved session id
  | close session _ => exact hmoved session fun _ => rfl
  | uncount session stage => exact hmoved session fun h => by rw [stage] at h; cases h
  | routing allowed step =>
    rename_i event _
    cases event with
    | matcher event => exact ⟨_, hstays, hquote⟩
    | router event =>
      cases event with
      | disconnect d =>
        obtain ⟨y, hy, -⟩ := stageOf_eq_some allowed
        show ∃ stage, ((s.sessions.modify d _).lookup dex).map Session.stage = _ ∧ _
        rw [FiniteMap.modify, hy]
        exact hmoved hy fun _ => rfl
      | forget d =>
        have hne : dex ≠ d := by
          rintro rfl
          cases step with
          | router _ step =>
            cases step with
            | forget _ =>
              rw [RouterState.quotes, Publication.Board.change, quoteAt_erase, if_pos rfl] at hq
              cases hq
        refine ⟨x.stage, ?_, hquote⟩
        show ((s.sessions.modify d _).lookup dex).map Session.stage = _
        rw [FiniteMap.lookup_modify, if_neg hne, hx, Option.map_some]
      | reject d reply => exact ⟨_, (stage_reply _ d dex [reply]).trans hstays, hquote⟩
      | deliver task batch => exact ⟨_, (stage_deliverItems _ _ dex).trans hstays, hquote⟩
      | connect d => exact ⟨_, hstays, hquote⟩
      | register q => exact ⟨_, hstays, hquote⟩
      | consume task batch => exact ⟨_, hstays, hquote⟩
      | publish step => exact ⟨_, hstays, hquote⟩

/-- A quote was stored before the step, or its connection is reading. -/
theorem Step.quote_origin {pair : Pair} {q : Quote} (h : Step cfg s e s')
    (hq : quoteAt s'.routing.router.quotes dex pair = some q) :
    quoteAt s.routing.router.quotes dex pair = some q ∨ s'.stageOf dex = some .reading := by
  have hrouter : ∀ {re : RouterEvent} {r : RouterState},
      RouterState.Step cfg.quoteTtlMs s.routing.router re r →
      quoteAt r.quotes dex pair = some q →
      quoteAt s.routing.router.quotes dex pair = some q ∨ re = .register q ∧ q.dex = dex := by
    intro re r hstep hq
    rcases hstep.quoteAt_origin hq with hold | ⟨he, hdex, -⟩
    · exact Or.inl hold
    · exact Or.inr ⟨he, hdex.symm⟩
  cases h with
  | number _ step =>
    cases step with
    | router _ step =>
      rcases hrouter step hq with hold | ⟨he, -⟩
      · exact Or.inl hold
      · cases he
  | routing allowed step =>
    cases step with
    | matcher _ _ => exact Or.inl hq
    | router _ step =>
      rcases hrouter step hq with hold | ⟨rfl, rfl⟩
      · exact Or.inl hold
      · exact Or.inr allowed
    | deliver _ step =>
      rcases hrouter step hq with hold | ⟨he, -⟩
      · exact Or.inl hold
      · cases he
  | _ => exact Or.inl hq

/-- **One step.** -/
theorem Accounted.step (h : s.Accounted) (hstep : Step cfg s e s') : s'.Accounted where
  known := h.known.step hstep
  count := h.count_step hstep
  quoting := fun hq => by
    rcases hstep.quote_origin hq with hold | hreading
    · obtain ⟨stage, hstage, hquote⟩ := h.quoting hold
      obtain ⟨x, hx, rfl⟩ := stageOf_eq_some hstage
      exact hstep.mayQuote h.known hx hquote hq
    · exact ⟨_, hreading, rfl⟩

end Accounts

end Server

theorem accounted_of_run {cfg : RouterConfig} {feed : PriceFeed} {triangularEnabled : Bool}
    {hooks : Option RouterHooks} {guard : Guard Server ServerEvent}
    {history : List (Server × ServerEvent)} {s : Server}
    (hrun : Run (Server.Step cfg) guard (Server.boot feed triangularEnabled hooks) history s) :
    s.Accounted :=
  hrun.invariant (P := fun _ s => s.Accounted)
    (Server.accounted_boot feed triangularEnabled hooks) fun h _ hstep => h.step hstep

/-- **The count is right, and no quote outlives its connection.**  In every run `conn_count` is the
number of connections that were counted and are not closed, so the saturating decrement never
saturates; and a stored quote is of a connection among them.  When all of them are closed, the
count is back at zero and no quote is stored. -/
theorem connections_accounted (cfg : RouterConfig) (feed : PriceFeed) (triangularEnabled : Bool)
    (hooks : Option RouterHooks) {history : List (Server × ServerEvent)} {s : Server}
    (hrun : Run (Server.Step cfg) unguarded (Server.boot feed triangularEnabled hooks) history s) :
    s.connCount = s.population ConnStage.isCounted ∧
    (∀ dex pair q, quoteAt s.routing.router.quotes dex pair = some q →
      ∃ stage, s.stageOf dex = some stage ∧ stage.isCounted = true) ∧
    ((∀ dex stage, s.stageOf dex = some stage → stage = .closed) →
      s.connCount = 0 ∧ ∀ dex pair, quoteAt s.routing.router.quotes dex pair = none) := by
  have hacc := accounted_of_run hrun
  have hquote : ∀ dex pair q, quoteAt s.routing.router.quotes dex pair = some q →
      ∃ stage, s.stageOf dex = some stage ∧ stage.isCounted = true := fun dex pair q hq => by
    obtain ⟨stage, hstage, hmay⟩ := hacc.quoting hq
    exact ⟨stage, hstage, ConnStage.isCounted_of_mayQuote hmay⟩
  refine ⟨hacc.count, hquote, fun hclosed => ⟨?_, fun dex pair => ?_⟩⟩
  · rw [hacc.count]
    refine Finset.sum_eq_zero fun dex _ => ?_
    cases hx : s.sessions.lookup dex with
    | none => rfl
    | some x =>
      have hstage : x.stage = .closed := hclosed dex x.stage (by rw [Server.stageOf, hx]; rfl)
      show x.stage.isCounted.toNat = 0
      rw [hstage]
      rfl
  · by_contra hne
    obtain ⟨q, hq⟩ := Option.ne_none_iff_exists'.mp hne
    obtain ⟨stage, hstage, hcounted⟩ := hquote dex pair q hq
    rw [hclosed dex stage hstage] at hcounted
    cases hcounted

/-- A DEX joins, posts a quote and leaves: while it is there it is counted and its quote is
stored, and in the end neither. -/
theorem closed_connection_accounted :
    (∃ history s, Run (Server.Step oneSlot) unguarded (Server.boot (fun _ => none) false none)
      history s ∧ s.connCount = 1 ∧ s.population ConnStage.isCounted = 1 ∧
      (quoteAt s.routing.router.quotes 1 (1, 2)).isSome = true) ∧
    ∃ history s, Run (Server.Step oneSlot) unguarded (Server.boot (fun _ => none) false none)
      history s ∧ s.stageOf 1 = some .closed ∧ s.connCount = 0 ∧
      ∀ dex pair, quoteAt s.routing.router.quotes dex pair = none := by
  have h₁ : Run (Server.Step oneSlot) unguarded (Server.boot (fun _ => none) false none) _ _ :=
    Run.single (@Server.Step.accept _ _ validRequest (by decide))
  obtain ⟨joining, h₂, -⟩ := Server.joins oneSlot (P := fun _ _ => True) (fun _ _ _ => trivial)
    (s := { Server.boot (fun _ => none) false none with upgrading := 1 }) (by decide)
  -- the quote is stored and published
  have h₃ := (h₁.append h₂).step trivial (@Server.Step.routing _ _
    (.router (.register (postedQuote 1 0))) _ rfl (.router nofun
      (@RouterState.Step.register 1000 _ 1 (.ok parMsg) 0 (postedQuote 1 0) (by decide) (by decide)
        rfl)))
  have h₄ := h₃.step trivial (@Server.Step.routing _ _ (.router (.publish _)) _ trivial
    (.router nofun (.publish (.compute (show _ = [] ++ _ from rfl) ⟨_, visits_first, rfl⟩))))
  have h₅ := h₄.step trivial (@Server.Step.routing _ _ (.router (.publish _)) _ trivial
    (.router nofun (.publish (.send (show _ = [] ++ _ from rfl) (by decide)))))
  -- the connection is closed
  have h₆ := h₅.step trivial
    (@Server.Step.close _ _ 1 ⟨.reading, [.authOk], [], true⟩ rfl rfl)
  have h₇ := h₆.step trivial (@Server.Step.routing _ _ (.router (.disconnect 1)) _ rfl
    (.router nofun (.disconnect (by decide) (by decide))))
  have h₈ := h₇.step trivial (@Server.Step.routing _ _ (.router (.forget 1)) _ rfl
    (.router nofun (.forget (show _ = [] ++ _ from rfl))))
  have h₉ := h₈.step trivial
    (@Server.Step.uncount _ _ 1 ⟨.forgotten, [.authOk], [], true⟩ rfl rfl)
  obtain ⟨-, -, hempty⟩ := connections_accounted _ _ _ _ h₉
  obtain ⟨hcount, hquotes⟩ := hempty fun dex stage hstage => by
    by_cases hdex : dex = 1
    · subst hdex
      exact (Option.some.inj hstage).symm
    · have hnext : (Routing.boot (fun _ => none) false none).router.nextDex = 1 := rfl
      simp [Server.stageOf, Server.move, Server.sessionsAfter, Server.joined, Server.boot,
        FiniteMap.lookup_modify, hnext, hdex] at hstage
  exact ⟨⟨_, _, h₅, rfl, (connections_accounted _ _ _ _ h₅).1.symm, rfl⟩, _, _, h₉, rfl, hcount,
    hquotes⟩

/-! ## The limit -/

theorem lt_of_wsHandler {cfg : RouterConfig} {connCount : Nat} {req : UpgradeRequest}
    (h : wsHandler cfg connCount req = .ok ()) : connCount < cfg.maxConnections := by
  unfold wsHandler at h
  split at h
  · cases h
  · split at h
    · cases h
    · rename_i hlt
      exact Nat.lt_of_not_le hlt

/-- A request is admitted only while fewer than `p` are in flight. -/
def Overlap (cfg : RouterConfig) (p : Nat) (s : Server) (e : ServerEvent) : Prop :=
  ∀ req, e = .request req → wsHandler cfg s.connCount req = .ok () → s.inFlight < p

namespace Server
variable {cfg : RouterConfig} {p : Nat} {s s' : Server} {e : ServerEvent}

/-- A request goes from the requests in flight to the connections, and comes from outside. -/
theorem Step.inFlight (h : Step cfg s e s') (hknown : s.Known) :
    s'.connCount + s'.inFlight ≤ s.connCount + s.inFlight ∨
      ∃ req, e = .request req ∧ wsHandler cfg s.connCount req = .ok () ∧
        s'.connCount + s'.inFlight = s.connCount + s.inFlight + 1 := by
  have htally := h.tally ConnStage.isNumbered hknown
  unfold Server.inFlight
  cases h with
  | accept admitted =>
    refine Or.inr ⟨_, rfl, admitted, ?_⟩
    show s.connCount + (s.upgrading + 1 + s.population _) = _
    omega
  | refuse _ => exact Or.inl (Nat.le_refl _)
  | upgradeLost upgrading =>
    left
    rename_i rest
    show s.connCount + (rest + s.population _) ≤ _
    omega
  | number upgrading _ =>
    left
    simp only [ServerEvent.moves, Option.map_none, Option.map_some, Option.getD_none,
      Option.getD_some, ConnStage.isNumbered, Bool.toNat_true, Bool.toNat_false] at htally
    dsimp only
    omega
  | count _ _ =>
    left
    simp only [ServerEvent.moves, Option.map_some, Option.getD_some, ConnStage.isNumbered,
      Bool.toNat_true, Bool.toNat_false] at htally
    dsimp only [move] at htally ⊢
    omega
  | list _ _ => exact Or.inl (Nat.add_le_add_left (Nat.add_le_add_left htally.le _) _)
  | greet _ _ => exact Or.inl (Nat.add_le_add_left (Nat.add_le_add_left htally.le _) _)
  | write _ _ _ _ => exact Or.inl (Nat.add_le_add_left (Nat.add_le_add_left htally.le _) _)
  | writerEnds _ _ => exact Or.inl (Nat.add_le_add_left (Nat.add_le_add_left htally.le _) _)
  | close _ _ => exact Or.inl (Nat.add_le_add_left (Nat.add_le_add_left htally.le _) _)
  | uncount _ _ =>
    exact Or.inl (Nat.add_le_add (Nat.sub_le _ _) (Nat.add_le_add_left htally.le _))
  | routing _ _ =>
    refine Or.inl (Nat.add_le_add_left (Nat.add_le_add_left ?_ _) _)
    rename_i event _ _ _
    cases event with
    | matcher event => exact htally.le
    | router event =>
      cases event with
      | disconnect d => exact htally.le
      | forget d => exact htally.le
      | connect d => exact htally.le
      | register q => exact htally.le
      | reject d reply => exact htally.le
      | deliver task batch => exact htally.le
      | consume task batch => exact htally.le
      | publish step => exact htally.le

/-- **One step** keeps the bound. -/
theorem Step.capped (h : Step cfg s e s') (hknown : s.Known) (hoverlap : Overlap cfg p s e)
    (hcap : s.connCount + s.inFlight ≤ cfg.maxConnections - 1 + p) :
    s'.connCount + s'.inFlight ≤ cfg.maxConnections - 1 + p := by
  rcases h.inFlight hknown with hle | ⟨req, he, hadmitted, heq⟩
  · exact hle.trans hcap
  · have hroom := lt_of_wsHandler hadmitted
    have hflight := hoverlap req he hadmitted
    omega

/-! ### How the bound is reached -/

/-- A state with these numbers is reached, and nothing is in flight but the requests that wait
for their upgrade. -/
def Filled (cfg : RouterConfig) (p : Nat) (s₀ : Server) (connCount upgrading : Nat) : Prop :=
  ∃ history s, Run (Step cfg) (fun _ => Overlap cfg p) s₀ history s ∧
    s.connCount = connCount ∧ s.upgrading = upgrading ∧ s.population ConnStage.isNumbered = 0

variable {feed : PriceFeed} {triangularEnabled : Bool} {hooks : Option RouterHooks}
  {connCount upgrading : Nat}

theorem filled_boot : Filled cfg p (boot feed triangularEnabled hooks) 0 0 :=
  ⟨_, _, Run.start, rfl, rfl, population_boot _ feed triangularEnabled hooks⟩

/-- A request is admitted. -/
theorem Filled.request {req : UpgradeRequest}
    (h : Filled cfg p (boot feed triangularEnabled hooks) connCount upgrading)
    (hadmitted : wsHandler cfg connCount req = .ok ()) (hp : upgrading < p) :
    Filled cfg p (boot feed triangularEnabled hooks) connCount (upgrading + 1) := by
  obtain ⟨history, s, hrun, rfl, rfl, hnone⟩ := h
  have hflight : s.inFlight < p := by
    rw [inFlight, hnone]
    exact hp
  exact ⟨_, _, hrun.step (fun _ _ _ => hflight) (.accept hadmitted), rfl, rfl, hnone⟩

/-- A DEX that waits for its upgrade joins. -/
theorem Filled.join
    (h : Filled cfg p (boot feed triangularEnabled hooks) connCount (upgrading + 1)) :
    Filled cfg p (boot feed triangularEnabled hooks) (connCount + 1) upgrading := by
  obtain ⟨history, s, hrun, rfl, hupgrading, hnone⟩ := h
  have hfree : ∀ s e, (∀ req, e ≠ .request req) → Overlap cfg p s e :=
    fun _ _ hno req he => absurd he (hno req)
  obtain ⟨joining, hjoin, -⟩ := joins cfg hfree (s := s) (by omega)
  refine ⟨_, _, hrun.trans hjoin, rfl, ?_, ?_⟩
  · show s.upgrading - 1 = upgrading
    omega
  · have hnew : s.routing.router.nextDex ∉ s.sessions := fun hmem =>
      absurd ((accounted_of_run hrun).known.numbered _ hmem) (Nat.lt_irrefl _)
    exact (FiniteMap.total_insert_of_notMem hnew _ _).trans hnone

/-- All that wait join. -/
theorem Filled.join_all (h : Filled cfg p (boot feed triangularEnabled hooks) connCount upgrading) :
    Filled cfg p (boot feed triangularEnabled hooks) (connCount + upgrading) 0 := by
  induction upgrading generalizing connCount with
  | zero => exact h
  | succ upgrading ih =>
    have := ih h.join
    rwa [Nat.add_right_comm, Nat.add_assoc] at this

/-- `p` requests arrive before any of them is counted. -/
theorem Filled.requests {req : UpgradeRequest}
    (h : Filled cfg p (boot feed triangularEnabled hooks) connCount 0)
    (hadmitted : wsHandler cfg connCount req = .ok ()) {n : Nat} (hn : n ≤ p) :
    Filled cfg p (boot feed triangularEnabled hooks) connCount n := by
  induction n with
  | zero => exact h
  | succ n ih => exact (ih (Nat.le_of_succ_le hn)).request hadmitted hn

/-- Connections are made one after another. -/
theorem filled_up {req : UpgradeRequest} (hp : 0 < p)
    (hadmitted : ∀ n < cfg.maxConnections, wsHandler cfg n req = .ok ()) {n : Nat}
    (hn : n < cfg.maxConnections) : Filled cfg p (boot feed triangularEnabled hooks) n 0 := by
  induction n with
  | zero => exact filled_boot
  | succ n ih =>
    have hlt : n < cfg.maxConnections := Nat.lt_of_succ_lt hn
    exact ((ih hlt).request (hadmitted n hlt) hp).join

end Server

theorem wsHandler_of_authorized {cfg : RouterConfig} {req : UpgradeRequest}
    (h : authorized cfg.authTokens ((bearerFrom req.authorization).or req.token) = true) {n : Nat}
    (hn : n < cfg.maxConnections) : wsHandler cfg n req = .ok () := by
  rw [wsHandler, h, if_neg (by decide), if_neg hn.not_ge]

/-- **The limit is kept up to the overlap of the requests.**  When a request is admitted only while
fewer than `p` others are in flight, there are never more than `max_connections - 1 + p`
connections, those in flight included; so the limit is exact for requests that do not overlap.
The bound is sharp: whoever has a token can reach it, for every `p`. -/
theorem connection_cap (cfg : RouterConfig) (p : Nat) (feed : PriceFeed)
    (triangularEnabled : Bool) (hooks : Option RouterHooks) :
    (∀ history s, Run (Server.Step cfg) (fun _ => Overlap cfg p)
        (Server.boot feed triangularEnabled hooks) history s →
      s.connCount + s.inFlight ≤ cfg.maxConnections - 1 + p) ∧
    ∀ req : UpgradeRequest,
      authorized cfg.authTokens ((bearerFrom req.authorization).or req.token) = true →
      0 < cfg.maxConnections → 0 < p →
      ∃ history s, Run (Server.Step cfg) (fun _ => Overlap cfg p)
        (Server.boot feed triangularEnabled hooks) history s ∧
        s.connCount = cfg.maxConnections - 1 + p := by
  constructor
  · intro history s hrun
    have hinv : s.Known ∧ s.connCount + s.inFlight ≤ cfg.maxConnections - 1 + p := by
      refine hrun.invariant (P := fun _ s => s.Known ∧ s.connCount + s.inFlight ≤ _)
        ⟨Server.known_boot feed triangularEnabled hooks, ?_⟩ fun h hoverlap hstep =>
          ⟨h.1.step hstep, hstep.capped h.1 hoverlap h.2⟩
      rw [Server.inFlight, Server.population_boot]
      exact Nat.zero_le _
    exact hinv.2
  · intro req hauth hmax hp
    have hadmitted : ∀ n < cfg.maxConnections, wsHandler cfg n req = .ok () :=
      fun n hn => wsHandler_of_authorized hauth hn
    have hlast : cfg.maxConnections - 1 < cfg.maxConnections := Nat.sub_one_lt_of_lt hmax
    have hfull : Server.Filled cfg p (Server.boot feed triangularEnabled hooks)
        (cfg.maxConnections - 1) 0 := Server.filled_up hp hadmitted hlast
    have hwaiting := hfull.requests (hadmitted _ hlast) (Nat.le_refl p)
    obtain ⟨history, s, hrun, hcount, -⟩ := hwaiting.join_all
    exact ⟨history, s, hrun, hcount⟩

/-- Two requests that overlap get two connections where one is allowed. -/
theorem two_connections_of_one : oneSlot.maxConnections = 1 ∧
    ∃ history s, Run (Server.Step oneSlot) (fun _ => Overlap oneSlot 2)
      (Server.boot (fun _ => none) false none) history s ∧ s.connCount = 2 :=
  ⟨rfl, (connection_cap oneSlot 2 (fun _ => none) false none).2 validRequest (by decide) (by decide)
    (by decide)⟩

end PswapSolver
