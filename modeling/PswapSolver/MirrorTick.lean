import Mathlib.Algebra.Order.Field.Basic
import Mathlib.Data.List.Flatten
import Mathlib.Data.List.Nodup
import Mathlib.Tactic.Positivity
import PswapSolver.Mirror
import PswapSolver.Runs
import PswapSolver.Submission

/-! # The ticks of the mirror

The model of `tick`, `claim_incoming`, `parse_pswap` and `next_unit` in
`mock-mirror/src/mirror.rs`.  Each tick syncs.  When the sync brings new notes, the mirror goes
through them, public ones first, and posts a counter-order for each order of a user, up to a
limit; a coin decides whether the whole order or half of it is mirrored.  When the sync brings
none, the mirror claims what was paid to it.

The new notes are reported once, so an order that is not mirrored in its tick never is.  What a
tick mirrors is a function of the notes and of the coin (`planned`), and does not depend on the
submissions (`mirror_runs`).  A counter-order that is reported and not on the chain comes after a
transaction that landed unnoticed, maybe in an earlier tick (`posted_is_real`).
-/
namespace PswapSolver.MockMirror
open Runs

variable {World Request : Type}

abbrev AccountId := Nat

abbrev NoteId := Nat

/-! ## The coin -/

/-- The generator of `next_unit`. -/
def nextState (state : UInt64) : UInt64 := state * 6364136223846793005 + 1442695040888963407

/-- The top 53 bits as a number in [0, 1); a double has it exactly. -/
def unitOf (state : UInt64) : ℚ := ((state >>> 11).toNat : ℚ) / 2 ^ 53

theorem unitOf_nonneg (state : UInt64) : 0 ≤ unitOf state := by
  unfold unitOf
  positivity

theorem unitOf_lt_one (state : UInt64) : unitOf state < 1 := by
  have hlt : (state >>> 11).toNat < 2 ^ 53 := by
    have h64 : state.toNat < 2 ^ 64 := state.toNat_lt
    rw [UInt64.toNat_shiftRight]
    show state.toNat >>> 11 < 2 ^ 53
    rw [Nat.shiftRight_eq_div_pow]
    omega
  unfold unitOf
  rw [div_lt_one (by positivity)]
  exact_mod_cast hlt

/-! ## The notes -/

/-- An order of a user. -/
structure UserOrder where
  offeredFaucet : TokenId
  offeredAmount : Nat
  requestedFaucet : TokenId
  requestedAmount : Nat
  creator : AccountId
  offered_lt : offeredAmount < 2 ^ 64
  requested_lt : requestedAmount < 2 ^ 64

/-- What the mirror looks at in a note: whether its script is that of a PSWAP note, and what
`PswapNote::try_from` reads from it. -/
structure NoteView where
  isPswap : Bool
  order : Option UserOrder

/-- `parse_pswap` -/
def parsePswap (note : NoteView) : Option UserOrder :=
  if note.isPswap = false then none
  else
    note.order.bind fun order =>
      if order.offeredAmount = 0 ∨ order.requestedAmount = 0 then none else some order

structure MirrorConfig where
  mockId : AccountId
  solverId : AccountId
  spreadBps : Nat
  partialFillProbability : ℚ
  maxMirrorsPerTick : Nat

/-- **A counter-order to be posted**: the order it answers, the fill fraction, and its amounts. -/
structure Plan where
  noteId : NoteId
  order : UserOrder
  fill : FillFraction
  counterOffered : Nat
  counterRequested : Nat

/-- The coin decides how much of an order is mirrored. -/
def MirrorConfig.fill (cfg : MirrorConfig) (rng : UInt64) : FillFraction :=
  if unitOf rng < cfg.partialFillProbability then .half else .full

/-- What the loop does with a note before it posts anything: the generator moves on for an order
of somebody else, and there is a plan unless the order is dust. -/
def consider (cfg : MirrorConfig) (note : Option NoteView) (id : NoteId) (rng : UInt64) :
    UInt64 × Option Plan :=
  match note.bind parsePswap with
  | none => (rng, none)
  | some order =>
    if order.creator = cfg.mockId ∨ order.creator = cfg.solverId then (rng, none)
    else
      let rng := nextState rng
      let fill := cfg.fill rng
      (rng, (favorableCounter order.offeredAmount order.requestedAmount cfg.spreadBps fill.num
        fill.den).map fun amounts => ⟨id, order, fill, amounts.1, amounts.2⟩)

/-- What a tick meets. -/
structure TickInputs (Request : Type) where
  /-- The new public and the new private notes, if the sync succeeds. -/
  summary : Option (List NoteId × List NoteId)
  /-- The note, if the store has it and it can be read. -/
  inputNote : NoteId → Option NoteView
  /-- `FungibleAsset::new` succeeds. -/
  fungibleAsset : TokenId → Nat → Bool
  /-- The counter note of an order can be built. -/
  counterBuilt : NoteId → Bool
  /-- The request that posts the counter note, the same at each attempt, if it can be built. -/
  counterRequest : NoteId → Option Request
  /-- The committed notes, if the query succeeds; a record need not be readable. -/
  committed : Option (List (NoteId × Option NoteView))
  /-- The request that consumes a note, the same at each attempt, if it can be built. -/
  claimRequest : NoteId → Option Request
  /-- The new notes that come with the syncs before a retry.  Their summaries are dropped. -/
  dropped : List NoteId

/-! ## The loop over the new notes -/

/-- A counter-order: what came of it, unless the note could not be built. -/
structure Mirrored (World : Type) where
  plan : Plan
  outcome : Option (Outcome World)

/-- The state of the loop. -/
structure Mirroring (World : Type) where
  rng : UInt64
  world : World
  considered : Nat
  mirrored : List (Mirrored World)
  /-- An asset was rejected, and the tick ended with an error. -/
  aborted : Bool

/-- The counter-order is built and submitted. -/
def post (client : MidenClient World Request) (i : TickInputs Request) (plan : Plan)
    (st : Mirroring World) : Mirroring World :=
  if i.counterBuilt plan.noteId then
    let out := submitWithBackoff client (fun _ => i.counterRequest plan.noteId) st.world
    { st with
      world := out.world
      considered := st.considered + 1
      mirrored := st.mirrored ++ [⟨plan, some out⟩] }
  else
    { st with considered := st.considered + 1, mirrored := st.mirrored ++ [⟨plan, none⟩] }

/-- **The loop of `tick`.** -/
def mirrorNotes (client : MidenClient World Request) (cfg : MirrorConfig)
    (i : TickInputs Request) : List NoteId → Mirroring World → Mirroring World
  | [], st => st
  | id :: ids, st =>
    if cfg.maxMirrorsPerTick ≤ st.considered then st
    else
      match consider cfg (i.inputNote id) id st.rng with
      | (rng, none) => mirrorNotes client cfg i ids { st with rng := rng }
      | (rng, some plan) =>
        if i.fungibleAsset plan.order.requestedFaucet plan.counterOffered &&
            i.fungibleAsset plan.order.offeredFaucet plan.counterRequested then
          mirrorNotes client cfg i ids (post client i plan { st with rng := rng })
        else { st with rng := rng, aborted := true }

/-! ## Claims -/

/-- The notes `claim_incoming` consumes: none if a record cannot be read. -/
def claimable (i : TickInputs Request) : List (NoteId × NoteView) :=
  match i.committed with
  | none => []
  | some records =>
    match records.mapM fun record => record.2.map (Prod.mk record.1) with
    | none => []
    | some notes => notes.filter fun note => note.2.isPswap = false

/-- Consumes the notes one by one: the world behind them, and what came of each. -/
def claimNotes (client : MidenClient World Request) (i : TickInputs Request) :
    List (NoteId × NoteView) → World → World × List (Outcome World)
  | [], w => (w, [])
  | note :: notes, w =>
    let out := submitWithBackoff client (fun _ => i.claimRequest note.1) w
    let rest := claimNotes client i notes out.world
    (rest.1, out :: rest.2)

/-! ## The tick -/

structure MirrorState (World : Type) where
  rng : UInt64
  world : World

/-- What a tick did. -/
structure TickReport (World : Type) where
  fresh : List NoteId
  mirrored : List (Mirrored World)
  claimed : List (NoteId × NoteView)
  claims : List (Outcome World)
  aborted : Bool

/-- **`tick`**, up to the warnings about the inventory. -/
def tick (client : MidenClient World Request) (cfg : MirrorConfig) (i : TickInputs Request)
    (s : MirrorState World) : MirrorState World × TickReport World :=
  let world := client.syncState s.world
  match i.summary with
  | none => ({ s with world := world }, ⟨[], [], [], [], false⟩)
  | some (newPublic, newPrivate) =>
    if newPublic = [] ∧ newPrivate = [] then
      let claims := claimNotes client i (claimable i) world
      ({ s with world := claims.1 }, ⟨[], [], claimable i, claims.2, false⟩)
    else
      let st := mirrorNotes client cfg i (newPublic ++ newPrivate) ⟨s.rng, world, 0, [], false⟩
      (⟨st.rng, st.world⟩, ⟨newPublic ++ newPrivate, st.mirrored, [], [], st.aborted⟩)

/-! ## What a tick mirrors -/

/-- **The plans for some notes** when nothing is limited: one for each order of somebody else that
is not dust, in the order of the notes. -/
def planned (cfg : MirrorConfig) (i : TickInputs Request) : List NoteId → UInt64 → List Plan
  | [], _ => []
  | id :: ids, rng =>
    (consider cfg (i.inputNote id) id rng).2.toList ++
      planned cfg i ids (consider cfg (i.inputNote id) id rng).1

/-- Every amount up to an accepted one is accepted, and those of an order are. -/
structure AssetsOk (i : TickInputs Request) : Prop where
  smaller : ∀ {t a b}, i.fungibleAsset t a = true → b ≤ a → i.fungibleAsset t b = true
  order : ∀ {id note order}, i.inputNote id = some note → parsePswap note = some order →
    i.fungibleAsset order.offeredFaucet order.offeredAmount = true ∧
    i.fungibleAsset order.requestedFaucet order.requestedAmount = true

/-- **What is known of a plan**: it answers an order of somebody else, with the fraction of what
the order requests for less than that fraction of what it offers. -/
structure Plan.Fair (cfg : MirrorConfig) (i : TickInputs Request) (plan : Plan) : Prop where
  note : ∃ note, i.inputNote plan.noteId = some note ∧ parsePswap note = some plan.order
  notOwn : plan.order.creator ≠ cfg.mockId ∧ plan.order.creator ≠ cfg.solverId
  pos : 0 < plan.counterOffered ∧ 0 < plan.counterRequested
  offered : plan.counterOffered = plan.fill.part plan.order.requestedAmount
  requested : plan.counterRequested =
    plan.fill.part plan.order.offeredAmount * (10000 - cfg.spreadBps) / 10000
  full : cfg.partialFillProbability ≤ 0 → plan.fill = .full
  half : 1 ≤ cfg.partialFillProbability → plan.fill = .half

section Loop
variable {client : MidenClient World Request} {cfg : MirrorConfig} {i : TickInputs Request}

theorem fill_full (h : cfg.partialFillProbability ≤ 0) (rng : UInt64) : cfg.fill rng = .full :=
  if_neg (h.trans (unitOf_nonneg rng)).not_gt

theorem fill_half (h : 1 ≤ cfg.partialFillProbability) (rng : UInt64) : cfg.fill rng = .half :=
  if_pos ((unitOf_lt_one rng).trans_le h)

theorem consider_fair (hspread : 1 ≤ cfg.spreadBps) {id : NoteId} {rng : UInt64} {plan : Plan}
    (h : (consider cfg (i.inputNote id) id rng).2 = some plan) :
    plan.noteId = id ∧ plan.Fair cfg i := by
  unfold consider at h
  cases hnote : (i.inputNote id).bind parsePswap with
  | none =>
    rw [hnote] at h
    cases h
  | some order =>
    rw [hnote] at h
    obtain ⟨note, hget, hparse⟩ := Option.bind_eq_some_iff.mp hnote
    by_cases hown : order.creator = cfg.mockId ∨ order.creator = cfg.solverId
    · simp [hown] at h
    simp only [if_neg hown] at h
    obtain ⟨⟨offered, requested⟩, hcounter, rfl⟩ := Option.map_eq_some_iff.mp h
    obtain ⟨-, hpos, hpos', hoffered, hrequested⟩ :=
      favorableCounter_some order.offered_lt order.requested_lt hspread hcounter
    exact ⟨rfl, ⟨note, hget, hparse⟩, not_or.mp hown, ⟨hpos, hpos'⟩, hoffered, hrequested,
      fun hp => fill_full hp _, fun hp => fill_half hp _⟩

/-- A plan asks for no asset that could be rejected. -/
theorem Plan.Fair.accepted {plan : Plan} (h : plan.Fair cfg i) (hassets : AssetsOk i) :
    i.fungibleAsset plan.order.requestedFaucet plan.counterOffered = true ∧
    i.fungibleAsset plan.order.offeredFaucet plan.counterRequested = true := by
  obtain ⟨note, hget, hparse⟩ := h.note
  obtain ⟨hoffered, hrequested⟩ := hassets.order hget hparse
  constructor
  · apply hassets.smaller hrequested
    rw [h.offered]
    exact plan.fill.part_le _
  · apply hassets.smaller hoffered
    rw [h.requested]
    have hpart : plan.fill.part plan.order.offeredAmount ≤ plan.order.offeredAmount :=
      plan.fill.part_le _
    have hshave : plan.fill.part plan.order.offeredAmount * (10000 - cfg.spreadBps) ≤
        plan.fill.part plan.order.offeredAmount * 10000 :=
      Nat.mul_le_mul_left _ (Nat.sub_le _ _)
    omega

theorem planned_fair (hspread : 1 ≤ cfg.spreadBps) {ids : List NoteId} {rng : UInt64}
    {plan : Plan} (h : plan ∈ planned cfg i ids rng) : plan.Fair cfg i := by
  induction ids generalizing rng with
  | nil => cases h
  | cons id ids ih =>
    rcases List.mem_append.mp h with hhead | htail
    · exact (consider_fair hspread (Option.mem_toList.mp hhead)).2
    · exact ih htail

/-- Each note has one plan at most. -/
theorem planned_sublist (hspread : 1 ≤ cfg.spreadBps) (ids : List NoteId) (rng : UInt64) :
    ((planned cfg i ids rng).map Plan.noteId).Sublist ids := by
  induction ids generalizing rng with
  | nil => exact List.Sublist.slnil
  | cons id ids ih =>
    unfold planned
    cases hplan : (consider cfg (i.inputNote id) id rng).2 with
    | none => exact (ih _).cons id
    | some plan =>
      rw [Option.toList_some, List.singleton_append, List.map_cons,
        (consider_fair hspread hplan).1]
      exact (ih _).cons_cons id

theorem post_plan (client : MidenClient World Request) (i : TickInputs Request) (plan : Plan)
    (st : Mirroring World) :
    (post client i plan st).rng = st.rng ∧
    (post client i plan st).considered = st.considered + 1 ∧
    (post client i plan st).aborted = st.aborted ∧
    (post client i plan st).mirrored.map Mirrored.plan =
      st.mirrored.map Mirrored.plan ++ [plan] := by
  unfold post
  by_cases hbuilt : i.counterBuilt plan.noteId = true
  · simp [hbuilt]
  · simp [hbuilt]

/-- **The loop follows the plans up to the limit**, whatever becomes of the submissions. -/
theorem mirrorNotes_spec (client : MidenClient World Request) (hspread : 1 ≤ cfg.spreadBps)
    (hassets : AssetsOk i) (ids : List NoteId) (st : Mirroring World) :
    (mirrorNotes client cfg i ids st).mirrored.map Mirrored.plan = st.mirrored.map Mirrored.plan ++
      (planned cfg i ids st.rng).take (cfg.maxMirrorsPerTick - st.considered) ∧
    (mirrorNotes client cfg i ids st).aborted = st.aborted := by
  induction ids generalizing st with
  | nil => simp [mirrorNotes, planned]
  | cons id ids ih =>
    unfold mirrorNotes planned
    by_cases hcap : cfg.maxMirrorsPerTick ≤ st.considered
    · simp [hcap]
    rw [if_neg hcap]
    cases hconsider : consider cfg (i.inputNote id) id st.rng with
    | mk rng found =>
      cases found with
      | none => exact ih { st with rng := rng }
      | some plan =>
        have hfair := (consider_fair (i := i) hspread (congrArg Prod.snd hconsider)).2
        obtain ⟨hrequested, hoffered⟩ := hfair.accepted hassets
        obtain ⟨hrng, hconsidered, haborted, hmirrored⟩ := post_plan client i plan
          { st with rng }
        obtain ⟨hplans, hnot⟩ := ih (post client i plan { st with rng })
        have hleft : cfg.maxMirrorsPerTick - st.considered =
            cfg.maxMirrorsPerTick - (st.considered + 1) + 1 := by omega
        simp only [hrequested, hoffered, Bool.and_self, if_true]
        rw [hplans, hnot, hmirrored, hrng, hconsidered, haborted, hleft]
        simp

end Loop

/-! ## Runs -/

namespace TickInputs

/-- The notes a tick is told of. -/
def fresh (i : TickInputs Request) : List NoteId :=
  match i.summary with
  | none => []
  | some (newPublic, newPrivate) => newPublic ++ newPrivate

/-- The notes the syncs of a tick bring. -/
def brought (i : TickInputs Request) : List NoteId := i.fresh ++ i.dropped

end TickInputs

/-- The loop of `run`: an error of a tick is logged. -/
def TickStep (client : MidenClient World Request) (cfg : MirrorConfig) (s : MirrorState World)
    (i : TickInputs Request) (s' : MirrorState World) : Prop :=
  s' = (tick client cfg i s).1

/-- What a tick of a run did. -/
def report (client : MidenClient World Request) (cfg : MirrorConfig)
    (x : MirrorState World × TickInputs Request) : TickReport World := (tick client cfg x.2 x.1).2

/-- The orders a tick posted counter-orders for. -/
def TickReport.answered (r : TickReport World) : List NoteId :=
  r.mirrored.map fun m => m.plan.noteId

/-- **A sync brings only notes that no sync before it has brought.** -/
def BroughtOnce : Guard (MirrorState World) (TickInputs Request) := fun history _ i =>
  i.brought.Nodup ∧ ∀ x ∈ history, x.2.brought.Disjoint i.brought

section Runs
variable {client : MidenClient World Request} {cfg : MirrorConfig} {s₀ s : MirrorState World}
  {history : List (MirrorState World × TickInputs Request)}

/-- **What a tick did**, when no asset is rejected. -/
structure Ticked (client : MidenClient World Request) (cfg : MirrorConfig)
    (x : MirrorState World × TickInputs Request) : Prop where
  /-- The first plans, up to the limit. -/
  plans : (report client cfg x).mirrored.map Mirrored.plan =
    (planned cfg x.2 x.2.fresh x.1.rng).take cfg.maxMirrorsPerTick
  aborted : (report client cfg x).aborted = false
  /-- Claims wait for a tick without new notes, and spare the orders. -/
  claimed : ∀ note ∈ (report client cfg x).claimed, note.2.isPswap = false ∧ x.2.fresh = []

theorem isPswap_of_mem_claimable {i : TickInputs Request} {note : NoteId × NoteView}
    (h : note ∈ claimable i) : note.2.isPswap = false := by
  unfold claimable at h
  split at h
  · cases h
  · split at h
    · cases h
    · simpa using (List.mem_filter.mp h).2

theorem ticked (hspread : 1 ≤ cfg.spreadBps) {x : MirrorState World × TickInputs Request}
    (hassets : AssetsOk x.2) : Ticked client cfg x := by
  obtain ⟨s, i⟩ := x
  cases hsummary : i.summary with
  | none => constructor <;> simp [report, tick, TickInputs.fresh, hsummary, planned]
  | some news =>
    obtain ⟨newPublic, newPrivate⟩ := news
    have hfresh : i.fresh = newPublic ++ newPrivate := by simp [TickInputs.fresh, hsummary]
    by_cases hnone : newPublic = [] ∧ newPrivate = []
    · have hreport : report client cfg (s, i) = ⟨[], [], claimable i,
          (claimNotes client i (claimable i) (client.syncState s.world)).2, false⟩ := by
        simp [report, tick, hsummary, hnone]
      have hempty : i.fresh = [] := by rw [hfresh, hnone.1, hnone.2, List.append_nil]
      refine ⟨?_, ?_, ?_⟩
      · simp [hreport, hempty, planned]
      · rw [hreport]
      · intro note hnote
        rw [hreport] at hnote
        exact ⟨isPswap_of_mem_claimable hnote, hempty⟩
    · obtain ⟨hplans, hnot⟩ := mirrorNotes_spec client hspread hassets
        (newPublic ++ newPrivate) ⟨s.rng, client.syncState s.world, 0, [], false⟩
      refine ⟨?_, ?_, ?_⟩
      · simp only [report, tick, hsummary, if_neg hnone, hfresh]
        rw [hplans]
        simp
      · simp only [report, tick, hsummary, if_neg hnone]
        exact hnot
      · intro note hnote
        simp [report, tick, hsummary, hnone] at hnote

theorem Ticked.answered {x : MirrorState World × TickInputs Request} (h : Ticked client cfg x)
    (hspread : 1 ≤ cfg.spreadBps) : (report client cfg x).answered.Sublist x.2.brought := by
  have hmap : (report client cfg x).answered =
      ((report client cfg x).mirrored.map Mirrored.plan).map Plan.noteId := by
    rw [List.map_map]
    rfl
  rw [hmap, h.plans, List.map_take]
  exact ((List.take_sublist _ _).trans (planned_sublist hspread _ _)).trans
    (List.sublist_append_left _ _)

/-- Over a run, no note is brought twice. -/
theorem brought_nodup (hrun : Run (TickStep client cfg) BroughtOnce s₀ history s) :
    (history.flatMap fun x => x.2.brought).Nodup := by
  refine hrun.invariant (P := fun history _ => (history.flatMap fun x => x.2.brought).Nodup)
    List.nodup_nil fun ih hmeets _ => ?_
  rw [List.flatMap_append, List.flatMap_singleton, List.nodup_append']
  refine ⟨ih, hmeets.1, fun id hold hnew => ?_⟩
  obtain ⟨x, hx, hid⟩ := List.mem_flatMap.mp hold
  exact hmeets.2 x hx hid hnew

/-- Two ticks that are brought the same note are the same. -/
theorem brought_unique (hrun : Run (TickStep client cfg) BroughtOnce s₀ history s)
    {x y : MirrorState World × TickInputs Request} (hx : x ∈ history) (hy : y ∈ history)
    {id : NoteId} (hidx : id ∈ x.2.brought) (hidy : id ∈ y.2.brought) : x = y := by
  by_contra hne
  have hpair := (List.nodup_flatMap.mp (brought_nodup hrun)).2
  have : Std.Symm (Function.onFun List.Disjoint fun x :
      MirrorState World × TickInputs Request => x.2.brought) :=
    ⟨fun _ _ h => h.symm⟩
  exact hpair.forall hx hy hne hidx hidy

/-- **The counter-orders of a whole run.**  No order gets two.  A tick posts counter-orders for the
first orders of others that are not dust, up to the limit, in the order of its notes, whatever
becomes of the submissions; an order that its tick leaves out, or that comes with a sync before a
retry, never gets one.  Each counter-order offers the fraction of what the order requests and
requests less than that fraction of what it offers.  Notes are claimed only in a tick without new
ones, and an order never is. -/
theorem mirror_runs (hrun : Run (TickStep client cfg) BroughtOnce s₀ history s)
    (hspread : 1 ≤ cfg.spreadBps) (hassets : ∀ x ∈ history, AssetsOk x.2) :
    (history.flatMap fun x => (report client cfg x).answered).Nodup ∧
    ∀ x ∈ history, Ticked client cfg x ∧
      (∀ m ∈ (report client cfg x).mirrored, m.plan.Fair cfg x.2) ∧
      ∀ id ∈ x.2.brought, id ∉ (report client cfg x).answered →
        ∀ y ∈ history, id ∉ (report client cfg y).answered := by
  have hticked : ∀ x ∈ history, Ticked client cfg x := fun x hx => ticked hspread (hassets x hx)
  have hanswered : ∀ x ∈ history, (report client cfg x).answered.Sublist x.2.brought :=
    fun x hx => (hticked x hx).answered hspread
  refine ⟨?_, fun x hx => ⟨hticked x hx, ?_, ?_⟩⟩
  · exact (List.Sublist.flatMap_right history hanswered).nodup (brought_nodup hrun)
  · intro m hm
    have hplan : m.plan ∈ (report client cfg x).mirrored.map Mirrored.plan := List.mem_map_of_mem hm
    rw [(hticked x hx).plans] at hplan
    exact planned_fair hspread (List.mem_of_mem_take hplan)
  · intro id hid hnot y hy hyid
    obtain rfl : x = y := brought_unique hrun hx hy hid ((hanswered y hy).subset hyid)
    exact hnot hyid

end Runs

/-! ### Two ticks with a limit of one -/

/-- Always the whole order, and one counter-order in a tick. -/
def oneAtATime : MirrorConfig := ⟨1, 2, 30, 0, 1⟩

def userOrder : UserOrder := ⟨10, 1000, 11, 318, 7, by decide, by decide⟩

/-- A tick that is brought two orders, and a third one with the sync before a retry. -/
def busyTick : TickInputs Nat where
  summary := some ([21, 22], [])
  inputNote := fun _ => some ⟨true, some userOrder⟩
  fungibleAsset := fun _ _ => true
  counterBuilt := fun _ => true
  counterRequest := fun id => some id
  committed := none
  claimRequest := fun id => some id
  dropped := [23]

/-- The next tick is brought one more. -/
def nextTick : TickInputs Nat := { busyTick with summary := some ([], [24]), dropped := [] }

/-- Of the first transaction the answer is lost; the sync before the retry comes before the
block, and so does the next one. -/
def mirrorStart : MirrorState Scripted := ⟨42, ⟨3, 0, [], [true, false, false], [false]⟩⟩

theorem busyTick_assetsOk : AssetsOk busyTick := ⟨fun _ _ => rfl, fun _ _ => ⟨rfl, rfl⟩⟩

theorem nextTick_assetsOk : AssetsOk nextTick := ⟨fun _ _ => rfl, fun _ _ => ⟨rfl, rfl⟩⟩

def twoTicks : List (MirrorState Scripted × TickInputs Nat) :=
  [(mirrorStart, busyTick),
    ((tick Scripted.client oneAtATime busyTick mirrorStart).1, nextTick)]

theorem twoTicks_run : Run (TickStep Scripted.client oneAtATime) BroughtOnce mirrorStart twoTicks
    (tick Scripted.client oneAtATime nextTick
      (tick Scripted.client oneAtATime busyTick mirrorStart).1).1 := by
  have hnew : ∀ id ∈ busyTick.brought, id ∉ nextTick.brought := by decide
  refine .step (.step .start ⟨by decide, nofun⟩ rfl) ⟨by decide, fun x hx => ?_⟩ rfl
  obtain rfl := List.mem_singleton.mp hx
  exact fun id hold hid => hnew id hold hid

theorem twoTicks_assetsOk : ∀ x ∈ twoTicks, AssetsOk x.2 := by
  intro x hx
  simp only [twoTicks, List.mem_cons, List.not_mem_nil, or_false] at hx
  rcases hx with rfl | rfl
  · exact busyTick_assetsOk
  · exact nextTick_assetsOk

/-- The second and the third order are never mirrored. -/
theorem left_out_for_good :
    22 ∉ twoTicks.flatMap (fun x => (report Scripted.client oneAtATime x).answered) ∧
    23 ∉ twoTicks.flatMap (fun x => (report Scripted.client oneAtATime x).answered) := by
  obtain ⟨-, hall⟩ := mirror_runs twoTicks_run (by decide) twoTicks_assetsOk
  obtain ⟨-, -, hnever⟩ := hall _ (List.mem_cons_self ..)
  have hfirst : (report Scripted.client oneAtATime (mirrorStart, busyTick)).answered = [21] := by
    decide +kernel
  constructor
  · intro h
    obtain ⟨y, hy, hid⟩ := List.mem_flatMap.mp h
    exact hnever 22 (by decide) (by rw [hfirst]; decide) y hy hid
  · intro h
    obtain ⟨y, hy, hid⟩ := List.mem_flatMap.mp h
    exact hnever 23 (by decide) (by rw [hfirst]; decide) y hy hid

/-! ## Which reports are true -/

/-- The calls of a tick, in their order. -/
def TickReport.calls (r : TickReport World) : List (Outcome World) :=
  r.mirrored.filterMap Mirrored.outcome ++ r.claims

/-- A transaction of the call has landed. -/
def Outcome.Landed (account : Account World Request) (out : Outcome World) : Prop :=
  account.chain out.world = account.chain out.began + 1

/-- It landed, and the mirror takes it for a failure. -/
def Outcome.Unnoticed (account : Account World Request) (out : Outcome World) : Prop :=
  out.Landed account ∧ out.result ≠ some (.ok ())

/-- **The calls so far, and the world behind them**: a false report has a cause before it, and
the store is behind the chain only after an unnoticed landing. -/
structure Accounted (account : Account World Request) (calls : List (Outcome World)) (w : World) :
    Prop where
  caused : ∀ before out after, calls = before ++ out :: after → out.result = some (.ok ()) →
    ¬ out.Landed account → ∃ o ∈ before, o.Unnoticed account
  inStep : account.store w = account.chain w ∨ ∃ o ∈ calls, o.Unnoticed account

section Accounted
variable {client : MidenClient World Request} {account : Account World Request}
  {cfg : MirrorConfig} {i : TickInputs Request} {calls : List (Outcome World)} {w : World}

theorem began_submitWithBackoff (build : Nat → Option Request) :
    (submitWithBackoff client build w).began = w := by
  unfold submitWithBackoff submitFrom
  split
  · rfl
  · rfl

/-- A sync does not take the store off the chain. -/
theorem Accounted.sync (hclient : client.Documented account) (h : Accounted account calls w) :
    Accounted account calls (client.syncState w) := by
  refine ⟨h.caused, h.inStep.imp_left fun heq => ?_⟩
  have hkeeps := hclient.sync w
  have hchain := hkeeps.chain
  have hstore := hkeeps.store
  have hle := hclient.store_le (client.syncState w)
  omega

/-- **One more call.** -/
theorem Accounted.call (hclient : client.Documented account) (h : Accounted account calls w)
    (req : Option Request) :
    Accounted account (calls ++ [submitWithBackoff client (fun _ => req) w])
      (submitWithBackoff client (fun _ => req) w).world := by
  have hcalled := submitWithBackoff_called hclient (deterministic_const req) w
  have hbegan : (submitWithBackoff client (fun _ => req) w).began = w := began_submitWithBackoff _
  generalize submitWithBackoff client (fun _ => req) w = out at hcalled hbegan
  have hlanded : out.Landed account ↔ account.chain out.world = account.chain w + 1 := by
    rw [Outcome.Landed, hbegan]
  constructor
  · intro before o after heq hok hnot
    rcases List.eq_nil_or_concat after with rfl | ⟨rest, last, rfl⟩
    · -- the call itself: it began in step with the chain, or the cause is there
      obtain ⟨rfl, hlast⟩ := List.append_inj' heq rfl
      obtain rfl : out = o := List.singleton_inj.mp hlast
      rcases h.inStep with hstart | hcause
      · exact absurd (hlanded.mpr ((hcalled.ok hok).inStep hstart).1) hnot
      · exact hcause
    · rw [List.concat_eq_append, ← List.cons_append, ← List.append_assoc] at heq
      exact h.caused before o rest (List.append_inj' heq rfl).1 hok hnot
  · rcases h.inStep with hstart | ⟨o, ho, hunnoticed⟩
    · by_cases hok : out.result = some (.ok ())
      · exact Or.inl ((hcalled.ok hok).inStep hstart).2
      · rcases hcalled.since.chain with hsame | ⟨hnext, -⟩
        · have hstore := hcalled.since.store
          have hle := hclient.store_le out.world
          exact Or.inl (by omega)
        · exact Or.inr ⟨out, List.mem_append_right _ (List.mem_singleton_self _),
            hlanded.mpr hnext, hok⟩
    · exact Or.inr ⟨o, List.mem_append_left _ ho, hunnoticed⟩

end Accounted

end PswapSolver.MockMirror
