import PswapSolver.Admin

/-! # Subscriptions

Orders are only seen for pairs that were subscribed.  The boot pass subscribes the pairs of the
tokens it reads, a registration sends the pairs of its token with those it reads.  It reads them
after its insertion: so of two tokens the boot pass has not both seen, the one that came later
has seen the other one (`Covered`).

A registration sends its messages while it has the write connection, and the relay needs the
connection for every message.  If the messages do not fit the channel, the two can come to wait
for each other: from 51 registered tokens on a single registration is enough
(`deadlock_of_registered`).  If they fit, no handler ever waits (`Fits`).
-/
namespace PswapSolver
open Codecs Runs
variable {ε : Type} {codec : Codec ε TokenId} {s s' s₀ : Admin codec} {e : AdminEvent}
  {history : List (Admin codec × AdminEvent)}

/-! ## Every pair is subscribed -/

/-- The pairs the boot pass passed to `subscribe_pair`. -/
def subscribedAtBoot (history : List (Admin codec × AdminEvent)) : List Pair :=
  history.filterMap fun x =>
    match x.2 with
    | .subscribe pair => some pair
    | _ => none

/-- The pairs sent on the channel of the relay. -/
def sentToRelay (history : List (Admin codec × AdminEvent)) : List Pair :=
  history.filterMap fun x =>
    match x.2 with
    | .send pair => some pair
    | _ => none

theorem mem_subscribedAtBoot (history : List (Admin codec × AdminEvent)) (s : Admin codec)
    (pair : Pair) : pair ∈ subscribedAtBoot (history ++ [(s, .subscribe pair)]) := by
  rw [subscribedAtBoot, List.filterMap_append]
  exact List.mem_append_right _ (List.mem_singleton_self _)

theorem mem_sentToRelay (history : List (Admin codec × AdminEvent)) (s : Admin codec)
    (pair : Pair) : pair ∈ sentToRelay (history ++ [(s, .send pair)]) := by
  rw [sentToRelay, List.filterMap_append]
  exact List.mem_append_right _ (List.mem_singleton_self _)

/-- A read, a call of `subscribe_pair` or a send fails, a row is deleted, or the process is
restarted. -/
def AdminEvent.loses : AdminEvent → Bool
  | .readFails _ => true
  | .sendFails => true
  | .disconnect => true
  | .bootFails => true
  | .restart _ => true
  | .statement .delete => true
  | _ => false

theorem loses_of_succeeds (h : e.succeeds = true) : e.loses = false := by
  cases e with
  | statement method =>
    cases method with
    | delete => cases h
    | _ => rfl
  | readFails _ => cases h
  | sendFails => cases h
  | disconnect => cases h
  | bootFails => cases h
  | restart _ => cases h
  | _ => rfl

/-- The guard that lets nothing be lost. -/
def lossless : Guard (Admin codec) AdminEvent := fun _ _ e => e.loses = false

/-- The boot pass is over. -/
def IngestThread.booted : IngestThread → Bool
  | .starting => false
  | .booting _ _ => false
  | _ => true

/-- The boot pass will subscribe the pair, if its tokens are registered when it reads them. -/
def IngestThread.Owes (thread : IngestThread) (pair : Pair) : Prop :=
  match thread with
  | .starting => True
  | .booting _ pairs => pair ∈ pairs
  | _ => False

/-- The handler that has the connection will send the pair. -/
def HolderOwes (holder : Option (Holder codec)) (pair : Pair) : Prop :=
  match holder with
  | some (.inserted token _) => token = pair.1 ∨ token = pair.2
  | some (.registered token) => token = pair.1 ∨ token = pair.2
  | some (.sending messages) => pair ∈ messages
  | _ => False

/-- The pair was subscribed or sent, or it will be. -/
def PairServed (history : List (Admin codec × AdminEvent)) (s : Admin codec) (pair : Pair) : Prop :=
  (pair ∈ subscribedAtBoot history ∨ pair ∈ sentToRelay history) ∨
    s.thread.Owes pair ∨ HolderOwes s.holder pair

/-- **The invariant**: every pair of different registered tokens is served. -/
structure Covered (history : List (Admin codec × AdminEvent)) (s : Admin codec) : Prop where
  canonical : Canonical codec s.table
  served : ∀ a b, a ≠ b → codec.write a ∈ s.table → codec.write b ∈ s.table →
    PairServed history s (a, b)

/-- What was done stays done. -/
theorem PairServed.past {pair : Pair}
    (h : pair ∈ subscribedAtBoot history ∨ pair ∈ sentToRelay history) :
    PairServed (history ++ [(s, e)]) s' pair := by
  rw [PairServed, subscribedAtBoot, sentToRelay, List.filterMap_append, List.filterMap_append]
  exact Or.inl (h.imp (List.mem_append_left _) (List.mem_append_left _))

/-- The tokens of the pair were registered before the step, and what was owed is still served. -/
theorem Covered.keep (h : Covered history s) (hcanonical : Canonical codec s'.table)
    (htable : ∀ key, key ∈ s'.table → key ∈ s.table)
    (howed : ∀ a b, a ≠ b → codec.write a ∈ s.table → codec.write b ∈ s.table →
      s.thread.Owes (a, b) ∨ HolderOwes s.holder (a, b) →
      PairServed (history ++ [(s, e)]) s' (a, b)) :
    Covered (history ++ [(s, e)]) s' := by
  refine ⟨hcanonical, fun a b hne ha hb => ?_⟩
  rcases h.served a b hne (htable _ ha) (htable _ hb) with hdone | hfuture
  · exact PairServed.past hdone
  · exact howed a b hne (htable _ ha) (htable _ hb) hfuture

theorem MetadataStep.keys {table table' : TokenTable} {free : Prop} {stage : MetadataStage}
    {next : List MetadataStage} (h : MetadataStep codec table free stage e table' next)
    {key : Bytes} (hkey : key ∈ table') : key ∈ table := by
  cases h with
  | known => exact hkey
  | missing => exact hkey
  | fetched => exact hkey
  | absent => exact hkey
  | persist _ => exact FiniteMap.mem_modify.mp hkey
  | fails => exact hkey

/-- A step of a handler after which it owes no less. -/
theorem Covered.handler (h : Covered history s) {old holder : Option (Holder codec)}
    (held : s.holder = old) (howed : ∀ pair, HolderOwes old pair → HolderOwes holder pair)
    (tokenMap : TokenMap) (requests : List (Request codec)) :
    Covered (history ++ [(s, e)])
      { s with tokenMap := tokenMap, requests := requests, holder := holder } := by
  subst held
  exact h.keep h.canonical (fun _ => id) fun _ _ _ _ _ hfuture =>
    Or.inr (hfuture.imp id (howed _))

/-- A step of the ingest thread after which it owes no less. -/
theorem Covered.ingest (h : Covered history s) {old thread : IngestThread}
    (hthread : s.thread = old) (howed : ∀ pair, old.Owes pair → thread.Owes pair)
    (channel : List Pair) :
    Covered (history ++ [(s, e)]) { s with channel := channel, thread := thread } := by
  subst hthread
  exact h.keep h.canonical (fun _ => id) fun _ _ _ _ _ hfuture =>
    Or.inr (hfuture.imp (howed _) id)

/-- A stage of `ensure_token_metadata`. -/
theorem Covered.metadata (h : Covered history s) {old thread : IngestThread}
    (hthread : s.thread = old) (howed : ∀ pair, old.Owes pair → thread.Owes pair)
    {table' : TokenTable} {free : Prop} {stage : MetadataStage} {next : List MetadataStage}
    (hstep : MetadataStep codec s.table free stage e table' next) :
    Covered (history ++ [(s, e)]) { s with table := table', thread := thread } := by
  subst hthread
  exact h.keep (hstep.coherent h.canonical).1 (fun _ => hstep.keys) fun _ _ _ _ _ hfuture =>
    Or.inr (hfuture.imp (howed _) id)

/-- The messages of a registration: both directions of the pairs with the other tokens. -/
theorem mem_directions {token a b : TokenId} {existing : List TokenId} (hne : a ≠ b)
    (ha : a ∈ existing) (hb : b ∈ existing) (htoken : token = a ∨ token = b) :
    (a, b) ∈ directions token existing := by
  rw [directions, List.mem_flatMap]
  rcases htoken with rfl | rfl
  · exact ⟨b, List.mem_filter.mpr ⟨hb, decide_eq_true hne.symm⟩, List.mem_cons_self ..⟩
  · exact ⟨a, List.mem_filter.mpr ⟨ha, decide_eq_true hne⟩,
      List.mem_cons_of_mem _ (List.mem_singleton_self _)⟩

/-- The boot pass has all pairs of different tokens. -/
theorem mem_orderedPairs {a b : TokenId} {tokens : List TokenId} (hne : a ≠ b) (ha : a ∈ tokens)
    (hb : b ∈ tokens) : (a, b) ∈ orderedPairs tokens := by
  obtain ⟨i, hi⟩ := List.mem_iff_getElem?.mp ha
  obtain ⟨j, hj⟩ := List.mem_iff_getElem?.mp hb
  have hij : i ≠ j := by
    rintro rfl
    exact hne (Option.some.inj (hi.symm.trans hj))
  rw [orderedPairs, List.mem_flatMap]
  refine ⟨(a, i), List.mem_zipIdx_iff_getElem?.mpr hi, List.mem_filterMap.mpr ⟨(b, j), ?_, ?_⟩⟩
  · exact List.mem_zipIdx_iff_getElem?.mpr hj
  · exact if_pos hij

/-- **The statement of a handler**: a new token is owed all its pairs. -/
theorem Covered.executed {call : TokenCall codec} (h : Covered history s)
    (held : s.holder = some (.ready call)) (hkept : call.method ≠ .delete)
    (hexec : Executed s call s') : Covered (history ++ [(s, e)]) s' := by
  have hnone : ∀ pair, ¬ HolderOwes s.holder pair := by
    rw [held]
    exact fun _ => id
  cases hexec with
  | unchanged _ => exact h.handler held (fun _ => False.elim) _ _
  | inserted _ _ =>
    refine ⟨h.canonical.insert call.token _, fun a b hne ha hb => ?_⟩
    rcases Finmap.mem_insert.mp ha with hnew | ha
    · exact Or.inr (Or.inr (Or.inl (codec.write_injective hnew.symm)))
    rcases Finmap.mem_insert.mp hb with hnew | hb
    · exact Or.inr (Or.inr (Or.inr (codec.write_injective hnew.symm)))
    -- neither of the two tokens is the new one
    rcases h.served a b hne ha hb with hdone | hthread | howes
    · exact PairServed.past hdone
    · exact Or.inr (Or.inl hthread)
    · exact absurd howes (hnone _)
  | updated _ _ =>
    exact h.keep (h.canonical.modify _ _) (fun _ => FiniteMap.mem_modify.mp)
      fun _ _ _ _ _ hfuture => Or.inr (hfuture.imp id fun howes => absurd howes (hnone _))
  | deleted delete _ => exact absurd delete hkept

/-- **Every step of a lossless run keeps the pairs served.** -/
theorem Covered.step (h : Covered history s) (hlossless : e.loses = false) (hstep : s.Step e s') :
    Covered (history ++ [(s, e)]) s' := by
  cases hstep with
  | arrive => exact h.handler rfl (fun _ => id) _ _
  | reject _ _ => exact h.handler rfl (fun _ => id) _ _
  | decode _ _ => exact h.handler rfl (fun _ => id) _ _
  | acquire _ free => exact h.handler free (fun _ => False.elim) _ _
  | poolFails _ => exact h.handler rfl (fun _ => id) _ _
  | execute held =>
    refine h.executed held (fun hdelete => ?_) (s.executed _)
    rw [hdelete] at hlossless
    cases hlossless
  | statementFails held => exact h.handler held (fun _ => False.elim) _ _
  | cacheInserted held => exact h.handler held (fun _ => by exact id) _ _
  | cacheUpdated held => exact h.handler held (fun _ => False.elim) _ _
  | read held hrows hload =>
    have hmem := hrows.mem_tokens h.canonical hload
    refine h.keep h.canonical (fun _ => id) fun a b hne ha hb hfuture => ?_
    refine Or.inr (hfuture.imp id fun howes => ?_)
    rw [held] at howes
    exact mem_directions hne ((hmem a).mpr ha) ((hmem b).mpr hb) howes
  | readFails _ => cases hlossless
  | send held _ _ =>
    refine h.keep h.canonical (fun _ => id) fun a b _ _ _ hfuture => ?_
    rcases hfuture with hthread | howes
    · exact Or.inr (Or.inl hthread)
    · rw [held] at howes
      rcases List.mem_cons.mp howes with heq | hrest
      · exact Or.inl (Or.inr (heq ▸ mem_sentToRelay ..))
      · exact Or.inr (Or.inr hrest)
  | sendFails _ _ => cases hlossless
  | disconnect _ => cases hlossless
  | sent held => exact h.handler held (fun _ => List.not_mem_nil) _ _
  | answer held => exact h.handler held (fun _ => False.elim) _ _
  | bootRead start hrows hload =>
    have hmem := hrows.mem_tokens h.canonical hload
    refine h.keep h.canonical (fun _ => id) fun a b hne ha hb _ => ?_
    exact Or.inr (Or.inl (mem_orderedPairs hne ((hmem a).mpr ha) ((hmem b).mpr hb)))
  | bootReadFails _ => cases hlossless
  | bootMetadata boot hmeta => exact h.metadata boot (fun _ => by exact id) hmeta
  | subscribe boot =>
    refine h.keep h.canonical (fun _ => id) fun a b _ _ _ hfuture => ?_
    rcases hfuture with hthread | howes
    · rw [boot] at hthread
      rcases List.mem_cons.mp hthread with heq | hrest
      · exact Or.inl (Or.inl (heq ▸ mem_subscribedAtBoot ..))
      · exact Or.inr (Or.inl hrest)
    · exact Or.inr (Or.inr howes)
  | subscribeFails _ => cases hlossless
  | bootDone boot => exact h.ingest boot (fun _ => List.not_mem_nil) _
  | receive idle _ => exact h.ingest idle (fun _ => False.elim) _
  | relay busy => exact h.ingest busy (fun _ => False.elim) _
  | relayMetadata busy hmeta => exact h.metadata busy (fun _ => False.elim) hmeta
  | relayed busy => exact h.ingest busy (fun _ => False.elim) _
  | cancel idle => exact h.ingest idle (fun _ => False.elim) _
  | restart _ => cases hlossless

theorem covered_of_run {initialTokens : List (TokenId × Option String)} {table : TokenTable}
    (htable : Canonical codec table) (hboots : Boots initialTokens table s₀)
    (hrun : Run Admin.Step lossless s₀ history s) : Covered history s := by
  refine hrun.invariant ?_ fun h hlossless hstep => h.step hlossless hstep
  obtain ⟨hprep, -, -, -, hthread⟩ := hboots
  refine ⟨(hprep.spec htable).1, fun a b _ _ _ => Or.inr (Or.inl ?_)⟩
  rw [hthread]
  trivial

/-! ## Registrations that fit the channel -/

/-- The guard under which the messages of a registration fit the channel when it has read the
registered tokens. -/
def fits : Guard (Admin codec) AdminEvent := fun _ s e =>
  match e with
  | .read token existing =>
    s.channel.length + 2 * (existing.filter (· ≠ token)).length ≤ subscribeChannelBuf
  | _ => True

/-- A handler waits for room on the channel, with the write connection. -/
def Admin.HandlerBlocked (s : Admin codec) : Prop :=
  ∃ pair messages, s.holder = some (.sending (pair :: messages)) ∧ s.thread ≠ .stopped ∧
    subscribeChannelBuf ≤ s.channel.length

/-- The stage needs the write connection. -/
def MetadataStage.needsConn : MetadataStage → Bool
  | .check _ => true
  | .fetch _ => false
  | .persist _ _ _ => true

/-- The relay waits for the write connection. -/
def Admin.RelayBlocked (s : Admin codec) : Prop :=
  ∃ stage stages, s.thread = .annotating (stage :: stages) ∧ stage.needsConn = true ∧
    s.holder.isSome = true

/-- The handler and the relay wait for each other. -/
def Admin.Deadlocked (s : Admin codec) : Prop := s.HandlerBlocked ∧ s.RelayBlocked

/-- **The invariant**: the messages still to be sent fit the channel. -/
def Fits (s : Admin codec) : Prop :=
  ∀ messages, s.holder = some (.sending messages) →
    s.channel.length + messages.length ≤ subscribeChannelBuf

theorem length_directions (token : TokenId) (existing : List TokenId) :
    (directions token existing).length = 2 * (existing.filter (· ≠ token)).length := by
  rw [directions]
  induction existing.filter (· ≠ token) with
  | nil => rfl
  | cons other others ih =>
    simp only [List.flatMap_cons, List.length_append, List.length_cons, List.length_nil, ih]
    omega

/-- The handler that has the connection afterwards has nothing to send. -/
theorem fits_of_silent (h : ∀ messages, s.holder ≠ some (.sending messages)) : Fits s :=
  fun messages hheld => absurd hheld (h messages)

theorem Executed.silent {call : TokenCall codec} (h : Executed s call s') (messages : List Pair) :
    s'.holder ≠ some (.sending messages) := by
  cases h with
  | unchanged _ => nofun
  | inserted _ _ => nofun
  | updated _ _ => nofun
  | deleted _ _ => nofun

/-- **Every step keeps the messages fitting**, if those of a registration fit at its read. -/
theorem Fits.step (h : Fits s) (hguard : fits history s e) (hstep : s.Step e s') : Fits s' := by
  cases hstep with
  | arrive => exact h
  | reject _ _ => exact h
  | decode _ _ => exact h
  | acquire _ _ => exact fits_of_silent nofun
  | poolFails _ => exact h
  | execute _ => exact fits_of_silent (s.executed _).silent
  | statementFails _ => exact fits_of_silent nofun
  | cacheInserted _ => exact fits_of_silent nofun
  | cacheUpdated _ => exact fits_of_silent nofun
  | read _ _ _ =>
    rintro messages hheld
    cases hheld
    rw [length_directions]
    exact hguard
  | readFails _ => exact fits_of_silent nofun
  | send held _ _ =>
    rintro messages hheld
    cases hheld
    have hfits := h _ held
    rw [List.length_cons] at hfits
    rw [List.length_append, List.length_singleton]
    omega
  | sendFails held _ =>
    rintro messages hheld
    cases hheld
    have hfits := h _ held
    rw [List.length_cons] at hfits
    exact (Nat.le_succ _).trans hfits
  | disconnect _ => exact fits_of_silent nofun
  | sent _ => exact fits_of_silent nofun
  | answer _ => exact fits_of_silent nofun
  | bootRead _ _ _ => exact h
  | bootReadFails _ => exact h
  | bootMetadata _ _ => exact h
  | subscribe _ => exact h
  | subscribeFails _ => exact h
  | bootDone _ => exact h
  | receive _ queued =>
    intro messages hheld
    have hfits := h messages hheld
    rw [queued, List.length_cons] at hfits
    dsimp only
    omega
  | relay _ => exact h
  | relayMetadata _ _ => exact h
  | relayed _ => exact h
  | cancel _ => exact h
  | restart boots =>
    obtain ⟨-, -, -, hholder, -⟩ := boots
    refine fits_of_silent fun messages hheld => ?_
    cases hholder.symm.trans hheld

theorem fits_of_run {initialTokens : List (TokenId × Option String)} {table : TokenTable}
    (hboots : Boots initialTokens table s₀) (hrun : Run Admin.Step fits s₀ history s) : Fits s := by
  refine hrun.invariant (P := fun _ s => Fits s) ?_ fun h hguard hstep => h.step hguard hstep
  refine fits_of_silent fun messages hheld => ?_
  cases hboots.2.2.2.1.symm.trans hheld

/-! ## Runs of the ingest thread and of a handler -/

section Runs

/-- The metadata of a token is looked for and not found. -/
theorem Admin.annotates (hfree : s.holder = none) (token : TokenId) (stages : List MetadataStage)
    (pairs : List Pair) :
    ∃ history, Run Admin.Step routine { s with thread := .booting (.check token :: stages) pairs }
      history { s with thread := .booting stages pairs } := by
  have hstage : ∀ {stage next}, MetadataStep codec s.table (s.holder = none) stage .metadata
      s.table next → Run Admin.Step routine { s with thread := .booting (stage :: stages) pairs }
        [({ s with thread := .booting (stage :: stages) pairs }, .metadata)]
        { s with thread := .booting (next ++ stages) pairs } := fun {stage _} hstep =>
    (Admin.Step.bootMetadata (s := { s with thread := .booting (stage :: stages) pairs }) rfl
      hstep).routinely rfl rfl
  by_cases hknown : ∀ row, s.table.lookup (codec.write token) = some row → row.decimals.isSome
  · exact ⟨_, hstage (.known hfree hknown)⟩
  · obtain ⟨row, hrow⟩ := not_forall.mp hknown
    obtain ⟨hrow, hnone⟩ := Classical.not_imp.mp hrow
    have hmissing := hstage (.missing hfree hrow (Option.not_isSome_iff_eq_none.mp hnone))
    exact ⟨_, hmissing.trans (hstage .absent)⟩

theorem Admin.annotates_all (hfree : s.holder = none) (tokens : List TokenId)
    (pairs : List Pair) :
    ∃ history, Run Admin.Step routine { s with thread := .booting (tokens.map .check) pairs }
      history { s with thread := .booting [] pairs } := by
  induction tokens with
  | nil => exact ⟨_, Run.start⟩
  | cons token tokens ih =>
    obtain ⟨history, hrun⟩ := Admin.annotates hfree token (tokens.map .check) pairs
    obtain ⟨history', hrun'⟩ := ih
    exact ⟨_, hrun.trans hrun'⟩

theorem Admin.subscribes_all (s : Admin codec) (pairs : List Pair) :
    ∃ history, Run Admin.Step routine { s with thread := .booting [] pairs } history
      { s with thread := .idle } := by
  induction pairs with
  | nil => exact ⟨_, (Admin.Step.bootDone rfl).routinely rfl rfl⟩
  | cons pair pairs ih =>
    obtain ⟨history, hrun⟩ := ih
    have hstep : Admin.Step { s with thread := .booting [] (pair :: pairs) } (.subscribe pair)
        { s with thread := .booting [] pairs } := .subscribe rfl
    exact ⟨_, (hstep.routinely rfl rfl).trans hrun⟩

/-- **The boot pass comes to its end.** -/
theorem Admin.reaches_idle (hcanonical : Canonical codec s.table) (hfree : s.holder = none)
    (hstart : s.thread = .starting) :
    ∃ history, Run Admin.Step routine s history { s with thread := .idle } := by
  obtain ⟨rows, hrows⟩ := exists_selects s.table
  obtain ⟨tokens, hload, -, -⟩ := hrows.tokens hcanonical
  obtain ⟨history, hmetadata⟩ := Admin.annotates_all hfree tokens (orderedPairs tokens)
  obtain ⟨history', hpairs⟩ := s.subscribes_all (orderedPairs tokens)
  have hread := (Admin.Step.bootRead hstart hrows hload).routinely rfl rfl
  exact ⟨_, hread.trans (hmetadata.trans hpairs)⟩

/-- **A handler sends what fits the channel.** -/
theorem Admin.sends (messages rest : List Pair) (hopen : s.thread ≠ .stopped)
    (hroom : s.channel.length + messages.length ≤ subscribeChannelBuf) :
    ∃ history, Run Admin.Step routine
      { s with holder := some (.sending (messages ++ rest)) } history
      { s with channel := s.channel ++ messages, holder := some (.sending rest) } := by
  induction messages generalizing s with
  | nil =>
    rw [List.append_nil]
    exact ⟨_, Run.start⟩
  | cons message messages ih =>
    rw [List.length_cons] at hroom
    have hsend : Admin.Step { s with holder := some (.sending (message :: messages ++ rest)) }
        (.send message)
        { s with
          channel := s.channel ++ [message]
          holder := some (.sending (messages ++ rest)) } := .send rfl hopen (by dsimp only; omega)
    obtain ⟨history, hrun⟩ := ih (s := { s with channel := s.channel ++ [message] }) hopen
      (by rw [List.length_append, List.length_singleton]; omega)
    rw [List.append_assoc] at hrun
    exact ⟨_, (hsend.routinely rfl rfl).trans hrun⟩

/-! ### Token 0 is registered after `n` others -/

/-- The tokens of a configuration: `1`, …, `n`. -/
def firstTokens (n : Nat) : List (TokenId × Option String) :=
  (List.range n).map fun i => (i + 1, none)

theorem mem_firstTokens {n : Nat} {token : TokenId} :
    (∃ seed ∈ firstTokens n, (Codec.nat ()).write token = (Codec.nat ()).write seed.1) ↔
      token ∈ (List.range n).map (· + 1) := by
  rw [firstTokens, List.mem_map]
  constructor
  · rintro ⟨seed, hseed, heq⟩
    obtain ⟨i, hi, rfl⟩ := List.mem_map.mp hseed
    exact ⟨i, hi, (Codec.write_injective _ heq).symm⟩
  · rintro ⟨i, hi, rfl⟩
    exact ⟨(i + 1, none), List.mem_map_of_mem hi, rfl⟩

/-- **The registration of token 0 reads `n` other tokens**, with the relay idle and nothing on
the channel. -/
theorem Admin.registers_zero (n : Nat) :
    ∃ s₀ s : Admin (Codec.nat ()), ∃ history existing, Boots (firstTokens n) ∅ s₀ ∧
      Run Admin.Step routine s₀ history s ∧
      s.Step (.read 0 existing) { s with holder := some (.sending (directions 0 existing)) } ∧
      s.channel = [] ∧ s.thread = .idle ∧ (existing.filter (· ≠ 0)).length = n ∧
      ∀ token ≤ n, (Codec.nat ()).write token ∈ s.table := by
  obtain ⟨table, map, hprep⟩ := canonical_empty.prepared (firstTokens n)
  let s₀ : Admin (Codec.nat ()) := ⟨table, map, [], [], none, .starting⟩
  have hboots : Boots (firstTokens n) ∅ s₀ := ⟨hprep, rfl, rfl, rfl, rfl⟩
  have hcoherent := hboots.coherent canonical_empty
  have hmem : ∀ token, (Codec.nat ()).write token ∈ s₀.table ↔
      token ∈ (List.range n).map (· + 1) := by
    intro token
    rw [show s₀.table = _ from hprep.1, mem_seedTokensFromConfig, mem_firstTokens,
      or_iff_left Finmap.notMem_empty]
  have hnew : (Codec.nat ()).write 0 ∉ s₀.table := by
    rw [hmem, List.mem_map]
    rintro ⟨i, -, hi⟩
    cases hi
  obtain ⟨history, hboot⟩ := Admin.reaches_idle hcoherent.canonical rfl rfl
  obtain ⟨history', hregister⟩ := Admin.reaches_registered (s := { s₀ with thread := .idle })
    decodeRequest_registerZero rfl rfl rfl hnew
  have hrun := hboot.trans hregister
  obtain ⟨existing, hnodup, hexisting, hread⟩ :=
    Admin.reads (mapCoherent_of_run hrun hcoherent).canonical rfl
  refine ⟨s₀, _, _, existing, hboots, hrun, hread, rfl, rfl, ?_, fun token htoken => ?_⟩
  · have hperm : (existing.filter (· ≠ 0)).Perm ((List.range n).map (· + 1)) := by
      rw [List.perm_ext_iff_of_nodup (hnodup.filter _)
        (List.nodup_range.map fun _ _ h => Nat.succ.inj h)]
      intro token
      rw [List.mem_filter, hexisting, Finmap.mem_insert, (Codec.write_injective _).eq_iff, ← hmem,
        decide_eq_true_iff]
      constructor
      · rintro ⟨hzero | hold, hne⟩
        · exact absurd hzero hne
        · exact hold
      · intro hold
        refine ⟨Or.inr hold, ?_⟩
        rintro rfl
        exact hnew hold
    rw [hperm.length_eq, List.length_map, List.length_range]
  · rw [Finmap.mem_insert, (Codec.write_injective _).eq_iff, hmem]
    cases token with
    | zero => exact Or.inl rfl
    | succ i => exact Or.inr (List.mem_map_of_mem (List.mem_range.mpr htoken))

/-- **From 51 registered tokens on a registration can deadlock**, although nothing fails. -/
theorem deadlock_of_registered {n : Nat} (hn : 51 ≤ n) :
    ∃ s₀ s : Admin (Codec.nat ()), ∃ history, Boots (firstTokens n) ∅ s₀ ∧
      Run Admin.Step smooth s₀ history s ∧ s.Deadlocked := by
  obtain ⟨s₀, s, history, existing, hboots, hrun, hread, hempty, hidle, hothers, -⟩ :=
    Admin.registers_zero n
  have hlength := length_directions 0 existing
  rw [hothers] at hlength
  obtain ⟨first, rest, hmessages⟩ :
      ∃ first rest, directions 0 existing = first :: rest :=
    List.exists_cons_of_length_pos (by omega)
  rw [hmessages] at hlength hread
  rw [List.length_cons] at hlength
  -- the relay takes the first message and comes to wait for the connection
  obtain ⟨history₁, hfirst⟩ := Admin.sends (s := s) [first] rest (by rw [hidle]; nofun)
    (by rw [hempty]; exact Nat.le_of_ble_eq_true rfl)
  have hreceive : Admin.Step
      { s with channel := s.channel ++ [first], holder := some (.sending rest) } (.receive first)
      { s with channel := [], holder := some (.sending rest), thread := .received first } :=
    .receive hidle (by rw [hempty]; rfl)
  have hrelay : Admin.Step
      { s with channel := [], holder := some (.sending rest), thread := .received first }
      (.relay first)
      { s with
        channel := []
        holder := some (.sending rest)
        thread := .annotating [.check first.1, .check first.2] } := .relay rfl
  -- the handler fills the channel, and has a message left
  obtain ⟨history₂, hfill⟩ := Admin.sends
    (s := { s with channel := [], thread := .annotating [.check first.1, .check first.2] })
    (rest.take subscribeChannelBuf) (rest.drop subscribeChannelBuf) nofun
    (by rw [List.length_nil, Nat.zero_add]; exact List.length_take_le ..)
  rw [List.take_append_drop] at hfill
  obtain ⟨next, left, hleft⟩ : ∃ next left, rest.drop subscribeChannelBuf = next :: left := by
    refine List.exists_cons_of_length_pos ?_
    rw [List.length_drop, subscribeChannelBuf]
    omega
  rw [hleft] at hfill
  have hafter := hfirst.trans ((hreceive.routinely rfl rfl).trans
    ((hrelay.routinely rfl rfl).trans hfill))
  have hsmooth : ∀ (history : List (Admin (Codec.nat ()) × AdminEvent)) s e,
      routine history s e → smooth history s e := fun _ _ _ h => h.1
  have hreads : smooth history s (.read 0 existing) := rfl
  refine ⟨s₀, _, _, hboots, ((hrun.mono hsmooth).step hreads hread).trans (hafter.mono hsmooth),
    ⟨next, left, rfl, nofun, ?_⟩, _, _, rfl, rfl, rfl⟩
  show subscribeChannelBuf ≤ ([] ++ rest.take subscribeChannelBuf).length
  rw [List.nil_append, List.length_take, subscribeChannelBuf]
  omega

end Runs

/-! ## The results -/

/-- **Every pair gets subscribed.**  Once the boot pass is over and every registration that has
inserted its row has returned, every pair of different registered tokens was subscribed by the
boot pass or sent to the relay. -/
theorem every_pair_subscribed {initialTokens : List (TokenId × Option String)}
    {table : TokenTable} (htable : Canonical codec table) (hboots : Boots initialTokens table s₀)
    (hrun : Run Admin.Step lossless s₀ history s) (hbooted : s.thread.booted = true)
    (hreturned : s.holder = none) {a b : TokenId} (hne : a ≠ b) (ha : codec.write a ∈ s.table)
    (hb : codec.write b ∈ s.table) :
    (a, b) ∈ subscribedAtBoot history ∨ (a, b) ∈ sentToRelay history := by
  rcases (covered_of_run htable hboots hrun).served a b hne ha hb with hdone | hthread | howes
  · exact hdone
  · generalize s.thread = thread at hbooted hthread
    cases thread with
    | starting => cases hbooted
    | booting _ _ => cases hbooted
    | idle => exact hthread.elim
    | received _ => exact hthread.elim
    | annotating _ => exact hthread.elim
    | stopped => exact hthread.elim
  · rw [hreturned] at howes
    exact howes.elim

/-- Token 0 is registered next to token 1, which the boot pass has seen alone. -/
theorem every_pair_subscribed_zero :
    ∃ s₀ s : Admin (Codec.nat ()), ∃ history, Boots (firstTokens 1) ∅ s₀ ∧
      Run Admin.Step lossless s₀ history s ∧
      ((0, 1) ∈ subscribedAtBoot history ∨ (0, 1) ∈ sentToRelay history) := by
  obtain ⟨s₀, s, history, existing, hboots, hrun, hread, hempty, hidle, hothers, hmem⟩ :=
    Admin.registers_zero 1
  have hlength := length_directions 0 existing
  rw [hothers] at hlength
  obtain ⟨history', hsends⟩ := Admin.sends (s := s) (directions 0 existing) []
    (by rw [hidle]; nofun) (by rw [hempty, hlength]; exact Nat.le_of_ble_eq_true rfl)
  rw [List.append_nil] at hsends
  have hlossless : ∀ (history : List (Admin (Codec.nat ()) × AdminEvent)) s e,
      routine history s e → lossless history s e := fun _ _ _ h => loses_of_succeeds h.1
  have hreads : lossless history s (.read 0 existing) := rfl
  have hsent := ((hrun.mono hlossless).step hreads hread).trans (hsends.mono hlossless)
  have hreturned := hsent.trans (Run.start.step rfl (.sent rfl))
  refine ⟨s₀, _, _, hboots, hreturned, ?_⟩
  refine every_pair_subscribed canonical_empty hboots hreturned ?_ rfl (by decide)
    (hmem 0 (by decide)) (hmem 1 (by decide))
  show s.thread.booted = true
  rw [hidle]
  rfl

/-- **A registration deadlocks only if its messages do not fit the channel.** -/
theorem no_deadlock_of_fits {initialTokens : List (TokenId × Option String)} {table : TokenTable}
    (hboots : Boots initialTokens table s₀) (hrun : Run Admin.Step fits s₀ history s) :
    ¬ s.Deadlocked := by
  rintro ⟨⟨pair, messages, hheld, -, hfull⟩, -⟩
  have hfits := fits_of_run hboots hrun _ hheld
  rw [List.length_cons] at hfits
  omega

/-- With 50 registered tokens the messages of a registration fit the channel. -/
theorem no_deadlock_of_fits_fifty :
    ∃ s₀ s : Admin (Codec.nat ()), ∃ history messages, Boots (firstTokens 50) ∅ s₀ ∧
      Run Admin.Step fits s₀ history s ∧ s.holder = some (.sending messages) ∧
      messages.length = 100 ∧ ¬ s.Deadlocked := by
  obtain ⟨s₀, s, history, existing, hboots, hrun, hread, hempty, -, hothers, -⟩ :=
    Admin.registers_zero 50
  have hfits : ∀ (history : List (Admin (Codec.nat ()) × AdminEvent)) s e,
      routine history s e → fits history s e := fun _ _ e h => by
    cases e with
    | read _ _ => cases h.2
    | _ => trivial
  have hroom : fits history s (.read 0 existing) := by
    show s.channel.length + 2 * (existing.filter (· ≠ 0)).length ≤ subscribeChannelBuf
    rw [hempty, hothers]
    exact Nat.le_refl 100
  have hsends := (hrun.mono hfits).step hroom hread
  refine ⟨s₀, _, _, _, hboots, hsends, rfl, ?_, no_deadlock_of_fits hboots hsends⟩
  rw [length_directions, hothers]

/-- **The registration of a token next to 51 others can deadlock.** -/
theorem register_token_deadlocks :
    ∃ s₀ s : Admin (Codec.nat ()), ∃ history, Boots (firstTokens 51) ∅ s₀ ∧
      Run Admin.Step smooth s₀ history s ∧ s.Deadlocked :=
  deadlock_of_registered (Nat.le_refl 51)

end PswapSolver
