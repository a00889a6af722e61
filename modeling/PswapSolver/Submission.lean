import PswapSolver.Backoff

/-! # Submitting with backoff

The model of `submit_with_backoff` in `mock-mirror/src/mirror.rs`: a transaction is submitted,
and submitted again after a transient error, with a delay that doubles.  The error may be all
there is to see of a transaction that has landed.  So before it submits again the loop syncs,
and takes a nonce other than the one before the first submission as the proof that the
transaction is on the chain.

The client and the network are not part of the repository.  They are a parameter (`MidenClient`)
that acts on a world of which nothing is known, and what the loop relies on, as its comments say,
is a hypothesis with named rules (`MidenClient.Documented`): the nonce is read from the client's
store, a transaction that lands advances the nonce on the chain and nothing else does, a request
that has landed is refused as a duplicate, and an answer means that the transaction has landed.  A
sync may fail or come before the block, and leave the store behind the chain.

A reported success is a landed transaction if the store was at the chain's nonce to begin with
(`submission_spec`).  It need not be one otherwise: after a request that landed and was given up
as failed, the nonce that the next request finds moved is not its own.
-/
namespace PswapSolver.MockMirror

variable {World Request : Type}

/-! ## The client -/

/-- What the client gets back; an error is transient if it comes from the network or the remote
prover. -/
inductive Reply where
  | ok
  | transient
  | fatal
deriving DecidableEq

/-- **The client**, with all that is behind it: its store, the network and the time. -/
structure MidenClient (World Request : Type) where
  /-- `account_reader(account).nonce()`, if it can be read. -/
  nonce : World → Option Nat
  /-- `sync_state`, whether it succeeds or not. -/
  syncState : World → World
  submitNewTransaction : World → Request → World × Reply
  /-- `tokio::time::sleep`, in milliseconds. -/
  sleep : World → Nat → World

/-- The mirror's account in a world: its nonce on the chain and in the client's store, and the
requests that have landed. -/
structure Account (World Request : Type) where
  chain : World → Nat
  store : World → Nat
  OnChain : World → Request → Prop

namespace Account

/-- No transaction of the account lands. -/
structure Keeps (account : Account World Request) (w w' : World) : Prop where
  chain : account.chain w' = account.chain w
  onChain : ∀ req, account.OnChain w req → account.OnChain w' req
  store : account.store w ≤ account.store w'

/-- The transaction of a request lands, for the first time, and advances the nonce. -/
structure Lands (account : Account World Request) (req : Request) (w w' : World) : Prop where
  first : ¬ account.OnChain w req
  chain : account.chain w' = account.chain w + 1
  onChain : account.OnChain w' req
  store : account.store w ≤ account.store w'

end Account

/-- **What `submit_with_backoff` relies on.** -/
structure MidenClient.Documented (client : MidenClient World Request)
    (account : Account World Request) : Prop where
  /-- The nonce is read from the store. -/
  nonce : ∀ {w n}, client.nonce w = some n → n = account.store w
  /-- The store is not ahead of the chain. -/
  store_le : ∀ w, account.store w ≤ account.chain w
  /-- Nobody else submits for the account. -/
  sync : ∀ w, account.Keeps w (client.syncState w)
  sleep : ∀ w ms, account.Keeps w (client.sleep w ms)
  /-- A request that has landed is refused as a duplicate. -/
  submit : ∀ w req, account.Lands req w (client.submitNewTransaction w req).1 ∨
    account.Keeps w (client.submitNewTransaction w req).1
  /-- An answer comes after the landing, and the transaction is in the store. -/
  answered : ∀ w req, (client.submitNewTransaction w req).2 = .ok →
    account.Lands req w (client.submitNewTransaction w req).1 ∧
    account.store (client.submitNewTransaction w req).1 =
      account.chain (client.submitNewTransaction w req).1

/-! ## The loop -/

def MAX_SUBMIT_RETRIES : Nat := 5

/-- In milliseconds, as `MAX_SUBMIT_BACKOFF`. -/
def INITIAL_SUBMIT_BACKOFF : Nat := 500

def MAX_SUBMIT_BACKOFF : Nat := 30000

inductive SubmitError where
  | buildRequest
  | submit
deriving DecidableEq

/-- A submission: the world before and after it, and what came back. -/
structure Sent (World : Type) where
  before : World
  after : World
  reply : Reply

/-- The sync before a retry; it is skipped if there is no nonce to compare with. -/
def resync (client : MidenClient World Request) (before : Option Nat) (attempt : Nat) (w : World) :
    World :=
  if 0 < attempt ∧ before.isSome = true then client.syncState w else w

/-- The nonce says that an earlier attempt has landed. -/
def NonceMoved (client : MidenClient World Request) (before : Option Nat) (attempt : Nat)
    (w : World) : Prop :=
  0 < attempt ∧ ∃ n ∈ before, ∃ now ∈ client.nonce w, now ≠ n

instance (client : MidenClient World Request) (before : Option Nat) (attempt : Nat) (w : World) :
    Decidable (NonceMoved client before attempt w) := inferInstanceAs (Decidable (_ ∧ _))

/-- The loop ends with a result, or goes on. -/
def afterReply (attempt : Nat) : Reply → Option (Except SubmitError Unit)
  | .ok => some (.ok ())
  | .transient => if attempt < MAX_SUBMIT_RETRIES then none else some (.error .submit)
  | .fatal => some (.error .submit)

/-- One pass of the loop with what `build_req` returns: the result, or nothing when it goes on;
the world; and the submission. -/
def pass (client : MidenClient World Request) (before : Option Nat) (attempt : Nat)
    (req : Option Request) (w : World) :
    Option (Except SubmitError Unit) × World × List (Sent World) :=
  let w := resync client before attempt w
  if NonceMoved client before attempt w then (some (.ok ()), w, [])
  else
    match req with
    | none => (some (.error .buildRequest), w, [])
    | some req =>
      let (w', reply) := client.submitNewTransaction w req
      (afterReply attempt reply, w', [⟨w, w', reply⟩])

/-- How a call ends, and the world it began in; no result stands for the `unreachable!` behind the
loop. -/
structure Outcome (World : Type) where
  began : World
  result : Option (Except SubmitError Unit)
  world : World
  sent : List (Sent World)
  waitedMs : Nat

/-- The loop with this many passes left. -/
def submitFrom (client : MidenClient World Request) (before : Option Nat)
    (build : Nat → Option Request) :
    (passes attempt : Nat) → World → (backoff : Nat) → Outcome World
  | 0, _, w, _ => ⟨w, none, w, [], 0⟩
  | passes + 1, attempt, w, backoff =>
    match pass client before attempt (build attempt) w with
    | (some result, w', sent) => ⟨w, some result, w', sent, 0⟩
    | (none, w', sent) =>
      let rest := submitFrom client before build passes (attempt + 1) (client.sleep w' backoff)
        (Backoff.next MAX_SUBMIT_BACKOFF backoff)
      ⟨w, rest.result, rest.world, sent ++ rest.sent, backoff + rest.waitedMs⟩

/-- **`submit_with_backoff`**, where `build` is what `build_req` returns at each attempt. -/
def submitWithBackoff (client : MidenClient World Request) (build : Nat → Option Request)
    (w : World) : Outcome World :=
  submitFrom client (client.nonce w) build (MAX_SUBMIT_RETRIES + 1) 0 w INITIAL_SUBMIT_BACKOFF

/-- `build_req` is deterministic across attempts. -/
def Deterministic (build : Nat → Option Request) : Prop :=
  ∀ j k req req', build j = some req → build k = some req' → req = req'

theorem deterministic_const (req : Option Request) : Deterministic fun _ => req :=
  fun _ _ _ _ h h' => Option.some.inj (h.symm.trans h')

/-- The transaction landed, and its answer was lost. -/
def Sent.Lost (account : Account World Request) (s : Sent World) : Prop :=
  account.chain s.after = account.chain s.before + 1 ∧ s.reply ≠ .ok

/-! ## What a pass does -/

/-- What a call leaves of the account it began with: at most the nonce of one transaction is new
on the chain, and then the request has landed. -/
structure Since (account : Account World Request) (build : Nat → Option Request) (w₀ w : World) :
    Prop where
  chain : account.chain w = account.chain w₀ ∨ account.chain w = account.chain w₀ + 1 ∧
    ∀ k, ∀ req ∈ build k, account.OnChain w req
  store : account.store w₀ ≤ account.store w

/-- **What a reported success says.** -/
structure Success (account : Account World Request) (before : Option Nat) (w₀ w : World) :
    Prop where
  inStep : account.store w₀ = account.chain w₀ →
    account.chain w = account.chain w₀ + 1 ∧ account.store w = account.chain w
  landed : account.chain w = account.chain w₀ + 1 ∨
    before.isSome = true ∧ account.store w₀ ≠ account.chain w₀

/-- **What a pass does.** -/
structure Passed (account : Account World Request) (before : Option Nat)
    (build : Nat → Option Request) (attempt : Nat) (w₀ w w' : World)
    (result : Option (Except SubmitError Unit)) (sent : List (Sent World)) : Prop where
  since : Since account build w₀ w'
  once : sent.length ≤ 1
  /-- It goes on only if there is an attempt left. -/
  goesOn : result = none → attempt < MAX_SUBMIT_RETRIES
  ok : result = some (.ok ()) → Success account before w₀ w'
  /-- A landing that is not reported had its answer lost. -/
  hidden : account.chain w' = account.chain w₀ + 1 → result ≠ some (.ok ()) →
    account.chain w = account.chain w₀ + 1 ∨ ∃ s ∈ sent, s.Lost account

section Pass
variable {client : MidenClient World Request} {account : Account World Request}
  {before : Option Nat} {build : Nat → Option Request} {attempt : Nat} {w₀ w w' : World}

theorem Since.keeps (h : Since account build w₀ w) (hkeeps : account.Keeps w w') :
    Since account build w₀ w' := by
  refine ⟨?_, h.store.trans hkeeps.store⟩
  rcases h.chain with hsame | ⟨hnext, hon⟩
  · exact Or.inl (hkeeps.chain.trans hsame)
  · exact Or.inr ⟨hkeeps.chain.trans hnext, fun k req hreq => hkeeps.onChain _ (hon k req hreq)⟩

/-- What lands is the first transaction of the call. -/
theorem Since.lands (h : Since account build w₀ w) (hsame : Deterministic build) {req : Request}
    (hreq : build attempt = some req) (hlands : account.Lands req w w') :
    account.chain w = account.chain w₀ ∧ account.chain w' = account.chain w₀ + 1 ∧
      Since account build w₀ w' := by
  rcases h.chain with hchain | ⟨-, hon⟩
  · have hnext : account.chain w' = account.chain w₀ + 1 := by rw [hlands.chain, hchain]
    refine ⟨hchain, hnext, Or.inr ⟨hnext, fun k other hother => ?_⟩, h.store.trans hlands.store⟩
    rw [hsame _ _ _ _ hother hreq]
    exact hlands.onChain
  · exact absurd (hon attempt req hreq) hlands.first

theorem keeps_resync (hclient : client.Documented account) :
    account.Keeps w (resync client before attempt w) := by
  unfold resync
  split
  · exact hclient.sync w
  · exact ⟨rfl, fun _ h => h, Nat.le_refl _⟩

/-- The nonce has moved: the request has landed, or the store was behind from the start. -/
theorem success_of_nonceMoved (hclient : client.Documented account)
    (hsince : Since account build w₀ w) (hbefore : ∀ n ∈ before, n = account.store w₀)
    (hmoved : NonceMoved client before attempt w) : Success account before w₀ w := by
  obtain ⟨-, n, hn, now, hnow, hne⟩ := hmoved
  have hsome : before.isSome = true := Option.isSome_of_mem hn
  rw [hbefore n hn, hclient.nonce hnow] at hne
  have hstore : account.store w₀ < account.store w := lt_of_le_of_ne hsince.store (Ne.symm hne)
  have hle := hclient.store_le w
  rcases hsince.chain with hchain | ⟨hchain, -⟩
  · have hstale : account.store w₀ ≠ account.chain w₀ := by omega
    exact ⟨fun h => absurd h hstale, Or.inr ⟨hsome, hstale⟩⟩
  · exact ⟨fun h => ⟨hchain, by omega⟩, Or.inl hchain⟩

theorem afterReply_eq_none {reply : Reply} (h : afterReply attempt reply = none) :
    attempt < MAX_SUBMIT_RETRIES := by
  cases reply with
  | ok => cases h
  | fatal => cases h
  | transient =>
    by_contra hlast
    rw [afterReply, if_neg hlast] at h
    cases h

theorem afterReply_eq_ok {reply : Reply} :
    afterReply attempt reply = some (.ok ()) ↔ reply = .ok := by
  cases reply with
  | ok => exact ⟨fun _ => rfl, fun _ => rfl⟩
  | fatal => exact ⟨nofun, nofun⟩
  | transient =>
    by_cases hleft : attempt < MAX_SUBMIT_RETRIES
    · simp [afterReply, hleft]
    · simp [afterReply, hleft]

/-- **A pass**, when the nonce to compare with is that of the start. -/
theorem pass_spec (hclient : client.Documented account) (hsame : Deterministic build)
    (hsince : Since account build w₀ w) (hbefore : ∀ n ∈ before, n = account.store w₀) :
    Passed account before build attempt w₀ w (pass client before attempt (build attempt) w).2.1
      (pass client before attempt (build attempt) w).1
      (pass client before attempt (build attempt) w).2.2 := by
  have hkeeps : account.Keeps w (resync client before attempt w) := keeps_resync hclient
  unfold pass
  generalize resync client before attempt w = v at hkeeps
  have hsince' : Since account build w₀ v := hsince.keeps hkeeps
  dsimp only
  by_cases hmoved : NonceMoved client before attempt v
  · rw [if_pos hmoved]
    exact ⟨hsince', Nat.zero_le _, nofun,
      fun _ => success_of_nonceMoved hclient hsince' hbefore hmoved, fun _ hno => absurd rfl hno⟩
  rw [if_neg hmoved]
  cases hreq : build attempt with
  | none =>
    exact ⟨hsince', Nat.zero_le _, nofun, nofun, fun h _ => Or.inl (hkeeps.chain ▸ h)⟩
  | some req =>
    have hsubmit := hclient.submit v req
    have hanswered := hclient.answered v req
    show Passed account before build attempt w₀ w (client.submitNewTransaction v req).1
      (afterReply attempt (client.submitNewTransaction v req).2)
      [⟨v, (client.submitNewTransaction v req).1, (client.submitNewTransaction v req).2⟩]
    generalize client.submitNewTransaction v req = submitted at hsubmit hanswered
    obtain ⟨v', reply⟩ := submitted
    have hchain : account.chain v' = account.chain w₀ + 1 → reply ≠ .ok →
        account.chain w = account.chain w₀ + 1 ∨ Sent.Lost account ⟨v, v', reply⟩ := by
      intro hnext hno
      rcases hsubmit with hlands | hkept
      · exact Or.inr ⟨hlands.chain, hno⟩
      · exact Or.inl (hkeeps.chain ▸ hkept.chain ▸ hnext)
    refine ⟨?_, Nat.le_refl _, afterReply_eq_none, fun hok => ?_, fun hnext hno => ?_⟩
    · rcases hsubmit with hlands | hkept
      · exact (hsince'.lands hsame hreq hlands).2.2
      · exact hsince'.keeps hkept
    · obtain ⟨hlands, hstore⟩ := hanswered (afterReply_eq_ok.mp hok)
      obtain ⟨-, hnext, -⟩ := hsince'.lands hsame hreq hlands
      exact ⟨fun _ => ⟨hnext, hstore⟩, Or.inl hnext⟩
    · rcases hchain hnext (fun hok => hno (afterReply_eq_ok.mpr hok)) with hold | hlost
      · exact Or.inl hold
      · exact Or.inr ⟨_, List.mem_singleton_self _, hlost⟩

end Pass

/-! ## What a call does -/

/-- The waits before the first `n` retries, in milliseconds. -/
def waits (n : Nat) : Nat := Backoff.total INITIAL_SUBMIT_BACKOFF MAX_SUBMIT_BACKOFF n

/-- **What a call does** from an attempt on, in the world `w₀` it began in. -/
structure Called (account : Account World Request) (before : Option Nat)
    (build : Nat → Option Request) (attempt : Nat) (w₀ w : World) (out : Outcome World) :
    Prop where
  since : Since account build w₀ out.world
  reached : out.result ≠ none
  submits : attempt + out.sent.length ≤ MAX_SUBMIT_RETRIES + 1
  waited : waits attempt + out.waitedMs ≤ waits MAX_SUBMIT_RETRIES
  ok : out.result = some (.ok ()) → Success account before w₀ out.world
  hidden : account.chain out.world = account.chain w₀ + 1 → out.result ≠ some (.ok ()) →
    account.chain w = account.chain w₀ + 1 ∨ ∃ s ∈ out.sent, s.Lost account

section Call
variable {client : MidenClient World Request} {account : Account World Request}

/-- The loop, by induction on the passes that are left. -/
theorem submitFrom_spec (hclient : client.Documented account) {before : Option Nat}
    {build : Nat → Option Request} (hsame : Deterministic build) {w₀ w : World}
    {passes attempt backoff : Nat} (hbefore : ∀ n ∈ before, n = account.store w₀)
    (hsince : Since account build w₀ w)
    (hpasses : attempt + passes = MAX_SUBMIT_RETRIES + 1) (hpos : 0 < passes)
    (hbackoff : backoff = Backoff.delay INITIAL_SUBMIT_BACKOFF MAX_SUBMIT_BACKOFF attempt) :
    Called account before build attempt w₀ w
      (submitFrom client before build passes attempt w backoff) := by
  induction passes generalizing attempt w backoff with
  | zero => omega
  | succ passes ih =>
    have hpass : Passed account before build attempt w₀ w _ _ _ :=
      pass_spec hclient hsame hsince hbefore
    have hattempt : attempt ≤ MAX_SUBMIT_RETRIES := by omega
    unfold submitFrom
    generalize pass client before attempt (build attempt) w = passed at hpass
    obtain ⟨result, w', sent⟩ := passed
    have hsent : sent.length ≤ 1 := hpass.once
    cases result with
    | some result =>
      refine ⟨hpass.since, nofun, ?_, ?_, hpass.ok, hpass.hidden⟩
      · show attempt + sent.length ≤ _
        omega
      · exact Backoff.total_mono _ _ hattempt
    | none =>
      have hleft : attempt < MAX_SUBMIT_RETRIES := hpass.goesOn rfl
      have hslept := hclient.sleep w' backoff
      have hnext : Backoff.next MAX_SUBMIT_BACKOFF backoff =
          Backoff.delay INITIAL_SUBMIT_BACKOFF MAX_SUBMIT_BACKOFF (attempt + 1) := by
        rw [hbackoff, Backoff.next_delay]
      have hrest := ih (hpass.since.keeps hslept) (by omega) (by omega) hnext
      have hsent' := hrest.submits
      have hwaited := hrest.waited
      refine ⟨hrest.since, hrest.reached, ?_, ?_, hrest.ok, fun hlanded hno => ?_⟩
      · rw [List.length_append]
        omega
      · rw [waits, Backoff.total_succ, ← hbackoff] at hwaited
        show waits attempt + (backoff + _) ≤ _
        unfold waits at hwaited ⊢
        omega
      · -- it landed before the wait, or after it
        rcases hrest.hidden hlanded hno with hearly | ⟨s, hs, hlost⟩
        · rcases hpass.hidden (hslept.chain ▸ hearly) nofun with hold | ⟨s, hs, hlost⟩
          · exact Or.inl hold
          · exact Or.inr ⟨s, List.mem_append_left _ hs, hlost⟩
        · exact Or.inr ⟨s, List.mem_append_right _ hs, hlost⟩

theorem submitWithBackoff_called (hclient : client.Documented account)
    {build : Nat → Option Request} (hsame : Deterministic build) (w : World) :
    Called account (client.nonce w) build 0 w w (submitWithBackoff client build w) :=
  submitFrom_spec hclient hsame (fun _ hn => hclient.nonce hn) ⟨Or.inl rfl, Nat.le_refl _⟩ rfl
    (by omega) rfl

end Call

/-! ### A client with a script -/

/-- The nonce on the chain, how far the store is behind it, the requests that have landed, which
of the next syncs come after the block, and which of the next transactions are answered. -/
structure Scripted where
  chain : Nat
  behind : Nat
  onChain : List Nat
  syncs : List Bool
  answers : List Bool
deriving DecidableEq

def Scripted.account : Account Scripted Nat where
  chain := Scripted.chain
  store := fun w => w.chain - w.behind
  OnChain := fun w req => req ∈ w.onChain

/-- The network refuses a request that has landed for good, and a transaction that was executed
against an old state of the account with an error of the RPC. -/
def Scripted.client : MidenClient Scripted Nat where
  nonce := fun w => some (w.chain - w.behind)
  syncState := fun w =>
    { w with behind := if w.syncs.headD true then 0 else w.behind, syncs := w.syncs.tail }
  submitNewTransaction := fun w req =>
    if req ∈ w.onChain then (w, .fatal)
    else if w.behind ≠ 0 then (w, .transient)
    else if w.answers.headD true then
      ({ w with chain := w.chain + 1, onChain := req :: w.onChain, answers := w.answers.tail }, .ok)
    else
      ({ w with
          chain := w.chain + 1
          behind := 1
          onChain := req :: w.onChain
          answers := w.answers.tail }, .transient)
  sleep := fun w _ => w

end PswapSolver.MockMirror
