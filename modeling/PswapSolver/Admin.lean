import PswapSolver.Registry
import PswapSolver.Runs

/-! # The admin API

The handlers of `admin/admin.rs` that change the registered tokens, together with the two tasks
of `pipeline.rs` that work on the same data: the boot pass `subscribe_all_pairs`, and the relay
that takes its place on the ingest thread.  They share the table of the registered tokens, the
symbol map and the channel of the relay.

The pool has one write connection.  A handler takes it before its statement and keeps it until
it returns, the sends of `register_token` included; so at most one handler is past its
acquisition, `holder`, and all others are among the `requests`.  The ingest thread takes the
connection for one statement at a time, which is a single step here.

Every call that can fail may fail: the pool, a statement, a read, the node.  A handler that
waits for room on the channel is dropped when its client disconnects, and the process may be
restarted at any time.
-/
namespace PswapSolver
open Codecs Runs
variable {ε : Type}

/-! ## Requests and answers -/

/-- The routes that change the table. -/
inductive Method where
  | post
  | patch
  | delete
deriving DecidableEq

/-- The body of a request. -/
structure TokenRequest where
  tokenId : String
  externalSymbol : Option String
deriving DecidableEq

inductive StatusCode where
  | ok
  | created
  | badRequest
  | notFound
  | internalServerError
deriving DecidableEq

structure Response where
  status : StatusCode
  body : String
deriving DecidableEq

namespace Response

/-- An answer without a body. -/
def ofStatus (status : StatusCode) : Response := ⟨status, ""⟩

def registered : Response := ⟨.created, "registered"⟩

def alreadyRegistered : Response := ⟨.ok, "already registered"⟩

end Response

/-- The value of a hexadecimal digit. -/
def hexDigit (c : Char) : Option UInt8 :=
  if '0' ≤ c ∧ c ≤ '9' then some (c.toNat - 48).toUInt8
  else if 'a' ≤ c ∧ c ≤ 'f' then some (c.toNat - 87).toUInt8
  else if 'A' ≤ c ∧ c ≤ 'F' then some (c.toNat - 55).toUInt8
  else none

def hexDecodeChars : List Char → Option Bytes
  | [] => some []
  | [_] => none
  | high :: low :: rest => do
    let highDigit ← hexDigit high
    let lowDigit ← hexDigit low
    let bytes ← hexDecodeChars rest
    return (highDigit * 16 + lowDigit) :: bytes

/-- `hex::decode` -/
def hexDecode (s : String) : Option Bytes := hexDecodeChars s.toList

/-- A request whose bytes read as a token.  They may be followed by others. -/
structure TokenCall (codec : Codec ε TokenId) where
  method : Method
  bytes : Bytes
  token : TokenId
  externalSymbol : Option String
  reads : readToken codec bytes = .ok token

/-- Decodes a request; `none` is a bad request. -/
def decodeRequest (codec : Codec ε TokenId) (method : Method) (req : TokenRequest) :
    Option (TokenCall codec) :=
  match hexDecode req.tokenId with
  | none => none
  | some bytes =>
    match h : readToken codec bytes with
    | .error _ => none
    | .ok token => some ⟨method, bytes, token, req.externalSymbol, h⟩

/-! ## The state -/

/-- A handler that has not got the write connection yet. -/
inductive Request (codec : Codec ε TokenId) where
  | received (method : Method) (req : TokenRequest)
  | waiting (call : TokenCall codec)

/-- The handler that has the write connection. -/
inductive Holder (codec : Codec ε TokenId) where
  /-- Its statement comes next. -/
  | ready (call : TokenCall codec)
  /-- The token was inserted; its symbol is not in the symbol map yet. -/
  | inserted (token : TokenId) (symbol : Option String)
  /-- A row was updated or deleted; the symbol map comes next. -/
  | updated (token : TokenId) (symbol : Option String)
  /-- The registered tokens are read next. -/
  | registered (token : TokenId)
  /-- These messages are still to be sent. -/
  | sending (messages : List Pair)
  | returning (response : Response)

/-- What `ensure_token_metadata` does next. -/
inductive MetadataStage where
  | check (token : TokenId)
  | fetch (token : TokenId)
  | persist (token : TokenId) (decimals : UInt8) (ticker : String)

/-- The ingest thread: the boot pass, then the relay. -/
inductive IngestThread where
  | starting
  /-- The boot pass has read the tokens: the metadata comes first, then the pairs. -/
  | booting (stages : List MetadataStage) (pairs : List Pair)
  | idle
  | received (pair : Pair)
  | annotating (stages : List MetadataStage)
  /-- The thread has ended, and the channel is closed. -/
  | stopped

/-- The state of the system. -/
structure Admin (codec : Codec ε TokenId) where
  table : TokenTable
  tokenMap : TokenMap
  channel : List Pair
  requests : List (Request codec)
  holder : Option (Holder codec)
  thread : IngestThread

/-- The size of the channel of the relay. -/
def subscribeChannelBuf : Nat := 100

/-- What happens in a step. -/
inductive AdminEvent where
  | arrive (method : Method) (req : TokenRequest)
  | decode
  | acquire
  | statement (method : Method)
  | cache
  | read (token : TokenId) (existing : List TokenId)
  | send (pair : Pair)
  | respond (response : Response)
  /-- The pool or the statement failed. -/
  | refuse (response : Response)
  | readFails (response : Response)
  | sendFails
  | disconnect
  | bootRead (tokens : List TokenId)
  | bootFails
  | metadata
  | metadataFails
  /-- The boot pass calls `subscribe_pair`. -/
  | subscribe (pair : Pair)
  | bootDone
  | receive (pair : Pair)
  /-- The relay calls `subscribe_pair`, which may fail. -/
  | relay (pair : Pair)
  | relayed
  | cancel
  | restart (initialTokens : List (TokenId × Option String))

/-! ## The steps -/

/-- Updates the symbol map. -/
def setCache (map : TokenMap) (token : TokenId) (symbol : Option String) : TokenMap :=
  match symbol with
  | some s => map.insert token s
  | none => map.erase token

/-- What a registration does to the symbol map. -/
def cacheInserted (map : TokenMap) (token : TokenId) (symbol : Option String) : TokenMap :=
  if symbol.isSome then setCache map token symbol else map

/-- The messages of a registration: both directions of every pair with an existing token. -/
def directions (newToken : TokenId) (existing : List TokenId) : List Pair :=
  (existing.filter (· ≠ newToken)).flatMap fun token => [(newToken, token), (token, newToken)]

/-- The pairs of the boot pass: `i`-th with `j`-th token for `i ≠ j`. -/
def orderedPairs (tokens : List TokenId) : List Pair :=
  tokens.zipIdx.flatMap fun x =>
    tokens.zipIdx.filterMap fun y => if x.2 ≠ y.2 then some (x.1, y.1) else none

section Steps
variable (codec : Codec ε TokenId)

/-- **The stages of `ensure_token_metadata`**: how a stage ends, well or not, with the table and
what comes next.  A statement needs the write connection. -/
inductive MetadataStep (table : TokenTable) (free : Prop) :
    MetadataStage → AdminEvent → TokenTable → List MetadataStage → Prop
  /-- The token has its metadata, or it is not registered. -/
  | known {token : TokenId} (conn : free)
      (row : ∀ row, table.lookup (codec.write token) = some row → row.decimals.isSome) :
      MetadataStep table free (.check token) .metadata table []
  | missing {token : TokenId} {row : TokenRow} (conn : free)
      (registered : table.lookup (codec.write token) = some row) (missing : row.decimals = none) :
      MetadataStep table free (.check token) .metadata table [.fetch token]
  | fetched {token : TokenId} (decimals : UInt8) (ticker : String) :
      MetadataStep table free (.fetch token) .metadata table [.persist token decimals ticker]
  /-- The node has no metadata for the token. -/
  | absent {token : TokenId} : MetadataStep table free (.fetch token) .metadata table []
  | persist {token : TokenId} {decimals : UInt8} {ticker : String} (conn : free) :
      MetadataStep table free (.persist token decimals ticker) .metadata
        (setTokenMetadata table (codec.write token) (some decimals.toNat) (some ticker)).2 []
  | fails {stage : MetadataStage} : MetadataStep table free stage .metadataFails table []

variable {codec}

/-- The process right after `prepare_db`. -/
def Boots (initialTokens : List (TokenId × Option String)) (table : TokenTable)
    (s : Admin codec) : Prop :=
  PrepareDb codec initialTokens table s.table s.tokenMap ∧ s.channel = [] ∧ s.requests = [] ∧
    s.holder = none ∧ s.thread = .starting

namespace Admin

/-- The statement of a handler.  `POST` writes under the bytes of the token, the other two
look for the bytes of the request. -/
def execute (s : Admin codec) (call : TokenCall codec) : Admin codec :=
  match call.method with
  | .post =>
    match registerToken s.table (codec.write call.token) call.externalSymbol with
    | (true, table) =>
      { s with table := table, holder := some (.inserted call.token call.externalSymbol) }
    | (false, _) => { s with holder := some (.returning .alreadyRegistered) }
  | .patch =>
    match updateTokenSymbol s.table call.bytes call.externalSymbol with
    | (true, table) =>
      { s with table := table, holder := some (.updated call.token call.externalSymbol) }
    | (false, _) => { s with holder := some (.returning (.ofStatus .notFound)) }
  | .delete =>
    match unregisterToken s.table call.bytes with
    | (true, table) => { s with table := table, holder := some (.updated call.token none) }
    | (false, _) => { s with holder := some (.returning (.ofStatus .notFound)) }

/-- **The steps of the system.** -/
inductive Step : Admin codec → AdminEvent → Admin codec → Prop
  | arrive {s : Admin codec} {method : Method} {req : TokenRequest} :
      Step s (.arrive method req) { s with requests := s.requests ++ [.received method req] }
  | reject {s : Admin codec} {before after : List (Request codec)} {method : Method}
      {req : TokenRequest} (listed : s.requests = before ++ .received method req :: after)
      (bad : decodeRequest codec method req = none) :
      Step s (.respond (.ofStatus .badRequest)) { s with requests := before ++ after }
  | decode {s : Admin codec} {before after : List (Request codec)} {method : Method}
      {req : TokenRequest} {call : TokenCall codec}
      (listed : s.requests = before ++ .received method req :: after)
      (good : decodeRequest codec method req = some call) :
      Step s .decode { s with requests := before ++ .waiting call :: after }
  | acquire {s : Admin codec} {before after : List (Request codec)} {call : TokenCall codec}
      (listed : s.requests = before ++ .waiting call :: after) (free : s.holder = none) :
      Step s .acquire { s with requests := before ++ after, holder := some (.ready call) }
  | poolFails {s : Admin codec} {before after : List (Request codec)} {call : TokenCall codec}
      (listed : s.requests = before ++ .waiting call :: after) :
      Step s (.refuse (.ofStatus .internalServerError)) { s with requests := before ++ after }
  | execute {s : Admin codec} {call : TokenCall codec} (held : s.holder = some (.ready call)) :
      Step s (.statement call.method) (s.execute call)
  | statementFails {s : Admin codec} {call : TokenCall codec}
      (held : s.holder = some (.ready call)) :
      Step s (.refuse (.ofStatus .internalServerError)) { s with holder := none }
  | cacheInserted {s : Admin codec} {token : TokenId} {symbol : Option String}
      (held : s.holder = some (.inserted token symbol)) :
      Step s .cache
        { s with
          tokenMap := cacheInserted s.tokenMap token symbol
          holder := some (.registered token) }
  | cacheUpdated {s : Admin codec} {token : TokenId} {symbol : Option String}
      (held : s.holder = some (.updated token symbol)) :
      Step s .cache
        { s with
          tokenMap := setCache s.tokenMap token symbol
          holder := some (.returning (.ofStatus .ok)) }
  | read {s : Admin codec} {token : TokenId} {rows : List (Bytes × TokenRow)}
      {existing : List TokenId} (held : s.holder = some (.registered token))
      (selected : Selects s.table rows) (loaded : loadRegisteredTokens codec rows = .ok existing) :
      Step s (.read token existing) { s with holder := some (.sending (directions token existing)) }
  | readFails {s : Admin codec} {token : TokenId} (held : s.holder = some (.registered token)) :
      Step s (.readFails (.ofStatus .internalServerError)) { s with holder := none }
  | send {s : Admin codec} {pair : Pair} {messages : List Pair}
      (held : s.holder = some (.sending (pair :: messages))) (opened : s.thread ≠ .stopped)
      (room : s.channel.length < subscribeChannelBuf) :
      Step s (.send pair)
        { s with channel := s.channel ++ [pair], holder := some (.sending messages) }
  | sendFails {s : Admin codec} {pair : Pair} {messages : List Pair}
      (held : s.holder = some (.sending (pair :: messages))) (closed : s.thread = .stopped) :
      Step s .sendFails { s with holder := some (.sending messages) }
  | disconnect {s : Admin codec} {pair : Pair} {messages : List Pair}
      (held : s.holder = some (.sending (pair :: messages))) :
      Step s .disconnect { s with holder := none }
  | sent {s : Admin codec} (held : s.holder = some (.sending [])) :
      Step s (.respond .registered) { s with holder := none }
  | answer {s : Admin codec} {response : Response}
      (held : s.holder = some (.returning response)) :
      Step s (.respond response) { s with holder := none }
  | bootRead {s : Admin codec} {rows : List (Bytes × TokenRow)} {tokens : List TokenId}
      (start : s.thread = .starting) (selected : Selects s.table rows)
      (loaded : loadRegisteredTokens codec rows = .ok tokens) :
      Step s (.bootRead tokens)
        { s with thread := .booting (tokens.map .check) (orderedPairs tokens) }
  | bootReadFails {s : Admin codec} (start : s.thread = .starting) :
      Step s .bootFails { s with thread := .stopped }
  | bootMetadata {s : Admin codec} {stage : MetadataStage} {stages next : List MetadataStage}
      {pairs : List Pair} {e : AdminEvent} {table' : TokenTable}
      (boot : s.thread = .booting (stage :: stages) pairs)
      (step : MetadataStep codec s.table (s.holder = none) stage e table' next) :
      Step s e { s with table := table', thread := .booting (next ++ stages) pairs }
  | subscribe {s : Admin codec} {pair : Pair} {pairs : List Pair}
      (boot : s.thread = .booting [] (pair :: pairs)) :
      Step s (.subscribe pair) { s with thread := .booting [] pairs }
  | subscribeFails {s : Admin codec} {pair : Pair} {pairs : List Pair}
      (boot : s.thread = .booting [] (pair :: pairs)) :
      Step s .bootFails { s with thread := .stopped }
  | bootDone {s : Admin codec} (boot : s.thread = .booting [] []) :
      Step s .bootDone { s with thread := .idle }
  | receive {s : Admin codec} {pair : Pair} {rest : List Pair} (idle : s.thread = .idle)
      (queued : s.channel = pair :: rest) :
      Step s (.receive pair) { s with channel := rest, thread := .received pair }
  | relay {s : Admin codec} {offered requested : TokenId}
      (busy : s.thread = .received (offered, requested)) :
      Step s (.relay (offered, requested))
        { s with thread := .annotating [.check offered, .check requested] }
  | relayMetadata {s : Admin codec} {stage : MetadataStage} {stages next : List MetadataStage}
      {e : AdminEvent} {table' : TokenTable} (busy : s.thread = .annotating (stage :: stages))
      (step : MetadataStep codec s.table (s.holder = none) stage e table' next) :
      Step s e { s with table := table', thread := .annotating (next ++ stages) }
  | relayed {s : Admin codec} (busy : s.thread = .annotating []) :
      Step s .relayed { s with thread := .idle }
  | cancel {s : Admin codec} (idle : s.thread = .idle) :
      Step s .cancel { s with thread := .stopped }
  | restart {s s' : Admin codec} {initialTokens : List (TokenId × Option String)}
      (boots : Boots initialTokens s.table s') : Step s (.restart initialTokens) s'

end Admin

end Steps

/-! ### What a statement does -/

/-- A statement changes nothing, or it inserts, updates or deletes one row. -/
inductive Executed {codec : Codec ε TokenId} (s : Admin codec) (call : TokenCall codec) :
    Admin codec → Prop
  | unchanged (response : Response) :
      Executed s call { s with holder := some (.returning response) }
  | inserted (post : call.method = .post) (new : codec.write call.token ∉ s.table) :
      Executed s call
        { s with
          table := s.table.insert (codec.write call.token) ⟨call.externalSymbol, none, none⟩
          holder := some (.inserted call.token call.externalSymbol) }
  | updated (patch : call.method = .patch) (row : call.bytes ∈ s.table) :
      Executed s call
        { s with
          table := (updateTokenSymbol s.table call.bytes call.externalSymbol).2
          holder := some (.updated call.token call.externalSymbol) }
  | deleted (delete : call.method = .delete) (row : call.bytes ∈ s.table) :
      Executed s call
        { s with
          table := (unregisterToken s.table call.bytes).2
          holder := some (.updated call.token none) }

theorem Admin.executed {codec : Codec ε TokenId} (s : Admin codec) (call : TokenCall codec) :
    Executed s call (s.execute call) := by
  unfold Admin.execute
  cases hmethod : call.method with
  | post =>
    dsimp only [registerToken]
    by_cases hmem : codec.write call.token ∈ s.table
    · rw [if_pos hmem]
      exact .unchanged _
    · rw [if_neg hmem]
      exact .inserted hmethod hmem
  | patch =>
    by_cases hmem : call.bytes ∈ s.table
    · dsimp only [updateTokenSymbol]
      rw [decide_eq_true hmem]
      exact .updated hmethod hmem
    · dsimp only [updateTokenSymbol]
      rw [decide_eq_false hmem]
      exact .unchanged _
  | delete =>
    by_cases hmem : call.bytes ∈ s.table
    · dsimp only [unregisterToken]
      rw [decide_eq_true hmem]
      exact .deleted hmethod hmem
    · dsimp only [unregisterToken]
      rw [decide_eq_false hmem]
      exact .unchanged _

/-! ## The symbol map -/

section Coherence
variable {codec : Codec ε TokenId} {s s' : Admin codec} {e : AdminEvent}

/-- The symbol map once the handler that has the connection has brought it up to date. -/
def settledMap : Option (Holder codec) → TokenMap → TokenMap
  | some (.inserted token symbol), map => cacheInserted map token symbol
  | some (.updated token symbol), map => setCache map token symbol
  | _, map => map

/-- **The invariant**: the keys are canonical, and the settled map is that of the table. -/
structure MapCoherent (s : Admin codec) : Prop where
  canonical : Canonical codec s.table
  settled : ∀ token, (settledMap s.holder s.tokenMap).lookup token = symbolOf codec s.table token

theorem lookup_setCache (map : TokenMap) (token other : TokenId) (symbol : Option String) :
    (setCache map token symbol).lookup other =
      if other = token then symbol else map.lookup other := by
  cases symbol with
  | some s => exact FiniteMap.lookup_insert_if ..
  | none => exact FiniteMap.lookup_erase_if ..

/-- A token that has no entry yet needs none if it has no symbol. -/
theorem lookup_cacheInserted {map : TokenMap} {token : TokenId} (h : map.lookup token = none)
    (other : TokenId) (symbol : Option String) :
    (cacheInserted map token symbol).lookup other =
      if other = token then symbol else map.lookup other := by
  rw [cacheInserted]
  cases symbol with
  | some s =>
    rw [if_pos Option.isSome_some]
    exact lookup_setCache ..
  | none =>
    rw [if_neg (by simp)]
    split
    · rename_i heq
      rw [heq, h]
    · rfl

theorem Boots.coherent {initialTokens : List (TokenId × Option String)} {table : TokenTable}
    (h : Boots initialTokens table s) (htable : Canonical codec table) : MapCoherent s := by
  obtain ⟨hprep, -, -, hholder, -⟩ := h
  obtain ⟨hcanonical, hlookup⟩ := hprep.spec htable
  refine ⟨hcanonical, fun token => ?_⟩
  rw [hholder]
  exact hlookup token

/-- A row of the table was changed, and the map is to follow. -/
theorem MapCoherent.updated {table' : TokenTable} {token : TokenId} {symbol : Option String}
    (hmap : ∀ token, s.tokenMap.lookup token = symbolOf codec s.table token)
    (hcanonical : Canonical codec table')
    (htable : ∀ other, symbolOf codec table' other =
      if other = token then symbol else symbolOf codec s.table other) :
    MapCoherent { s with table := table', holder := some (.updated token symbol) } := by
  refine ⟨hcanonical, fun other => ?_⟩
  show (setCache s.tokenMap token symbol).lookup other = symbolOf codec table' other
  rw [lookup_setCache, htable, hmap]

/-- **The statement of a handler** leaves the map to be brought up to date. -/
theorem MapCoherent.executed {call : TokenCall codec} (h : MapCoherent s)
    (held : s.holder = some (.ready call)) (hexec : Executed s call s') : MapCoherent s' := by
  have hmap : ∀ token, s.tokenMap.lookup token = symbolOf codec s.table token := by
    intro token
    rw [← h.settled token, held]
    rfl
  cases hexec with
  | unchanged _ => exact ⟨h.canonical, hmap⟩
  | inserted _ new =>
    refine ⟨h.canonical.insert call.token _, fun other => ?_⟩
    have hnone : s.tokenMap.lookup call.token = none := by
      rw [hmap, symbolOf, Finmap.lookup_eq_none.mpr new]
      rfl
    rw [symbolOf_insert, ← hmap]
    exact lookup_cacheInserted hnone other call.externalSymbol
  | updated _ row =>
    -- the bytes of the request are a key, so they are those of the token
    have hkey := h.canonical.key_eq row call.reads
    refine .updated hmap (h.canonical.modify _ _) fun other => ?_
    rw [hkey] at row ⊢
    exact symbolOf_updateTokenSymbol row call.externalSymbol other
  | deleted _ row =>
    have hkey := h.canonical.key_eq row call.reads
    refine .updated hmap (h.canonical.erase _) fun other => ?_
    rw [hkey]
    exact symbolOf_unregisterToken call.token other

/-- Nothing else changes a key or a symbol. -/
theorem MetadataStep.coherent {table table' : TokenTable} {free : Prop} {stage : MetadataStage}
    {next : List MetadataStage} (h : MetadataStep codec table free stage e table' next)
    (hcanonical : Canonical codec table) :
    Canonical codec table' ∧
      ∀ token, symbolOf codec table' token = symbolOf codec table token := by
  cases h with
  | known => exact ⟨hcanonical, fun _ => rfl⟩
  | missing => exact ⟨hcanonical, fun _ => rfl⟩
  | fetched => exact ⟨hcanonical, fun _ => rfl⟩
  | absent => exact ⟨hcanonical, fun _ => rfl⟩
  | persist _ => exact ⟨hcanonical.modify _ _, symbolOf_setTokenMetadata _ _ _⟩
  | fails => exact ⟨hcanonical, fun _ => rfl⟩

theorem MapCoherent.metadata {table' : TokenTable} {free : Prop} {stage : MetadataStage}
    {next : List MetadataStage} (h : MapCoherent s)
    (hstep : MetadataStep codec s.table free stage e table' next) (thread : IngestThread) :
    MapCoherent { s with table := table', thread := thread } := by
  obtain ⟨hcanonical, hsymbols⟩ := hstep.coherent h.canonical
  exact ⟨hcanonical, fun token => (h.settled token).trans (hsymbols token).symm⟩

/-- The connection passes on, with the settled map as it was. -/
theorem MapCoherent.passOn {old holder : Option (Holder codec)} {map : TokenMap} (h : MapCoherent s)
    (held : s.holder = old) (hsettled : settledMap holder map = settledMap old s.tokenMap)
    (channel : List Pair) (requests : List (Request codec)) :
    MapCoherent
      { s with tokenMap := map, channel := channel, requests := requests, holder := holder } := by
  subst held
  exact ⟨h.canonical, hsettled ▸ h.settled⟩

/-- **Every step keeps the invariant.** -/
theorem MapCoherent.step (h : MapCoherent s) (hstep : s.Step e s') : MapCoherent s' := by
  cases hstep with
  | arrive => exact ⟨h.canonical, h.settled⟩
  | reject _ _ => exact ⟨h.canonical, h.settled⟩
  | decode _ _ => exact ⟨h.canonical, h.settled⟩
  | acquire _ free => exact h.passOn free (by rfl) _ _
  | poolFails _ => exact ⟨h.canonical, h.settled⟩
  | execute held => exact h.executed held (s.executed _)
  | statementFails held => exact h.passOn held (by rfl) _ _
  | cacheInserted held => exact h.passOn held (by rfl) _ _
  | cacheUpdated held => exact h.passOn held (by rfl) _ _
  | read held _ _ => exact h.passOn held (by rfl) _ _
  | readFails held => exact h.passOn held (by rfl) _ _
  | send held _ _ => exact h.passOn held (by rfl) _ _
  | sendFails held _ => exact h.passOn held (by rfl) _ _
  | disconnect held => exact h.passOn held (by rfl) _ _
  | sent held => exact h.passOn held (by rfl) _ _
  | answer held => exact h.passOn held (by rfl) _ _
  | bootRead _ _ _ => exact ⟨h.canonical, h.settled⟩
  | bootReadFails _ => exact ⟨h.canonical, h.settled⟩
  | bootMetadata _ hmeta => exact h.metadata hmeta _
  | subscribe _ => exact ⟨h.canonical, h.settled⟩
  | subscribeFails _ => exact ⟨h.canonical, h.settled⟩
  | bootDone _ => exact ⟨h.canonical, h.settled⟩
  | receive _ _ => exact ⟨h.canonical, h.settled⟩
  | relay _ => exact ⟨h.canonical, h.settled⟩
  | relayMetadata _ hmeta => exact h.metadata hmeta _
  | relayed _ => exact ⟨h.canonical, h.settled⟩
  | cancel _ => exact ⟨h.canonical, h.settled⟩
  | restart boots => exact boots.coherent h.canonical

theorem mapCoherent_of_run {guard : Guard (Admin codec) AdminEvent} {s₀ : Admin codec}
    {history : List (Admin codec × AdminEvent)} (hrun : Run Admin.Step guard s₀ history s)
    (hstart : MapCoherent s₀) : MapCoherent s :=
  hrun.invariant (P := fun _ s => MapCoherent s) hstart fun h _ hstep => h.step hstep

/-! ### A registration -/

/-- The pool, the database, the node and the channel work, nobody goes away, and nothing is
deleted. -/
def AdminEvent.succeeds : AdminEvent → Bool
  | .statement .delete => false
  | .refuse _ => false
  | .readFails _ => false
  | .sendFails => false
  | .disconnect => false
  | .bootFails => false
  | .metadataFails => false
  | .cancel => false
  | .restart _ => false
  | _ => true

/-- The guard under which all goes well. -/
def smooth : Guard (Admin codec) AdminEvent := fun _ _ e => e.succeeds = true

/-- A registration reads the tokens. -/
def AdminEvent.isRead : AdminEvent → Bool
  | .read _ _ => true
  | _ => false

/-- The guard under which all goes well and no registration reads the tokens. -/
def routine : Guard (Admin codec) AdminEvent := fun _ _ e =>
  e.succeeds = true ∧ e.isRead = false

theorem Admin.Step.routinely (h : s.Step e s') (he : e.succeeds = true)
    (hread : e.isRead = false) : Run Admin.Step routine s [(s, e)] s' :=
  Run.start.step ⟨he, hread⟩ h

/-- **A registration comes to its read**, whatever the ingest thread does. -/
theorem Admin.reaches_registered {req : TokenRequest} {call : TokenCall codec}
    (hcall : decodeRequest codec .post req = some call) (hmethod : call.method = .post)
    (hrequests : s.requests = []) (hfree : s.holder = none)
    (hnew : codec.write call.token ∉ s.table) :
    ∃ history, Run Admin.Step routine s history
      ⟨s.table.insert (codec.write call.token) ⟨call.externalSymbol, none, none⟩,
        cacheInserted s.tokenMap call.token call.externalSymbol, s.channel, [],
        some (.registered call.token), s.thread⟩ := by
  obtain ⟨table, map, channel, requests, holder, thread⟩ := s
  dsimp only at hrequests hfree hnew ⊢
  subst hrequests hfree
  let table' := table.insert (codec.write call.token) ⟨call.externalSymbol, none, none⟩
  have harrive : (⟨table, map, channel, [], none, thread⟩ : Admin codec).Step (.arrive .post req)
      ⟨table, map, channel, [.received .post req], none, thread⟩ := .arrive
  have hdecode : Admin.Step ⟨table, map, channel, [.received .post req], none, thread⟩ .decode
      ⟨table, map, channel, [] ++ .waiting call :: [], none, thread⟩ := .decode rfl hcall
  have hacquire : Admin.Step ⟨table, map, channel, [.waiting call], none, thread⟩ .acquire
      ⟨table, map, channel, [] ++ [], some (.ready call), thread⟩ := .acquire rfl rfl
  have hexecute : Admin.execute ⟨table, map, channel, [], some (.ready call), thread⟩ call =
      ⟨table', map, channel, [], some (.inserted call.token call.externalSymbol), thread⟩ := by
    rw [Admin.execute, hmethod, registerToken]
    dsimp only
    rw [if_neg hnew]
  have hstatement : Admin.Step ⟨table, map, channel, [], some (.ready call), thread⟩
      (.statement call.method) _ := .execute rfl
  rw [hexecute, hmethod] at hstatement
  have hcache : Admin.Step
      (⟨table', map, channel, [], some (.inserted call.token call.externalSymbol), thread⟩ :
        Admin codec) .cache
      ⟨table', cacheInserted map call.token call.externalSymbol, channel, [],
        some (.registered call.token), thread⟩ := .cacheInserted rfl
  exact ⟨_, ((harrive.routinely rfl rfl).trans ((hdecode.routinely rfl rfl).trans
    (hacquire.routinely rfl rfl))).trans ((hstatement.routinely rfl rfl).trans
    (hcache.routinely rfl rfl))⟩

/-- It reads the registered tokens, its own included. -/
theorem Admin.reads {token : TokenId} (hcanonical : Canonical codec s.table)
    (held : s.holder = some (.registered token)) :
    ∃ existing, existing.Nodup ∧ (∀ other, other ∈ existing ↔ codec.write other ∈ s.table) ∧
      s.Step (.read token existing)
        { s with holder := some (.sending (directions token existing)) } := by
  obtain ⟨rows, hrows⟩ := exists_selects s.table
  obtain ⟨existing, hload, hnodup, hmem⟩ := hrows.tokens hcanonical
  exact ⟨existing, hnodup, hmem, .read held hrows hload⟩

/-- **The symbol map is that of the table** whenever no handler has the write connection, so
whenever none is running: a token has the symbol of the row that reads as it. -/
theorem symbol_map_coherent {initialTokens : List (TokenId × Option String)} {table : TokenTable}
    {s₀ : Admin codec} {history : List (Admin codec × AdminEvent)}
    (htable : Canonical codec table) (hboots : Boots initialTokens table s₀)
    (hrun : Run Admin.Step unguarded s₀ history s) (hholder : s.holder = none) (token : TokenId)
    (symbol : String) :
    s.tokenMap.lookup token = some symbol ↔
      ∃ key row, s.table.lookup key = some row ∧ readToken codec key = .ok token ∧
        row.externalSymbol = some symbol := by
  have hcoherent := mapCoherent_of_run hrun (hboots.coherent htable)
  have hlookup := hcoherent.settled token
  rw [hholder] at hlookup
  rw [show s.tokenMap.lookup token = _ from hlookup, symbolOf, Option.bind_eq_some_iff]
  constructor
  · rintro ⟨row, hrow, hsymbol⟩
    exact ⟨codec.write token, row, hrow, codec.readAll_write token, hsymbol⟩
  · rintro ⟨key, row, hrow, hread, hsymbol⟩
    rw [hcoherent.canonical.key_eq (FiniteMap.mem_of_lookup hrow) hread] at hrow
    exact ⟨row, hrow, hsymbol⟩

/-- A request to register token 0 with a symbol. -/
def registerZero : TokenRequest := ⟨"00", some "usd-coin"⟩

theorem decodeRequest_registerZero : decodeRequest (Codec.nat ()) .post registerZero =
    some ⟨.post, [0], 0, some "usd-coin", rfl⟩ := rfl

/-- Token 0 is registered in an empty database. -/
theorem symbol_map_coherent_registered :
    ∃ s₀ s : Admin (Codec.nat ()), ∃ history, Boots [] ∅ s₀ ∧
      Run Admin.Step unguarded s₀ history s ∧ s.requests = [] ∧ s.holder = none ∧
      s.tokenMap.lookup 0 = some "usd-coin" := by
  obtain ⟨table, map, hprep⟩ := canonical_empty.prepared []
  let s₀ : Admin (Codec.nat ()) := ⟨table, map, [], [], none, .starting⟩
  have hboots : Boots [] ∅ s₀ := ⟨hprep, rfl, rfl, rfl, rfl⟩
  have htable : s₀.table = ∅ := hprep.1
  have hnew : (Codec.nat ()).write 0 ∉ s₀.table := by
    rw [htable]
    exact Finmap.notMem_empty
  obtain ⟨history, hrun⟩ :=
    Admin.reaches_registered (s := s₀) decodeRequest_registerZero rfl rfl rfl hnew
  obtain ⟨existing, -, hmem, hread⟩ := Admin.reads
    (mapCoherent_of_run hrun (hboots.coherent canonical_empty)).canonical rfl
  have hnobody : directions 0 existing = [] := by
    have hothers : existing.filter (· ≠ 0) = [] := by
      rw [List.filter_eq_nil_iff]
      intro token htoken
      rw [hmem, Finmap.mem_insert, (Codec.nat ()).write_injective.eq_iff, htable] at htoken
      rw [htoken.resolve_right Finmap.notMem_empty]
      decide
    rw [directions, hothers]
    rfl
  rw [hnobody] at hread
  have hsent := ((hrun.mono fun _ _ _ _ => trivial : Run Admin.Step unguarded _ _ _).step trivial
    hread).step trivial (.sent rfl)
  refine ⟨_, _, _, hboots, hsent, rfl, rfl, ?_⟩
  rw [symbol_map_coherent canonical_empty hboots hsent rfl]
  exact ⟨_, _, Finmap.lookup_insert .., rfl, rfl⟩

end Coherence

end PswapSolver
