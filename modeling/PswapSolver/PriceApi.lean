import PswapSolver.Readers
import PswapSolver.PricePolls
import PswapSolver.SwapEta

/-! # The price API

The handlers of `price_api.rs`.  A handler reads the shared state several times: the time of the
last update, the clock, the database, the published prices, the best levels, the statistics.  The
feed and everyone else go on in between, and other requests are answered at the same time.  So a
handler is a program of atomic reads, and the server runs at most `max(1, max_inflight)` of them.

Here is what a handler reads and what it makes of it; what its answer is worth when the reads are
of different worlds is said by `served_prices`.
-/
namespace PswapSolver
open Runs Readers Codecs
variable {F ε : Type}

/-! ## Requests -/

/-- The query of a request. -/
abbrev Query := FiniteMap String String

inductive PricePrecision where
  | full
  | fixed (digits : Nat)
deriving DecidableEq

/-- `s.parse()` for an unsigned type: digits, after a plus sign if any, up to the largest number. -/
def parseUnsigned (maximum : Nat) (s : String) : Option Nat :=
  let digits := match s.toList with
    | '+' :: digits => digits
    | digits => digits
  if digits = [] ∨ ¬ digits.all Char.isDigit then none
  else
    let n := digits.foldl (fun n c => 10 * n + (c.toNat - '0'.toNat)) 0
    if n ≤ maximum then some n else none

/-- `"full"` in any case, or an integer up to 18. -/
def PricePrecision.parse (s : String) : Option PricePrecision :=
  if s.toList.map Char.toLower = "full".toList then some .full
  else ((parseUnsigned 255 s).filter (· ≤ 18)).map .fixed

def precisionLabel : PricePrecision → String
  | .full => "full"
  | .fixed n => toString n

/-- `char::is_whitespace` -/
def isWhitespace (c : Char) : Bool :=
  let n := c.toNat
  (9 ≤ n && n ≤ 13) || n = 0x20 || n = 0x85 || n = 0xA0 || n = 0x1680 ||
    (0x2000 ≤ n && n ≤ 0x200A) || n = 0x2028 || n = 0x2029 || n = 0x202F || n = 0x205F || n = 0x3000

/-- The ids of a batch: between commas, trimmed, not empty. -/
def batchIds (q : Query) : List String :=
  ((((q.lookup "ids").getD "").toList.splitOn ',').map fun part =>
    String.ofList ((part.dropWhile isWhitespace).rdropWhile isWhitespace)).filter (· ≠ "")

inductive ApiError where
  | badFaucetId (message : String)
  | badAmount (message : String)
  | badRequest (message : String)
  | unknownFaucet
  | noPrice
  | stale (asOf : Nat)
  | badPrecision (message : String)
  | batchTooLarge (maximum : Nat)
  | internal

structure PriceResponse where
  faucetId : String
  ticker : Option String
  vsCurrency : String
  price : String
  precision : String
  decimals : Option Nat
  asOf : Nat
  stale : Bool
  source : String

structure SwapEtaResponse where
  offeredFaucet : String
  requestedFaucet : String
  offeredAmount : String
  requestedAmount : String
  canFill : Bool
  offMarket : Option Bool
  estimatedSeconds : Option Nat
  marketPrice : Option String
  median24hSeconds : Option Nat

inductive PriceRequest where
  | price (faucetId : String) (q : Query)
  | prices (q : Query)
  | swapEta (q : Query)

/-- The query of a request for prices. -/
def PriceRequest.priceQuery : PriceRequest → Option Query
  | .price _ q => some q
  | .prices q => some q
  | .swapEta _ => none

inductive PriceAnswer where
  | price (response : PriceResponse)
  | prices (responses : FiniteMap String PriceResponse)
  | swapEta (response : SwapEtaResponse)

/-- The configuration of the API, and the texts of its types. -/
structure PriceApi (F : Type) where
  floats : PriceFloats F
  formatPrice : F → PricePrecision → String
  /-- `AccountId::from_hex` -/
  fromHex : String → Except String TokenId
  /-- `AccountId::to_hex` -/
  toHex : TokenId → String
  /-- A string in quotes, as in a message. -/
  debug : String → String
  vsCurrency : String
  defaultPrecision : PricePrecision
  stalenessSecs : Int
  maxBatch : Nat
  maxInflight : Nat
  swapEtaSecs : Nat
  swapOffmarketTolBps : Nat

/-! ## Reads -/

/-- What a handler reads at once. -/
inductive Observation where
  | lastPriceUpdate
  | clock
  | tokenRow (key : Bytes)
  | precise
  | swap
  | stats

def Observed (F : Type) : Observation → Type
  | .lastPriceUpdate => Nat
  | .clock => Nat
  | .tokenRow _ => Except Unit (Option TokenRow)
  | .precise => FiniteMap TokenId F
  | .swap => FiniteMap Pair OrderBook.BestLevel
  | .stats => SettlementStats

/-- `now_secs()` -/
def Market.nowSecs (m : Market F) : Nat := m.clock.getD 0

/-- `db::fetch_token_row` -/
def Market.fetchTokenRow (m : Market F) (key : Bytes) : Except Unit (Option TokenRow) :=
  if m.dbUp then .ok (m.table.lookup key) else .error ()

def Market.observe : (op : Observation) → Timeline (Market F) → Observed F op
  | .lastPriceUpdate, t => t.now.lastPriceUpdate
  | .clock, t => t.now.nowSecs
  | .tokenRow key, t => t.now.fetchTokenRow key
  | .precise, t => t.now.precise
  | .swap, t => t.now.swap
  | .stats, t => t.now.stats

/-- A handler: reads, and an answer or an error. -/
abbrev Handler (F R : Type) := ExceptT ApiError (Prog (Observed F)) R

abbrev loadLastPriceUpdate : Handler F Nat := ExceptT.lift (Prog.ask Observation.lastPriceUpdate)
abbrev nowSecs : Handler F Nat := ExceptT.lift (Prog.ask Observation.clock)
abbrev fetchTokenRow (key : Bytes) : Handler F (Except Unit (Option TokenRow)) :=
  ExceptT.lift (Prog.ask (Observation.tokenRow key))
abbrev borrowPrecise : Handler F (FiniteMap TokenId F) :=
  ExceptT.lift (Prog.ask Observation.precise)
abbrev borrowSwap : Handler F (FiniteMap Pair OrderBook.BestLevel) :=
  ExceptT.lift (Prog.ask Observation.swap)
abbrev borrowStats : Handler F SettlementStats := ExceptT.lift (Prog.ask Observation.stats)

/-! ## Handlers -/

/-- `d as u8` -/
def asU8 (d : Int) : Nat := (d % 256).toNat

def wantsStale (q : Query) : Bool :=
  match q.lookup "allow_stale" with
  | some v => v = "true" || v = "1"
  | none => false

/-- A result that needs no read. -/
def ofExcept {R : Type} (r : Except ApiError R) : Handler F R := ExceptT.mk (.pure r)

namespace PriceApi
variable (api : PriceApi F) (codec : Codec ε TokenId)

def resolvePrecision (q : Query) : Except ApiError PricePrecision :=
  match q.lookup "precision" with
  | some p =>
    match PricePrecision.parse p with
    | some precision => .ok precision
    | none => .error (.badPrecision ("must be \"full\" or 0..=18, got " ++ api.debug p))
  | none => .ok api.defaultPrecision

/-- Is the time older than the bound? -/
def isStale (asOf now : Nat) : Bool := decide (api.stalenessSecs < (now : Int) - asOf)

/-- The time of the last update, and whether it is too old.  The two reads are apart. -/
def staleness : Handler F (Nat × Bool) := do
  let asOf ← loadLastPriceUpdate
  let now ← nowSecs
  pure (asOf, api.isStale asOf now)

/-- The row of a registered token. -/
def registeredRow (token : TokenId) : Handler F TokenRow := do
  match ← fetchTokenRow (codec.write token) with
  | .error () => throw .internal
  | .ok none => throw .unknownFaucet
  | .ok (some row) => pure row

/-- The answer for a token and a price. -/
def respond (token : TokenId) (row : TokenRow) (usd : F) (precision : PricePrecision) (asOf : Nat)
    (stale : Bool) : PriceResponse where
  faucetId := api.toHex token
  ticker := row.ticker
  vsCurrency := api.vsCurrency
  price := api.formatPrice usd precision
  precision := precisionLabel precision
  decimals := row.decimals.map asU8
  asOf := asOf
  stale := stale
  source := "coingecko"

def quoteOne (faucetHex : String) (precision : PricePrecision) (asOf : Nat) (stale : Bool) :
    Handler F PriceResponse :=
  match api.fromHex faucetHex with
  | .error e => throw (.badFaucetId e)
  | .ok accountId => do
    let row ← registeredRow codec accountId
    let snap ← borrowPrecise
    match snap.lookup accountId with
    | none => throw .noPrice
    | some usd => pure (api.respond accountId row usd precision asOf stale)

/-- The gate of both requests for prices: too old a time is an error unless it is asked for. -/
def unlessStale (q : Query) (next : Nat → Bool → Handler F PriceAnswer) :
    Handler F PriceAnswer := do
  let (asOf, stale) ← api.staleness
  if stale && !wantsStale q then throw (.stale asOf) else next asOf stale

/-- `GET /v1/price/…` -/
def getPrice (faucetId : String) (q : Query) : Handler F PriceAnswer := do
  let precision ← ofExcept (api.resolvePrecision q)
  api.unlessStale q fun asOf stale => do
    let response ← api.quoteOne codec faucetId precision asOf stale
    pure (.price response)

/-- One turn of the loop over a batch: what has no price is left out. -/
def quoteNext (precision : PricePrecision) (asOf : Nat) (stale : Bool)
    (out : FiniteMap String PriceResponse) (id : String) :
    Prog (Observed F) (FiniteMap String PriceResponse) := do
  match ← (api.quoteOne codec id precision asOf stale).run with
  | .ok response => pure (out.insert response.faucetId response)
  | .error _ => pure out

/-- `GET /v1/prices` -/
def getPrices (q : Query) : Handler F PriceAnswer := do
  let ids := batchIds q
  if api.maxBatch < ids.length then throw (.batchTooLarge api.maxBatch)
  else
    let precision ← ofExcept (api.resolvePrecision q)
    api.unlessStale q fun asOf stale => do
      let out ← ExceptT.lift (ids.foldlM (api.quoteNext codec precision asOf stale) ∅)
      pure (.prices out)

def parseAmount (q : Query) (key : String) : Except ApiError Nat :=
  match q.lookup key with
  | none => .error (.badAmount s!"missing `{key}`")
  | some raw =>
    match parseUnsigned u64Max raw with
    | none => .error (.badAmount (s!"`{key}` must be a u64, got " ++ api.debug raw))
    | some v => if v = 0 then .error (.badAmount s!"`{key}` must be > 0") else .ok v

def parseFaucet (q : Query) (key : String) : Except ApiError TokenId :=
  match q.lookup key with
  | none => .error (.badFaucetId s!"missing `{key}`")
  | some raw =>
    match api.fromHex raw with
    | .error e => .error (.badFaucetId s!"`{key}`: {e}")
    | .ok token => .ok token

/-- The order that a query asks about. -/
structure SwapQuery where
  offeredFaucet : TokenId
  requestedFaucet : TokenId
  offeredAmount : Nat
  requestedAmount : Nat

def parseSwap (q : Query) : Except ApiError SwapQuery := do
  let a ← api.parseFaucet q "offered_faucet"
  let b ← api.parseFaucet q "requested_faucet"
  if a = b then throw (.badRequest "offered_faucet and requested_faucet must differ")
  let offeredAmount ← api.parseAmount q "offered_amount"
  let requestedAmount ← api.parseAmount q "requested_amount"
  pure ⟨a, b, offeredAmount, requestedAmount⟩

/-- The two prices, from one snapshot, unless the feed is stale. -/
def oraclePrices (a b : TokenId) : Handler F (Option F × Option F) := do
  let (_, stale) ← api.staleness
  if stale then pure (none, none)
  else
    let snap ← borrowPrecise
    pure (snap.lookup a, snap.lookup b)

/-- The answer to a query about an order. -/
def respondSwap (order : SwapQuery) (rowA rowB : TokenRow) (best : Option OrderBook.BestLevel)
    (usd : Option F × Option F) (median : Option Nat) : SwapEtaResponse :=
  let canFill := evalCanFill order.offeredAmount order.requestedAmount best
  let verdict := evalOffMarket api.floats.toFloats order.offeredAmount (rowA.decimals.map asU8)
    usd.1 order.requestedAmount (rowB.decimals.map asU8) usd.2 api.swapOffmarketTolBps
  { offeredFaucet := api.toHex order.offeredFaucet
    requestedFaucet := api.toHex order.requestedFaucet
    offeredAmount := toString order.offeredAmount
    requestedAmount := toString order.requestedAmount
    canFill := canFill
    offMarket := verdict.1
    estimatedSeconds := if canFill then some api.swapEtaSecs else none
    marketPrice := verdict.2
    median24hSeconds := median }

/-- `GET /v1/swap-eta`.  The order meets the best level of the opposite pair. -/
def getSwapEta (q : Query) : Handler F PriceAnswer := do
  let order ← ofExcept (api.parseSwap q)
  let rowA ← registeredRow codec order.offeredFaucet
  let rowB ← registeredRow codec order.requestedFaucet
  let swap ← borrowSwap
  let best := swap.lookup (order.requestedFaucet, order.offeredFaucet)
  let usd ← api.oraclePrices order.offeredFaucet order.requestedFaucet
  let now ← nowSecs
  let stats ← borrowStats
  let median := stats.medianSecs (order.offeredFaucet, order.requestedFaucet) now
  pure (.swapEta (api.respondSwap order rowA rowB best usd median))

/-- The routes. -/
def handle : PriceRequest → Prog (Observed F) (Except ApiError PriceAnswer)
  | .price faucetId q => (api.getPrice codec faucetId q).run
  | .prices q => (api.getPrices codec q).run
  | .swapEta q => (api.getSwapEta codec q).run

/-- The permits of `concurrency_guard`. -/
def permits : Nat := max api.maxInflight 1

/-- **The server**: requests and the shared state, in any interleaving. -/
abbrev ApiStep := Responder.Step (Timeline.Change (Market.Step api.floats api.vsCurrency))
  Market.observe (api.handle codec) api.permits

end PriceApi

end PswapSolver
