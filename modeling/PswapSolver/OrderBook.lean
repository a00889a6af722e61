import PswapSolver.FiniteMap
import PswapSolver.Order
import PswapSolver.StableQueue

/-! # The order book

The model of `matching/order_book.rs`.  A hash map is a `FiniteMap`, a hash set a
`Finset`, and the `BTreeMap` of one pair a list of levels in ascending rate order
(`StableQueue`), each holding its order ids oldest first.

The book keeps the same information several times over: the orders themselves,
the rate index, the adjacency of tokens, a counter per pair, and the parked notes
with their expiry queue.  The functions below update these structures exactly as
the source does; that they stay in step is the subject of `BookInvariant`.
-/
namespace PswapSolver
open StableQueue

/-- A price feed: the price of a token in cents, or nothing when it is unknown. -/
abbrev PriceFeed := TokenId → Option Nat

/-- `a.saturating_add(b)` on `u64`. -/
def satAdd64 (a b : Nat) : Nat := min (a + b) u64Max

/-- The part of the book that finds orders by pair and rate. -/
structure Index where
  /-- Per directed pair, the order ids by ascending rate, first come first served
  within a rate. -/
  pairIndex : FiniteMap Pair (List (RateKey × List OrderId))
  /-- `outgoing[A] = {B | order offering A requesting B exists}` -/
  userAdjacency : FiniteMap TokenId (Finset TokenId)
  /-- `incoming[B] = {A | order offering A requesting B exists}` -/
  incomingAdjacency : FiniteMap TokenId (Finset TokenId)
  /-- In the source a `u32`; the two agree while fewer than `2 ^ 32` orders are live. -/
  activePairCount : FiniteMap Pair Nat

/-- The order book. -/
structure OrderBook extends Index where
  orders : FiniteMap OrderId Order
  /-- Notes handed to an external DEX: which one, and when. -/
  parked : FiniteMap OrderId (DexId × Nat)
  /-- The parks in time order; an entry whose park was undone stays behind. -/
  parkQueue : List (Nat × OrderId)
  protocolBalances : FiniteMap TokenId Nat
  tokens : Finset TokenId
  feed : PriceFeed

/-! ## The index -/

namespace Index
variable (ix : Index)

/-- `map.entry(k).or_default().insert(v)` on an adjacency map. -/
def link (adj : FiniteMap TokenId (Finset TokenId)) (k v : TokenId) :
    FiniteMap TokenId (Finset TokenId) :=
  adj.insert k (insert v ((adj.lookup k).getD ∅))

/-- Removes `v` from the set at `k`, and the set itself once it is empty. -/
def unlink (adj : FiniteMap TokenId (Finset TokenId)) (k v : TokenId) :
    FiniteMap TokenId (Finset TokenId) :=
  match adj.lookup k with
  | some s => if s.erase v = ∅ then adj.erase k else adj.insert k (s.erase v)
  | none => adj

/-- Inserts an order id into the rate index, the counter and the adjacency maps. -/
def indexInsert (id : OrderId) (offeredToken requestedToken : TokenId) (key : RateKey) :
    Index :=
  let pair := (offeredToken, requestedToken)
  { pairIndex := ix.pairIndex.insert pair (pushBack key id ((ix.pairIndex.lookup pair).getD []))
    activePairCount := ix.activePairCount.insert pair
      ((ix.activePairCount.lookup pair).getD 0 + 1)
    userAdjacency := link ix.userAdjacency offeredToken requestedToken
    incomingAdjacency := link ix.incomingAdjacency requestedToken offeredToken }

/-- Removes an order from the rate index; a pair left without levels leaves the
index and the adjacency maps. -/
def removeFromIndex (pair : Pair) (key : RateKey) (orderId : OrderId) : Index :=
  match ix.pairIndex.lookup pair with
  | none => ix
  | some btree =>
    let btree := remove key orderId btree
    if btree = [] then
      { ix with
        pairIndex := ix.pairIndex.erase pair
        userAdjacency := unlink ix.userAdjacency pair.1 pair.2
        incomingAdjacency := unlink ix.incomingAdjacency pair.2 pair.1 }
    else { ix with pairIndex := ix.pairIndex.insert pair btree }

/-- `*count = count.saturating_sub(1)` for a pair that has a counter. -/
def decrementCount (pair : Pair) : Index :=
  { ix with activePairCount := ix.activePairCount.modify pair (· - 1) }

/-- The ids indexed under a pair, best rate first, oldest first within a rate. -/
def queue (p : Pair) : List OrderId := items ((ix.pairIndex.lookup p).getD [])

/-- Does the pair have any active order? -/
def hasOrders (offered requested : TokenId) : Bool :=
  match ix.activePairCount.lookup (offered, requested) with
  | none => false
  | some c => decide (0 < c)

/-- Tokens requested by orders that offer `offered`. -/
def neighbors (offered : TokenId) : Finset TokenId := (ix.userAdjacency.lookup offered).getD ∅

/-- Tokens offered by orders that request `requested`. -/
def incomingNeighbors (requested : TokenId) : Finset TokenId :=
  (ix.incomingAdjacency.lookup requested).getD ∅

/-- Number of orders the matching engine can see; a sum of `u32` in the source, as with
`activePairCount`. -/
def activeOrderCount : Nat := ix.activePairCount.total fun _ c => c

end Index

namespace OrderBook

/-- The empty book. -/
def new (feed : PriceFeed) : OrderBook where
  orders := ∅
  pairIndex := ∅
  userAdjacency := ∅
  incomingAdjacency := ∅
  activePairCount := ∅
  parked := ∅
  parkQueue := []
  protocolBalances := ∅
  tokens := ∅
  feed := feed

variable (book : OrderBook)

/-! ## Orders -/

/-- Adds a user order.  An id that is live in the index is left alone; a parked id
is added afresh. -/
def addUserOrder (noteId : OrderId) (terms : OrderTerms) : OrderBook :=
  if noteId ∈ book.orders ∧ noteId ∉ book.parked then book
  else
    let order := Order.fresh noteId terms
    { book with
      parked := book.parked.erase noteId
      orders := book.orders.insert noteId order
      toIndex := book.indexInsert noteId terms.offeredToken terms.requestedToken order.rateKey
      tokens := insert terms.requestedToken (insert terms.offeredToken book.tokens) }

/-- Removes a fully filled order from the index; the order itself stays in
`orders`. -/
def cleanupIfFilled (orderId : OrderId) : OrderBook :=
  match book.orders.lookup orderId with
  | none => book
  | some order =>
    if !order.isCompletelyFilled then book
    else
      { book with
        toIndex := (book.decrementCount order.pair).removeFromIndex
          order.pair order.rateKey orderId }

/-- Removes an order from the book entirely. -/
def removeOrder (orderId : OrderId) : OrderBook :=
  match book.orders.lookup orderId with
  | none => book
  | some order =>
    let book := { book with orders := book.orders.erase orderId }
    -- A parked note left the index when it was parked.
    if orderId ∈ book.parked then { book with parked := book.parked.erase orderId }
    else
      let index := if order.isActive then book.decrementCount order.pair else book.toIndex
      { book with toIndex := index.removeFromIndex order.pair order.rateKey orderId }

/-! ## Park and unpark -/

/-- Hands a note to an external DEX: it leaves the index, its order stays. -/
def park (id : OrderId) (dex : DexId) (time : Nat) : OrderBook :=
  if id ∈ book.parked then book
  else
    match book.orders.lookup id with
    | none => book
    | some order =>
      if !order.isActive then book
      else
        { book with
          toIndex := (book.decrementCount order.pair).removeFromIndex order.pair order.rateKey id
          parked := book.parked.insert id (dex, time)
          parkQueue := book.parkQueue ++ [(time, id)] }

/-- Puts an order's existing struct back into the index, at the back of its rate. -/
def reindex (id : OrderId) : OrderBook :=
  match book.orders.lookup id with
  | none => book
  | some order =>
    if !order.isActive then book
    else
      { book with
        toIndex := book.indexInsert id order.offeredToken order.requestedToken order.rateKey }

/-- Unparks a note at once.  Returns the DEX it was parked for; the entry in
`parkQueue` stays behind. -/
def unpark (id : OrderId) : Option DexId × OrderBook :=
  match book.parked.lookup id with
  | none => (none, book)
  | some (dex, _) => (some dex, ({ book with parked := book.parked.erase id }).reindex id)

/-- The sweep over the park queue, which is the first argument throughout. -/
def reactivateLoop (ttl time : Nat) :
    List (Nat × OrderId) → OrderBook → List (OrderId × DexId) × OrderBook
  | [], book => ([], book)
  | (parkedAt, id) :: rest, book =>
    -- Once the front isn't expired, none behind it are.
    if time < satAdd64 parkedAt ttl then ([], book)
    else
      match ({ book with parkQueue := rest }).unpark id with
      | (some dex, book) =>
        ((id, dex) :: (reactivateLoop ttl time rest book).1,
          (reactivateLoop ttl time rest book).2)
      | (none, book) => reactivateLoop ttl time rest book

/-- Unparks every note whose entry at the front of the queue is older than `ttl`. -/
def reactivateParkedOlderThan (ttl time : Nat) : List (OrderId × DexId) × OrderBook :=
  reactivateLoop ttl time book.parkQueue book

/-! ## Views -/

/-- Does `orders` hold no active order under this id? -/
def isStale (orders : FiniteMap OrderId Order) (id : OrderId) : Bool :=
  match orders.lookup id with
  | none => true
  | some o => !o.isActive

/-- Drops stale ids from the front of the levels; returns the first live order. -/
def pruneLevels (orders : FiniteMap OrderId Order) :
    List (RateKey × List OrderId) → Option Order × List (RateKey × List OrderId)
  | [] => (none, [])
  | (key, ids) :: rest =>
    match ids.dropWhile (isStale orders) with
    | [] => pruneLevels orders rest
    | bestId :: ids => (orders.lookup bestId, (key, bestId :: ids) :: rest)

/-- The best active order of a pair; inactive ids met on the way are dropped. -/
def bestOrder (offered requested : TokenId) : Option Order × OrderBook :=
  match book.pairIndex.lookup (offered, requested) with
  | none => (none, book)
  | some btree =>
    let (best, btree) := pruneLevels book.orders btree
    (best, { book with pairIndex := book.pairIndex.insert (offered, requested) btree })

/-- Active orders of a pair in rate order. -/
def notesForPair (offered requested : TokenId) : List Order :=
  ((book.queue (offered, requested)).filterMap book.orders.lookup).filter Order.isActive

/-- The first level with an active order, and the offered amount it holds. -/
def bestLevelOf (orders : FiniteMap OrderId Order) :
    List (RateKey × List OrderId) → Option (RateKey × Nat)
  | [] => none
  | (key, ids) :: rest =>
    let active := (ids.filterMap orders.lookup).filter Order.isActive
    if active = [] then bestLevelOf orders rest
    else some (key, active.foldl (fun volume o => satAdd64 volume o.offeredRemaining) 0)

/-- Top of book for a directed pair. -/
def bestLevel (offered requested : TokenId) : Option (RateKey × Nat) :=
  match book.pairIndex.lookup (offered, requested) with
  | none => none
  | some btree => bestLevelOf book.orders btree

/-- A level of the snapshot the swap API reads. -/
structure BestLevel where
  rate : RateKey
  volume : Nat
deriving DecidableEq

/-- Puts the top of a pair into the snapshot, if it has one. -/
def snapshotPair (map : FiniteMap Pair BestLevel) (pair : Pair) : FiniteMap Pair BestLevel :=
  match book.bestLevel pair.1 pair.2 with
  | some (rate, volume) => map.insert pair ⟨rate, volume⟩
  | none => map

/-- Snapshots the top of every directed pair; `keys` are the keys of the index in the order
they are visited. -/
def snapshotBestLevels (keys : List Pair) : FiniteMap Pair BestLevel :=
  keys.foldl book.snapshotPair ∅

/-! ## Matching -/

/-- Credits a surplus to the protocol. -/
def addProtocolBalance (token : TokenId) (amount : Nat) : OrderBook :=
  if amount = 0 then book
  else
    { book with
      protocolBalances := book.protocolBalances.insert token
        ((book.protocolBalances.lookup token).getD 0 + amount)
      tokens := insert token book.tokens }

/-- Applies a match between two orders.  The orders are cloned first, so a match
that comes to nothing leaves the book alone. -/
def applyMatch (aId bId : OrderId) : Option (MatchResult × OrderBook) :=
  if aId = bId then none
  else
    match book.orders.lookup aId, book.orders.lookup bId with
    | some orderA, some orderB =>
      match orderA.matchWith orderB with
      | (none, _, _) => none
      | (some result, orderA, orderB) =>
        let book := { book with orders := (book.orders.insert aId orderA).insert bId orderB }
        let book := book.addProtocolBalance orderA.offeredToken result.surplusOffered
        let book := book.addProtocolBalance orderB.offeredToken result.surplusRequested
        some (result, (book.cleanupIfFilled aId).cleanupIfFilled bId)
    | _, _ => none

end OrderBook

end PswapSolver
