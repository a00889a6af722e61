import PswapSolver.Registry
import PswapSolver.OffMarket
import PswapSolver.SettlementStats

/-! # The price feed

The loop `run_price_feed` of `price/price.rs` with the client of `price/coingecko.rs`, and all that
the price API reads while it runs.  A poll publishes three times, one after the other: the cents
of the matcher, the precise prices of the API, and the time of the update.  A reader in between
sees some of it.

`Market` is this shared state.  It keeps, for the proofs, the log of the polls whose prices were
published, each with the time that was written for it, if any.  The prices are those of the last
poll of the log, and the time is the last one in the log (`Market.Coherent`); the log only grows
(`Grows`).  The clock of the machine may be set to any time, and it may be before 1970.
-/
namespace PswapSolver
variable {F : Type}

/-- What the price client and the price API do with a price of type `f64`. -/
structure PriceFloats (F : Type) extends Floats F where
  /-- `x.is_finite() && x >= 0.0` -/
  usable : F → Bool

/-! ## A poll -/

/-- What a successful poll was made of: the tokens, the symbol map when the request was built, and
the answer of the price service, by symbol and currency. -/
structure Poll (F : Type) where
  tokens : List TokenId
  symbols : TokenMap
  body : FiniteMap String (FiniteMap String F)

/-- The tokens to ask for, with their symbols. -/
def requested (tokens : List TokenId) (symbols : TokenMap) : TokenMap :=
  FiniteMap.collect symbols.lookup tokens

section
variable (fp : PriceFloats F) (vsCurrency : String)

/-- The price of a token, if the answer has a usable one for its symbol. -/
def Poll.priceOf (poll : Poll F) (token : TokenId) : Option F := do
  let symbol ← (requested poll.tokens poll.symbols).lookup token
  let prices ← poll.body.lookup symbol
  let usd ← prices.lookup vsCurrency
  if fp.usable usd then some usd else none

/-- The result of `fetch_prices`.  The tokens are independent of each other, so that the order of
the map does not matter. -/
def Poll.prices (poll : Poll F) : FiniteMap TokenId F :=
  FiniteMap.collect (poll.priceOf fp vsCurrency) poll.tokens

/-- The cents of the matcher, a `u64`. -/
def toCents (precise : FiniteMap TokenId F) : FiniteMap TokenId Nat :=
  precise.mapValues fun usd => min (fp.cents usd) u64Max

end

theorem Poll.lookup_prices (fp : PriceFloats F) (vsCurrency : String) (poll : Poll F)
    (token : TokenId) :
    (poll.prices fp vsCurrency).lookup token = poll.priceOf fp vsCurrency token := by
  rw [prices, FiniteMap.lookup_collect]
  split
  · rfl
  · rename_i hmem
    simp [priceOf, requested, FiniteMap.lookup_collect, hmem]

/-! ## The shared state -/

/-- Where the loop of the feed is. -/
inductive FeedStage (F : Type) where
  | sleeping
  | gotTokens (tokens : List TokenId)
  | waiting (tokens : List TokenId) (symbols : TokenMap)
  | fetched (poll : Poll F)
  | sentCents (poll : Poll F)
  | sentPrecise (poll : Poll F)

/-- A published poll, and the time of the update if it was written. -/
structure Published (F : Type) where
  poll : Poll F
  stamp : Option Nat

/-- What the feed, the admin, the matcher and the executor share with the price API. -/
structure Market (F : Type) where
  symbols : TokenMap
  table : TokenTable
  /-- Whether the queries succeed. -/
  dbUp : Bool
  cents : FiniteMap TokenId Nat
  precise : FiniteMap TokenId F
  lastPriceUpdate : Nat
  swap : FiniteMap Pair OrderBook.BestLevel
  stats : SettlementStats
  /-- Seconds since 1970, if the clock is not before. -/
  clock : Option Nat
  feed : FeedStage F
  log : List (Published F)

namespace Market

/-- The state when the channels are made. -/
def boot (symbols : TokenMap) (table : TokenTable) (clock : Option Nat) : Market F :=
  ⟨symbols, table, true, ∅, ∅, 0, ∅, .new, clock, .sleeping, []⟩

/-- **The steps of the feed**, and of all others. -/
inductive Step (fp : PriceFloats F) (vsCurrency : String) : Market F → Market F → Prop
  | getTokens {m : Market F} (tokens : List TokenId) (asleep : m.feed = .sleeping)
      (nodup : tokens.Nodup) (keys : ∀ token, token ∈ tokens ↔ token ∈ m.symbols) :
      Step fp vsCurrency m { m with feed := .gotTokens tokens }
  | request {m : Market F} {tokens : List TokenId} (got : m.feed = .gotTokens tokens) :
      Step fp vsCurrency m { m with feed := .waiting tokens m.symbols }
  | answer {m : Market F} {tokens : List TokenId} {symbols : TokenMap}
      (waits : m.feed = .waiting tokens symbols) (body : FiniteMap String (FiniteMap String F)) :
      Step fp vsCurrency m { m with feed := .fetched ⟨tokens, symbols, body⟩ }
  /-- No request is sent when there is nothing to ask for. -/
  | fail {m : Market F} {tokens : List TokenId} {symbols : TokenMap}
      (waits : m.feed = .waiting tokens symbols) (sent : requested tokens symbols ≠ ∅) :
      Step fp vsCurrency m { m with feed := .sleeping }
  | sendCents {m : Market F} {poll : Poll F} (fetched : m.feed = .fetched poll) :
      Step fp vsCurrency m
        { m with cents := toCents fp (poll.prices fp vsCurrency), feed := .sentCents poll }
  | sendPrecise {m : Market F} {poll : Poll F} (sent : m.feed = .sentCents poll) :
      Step fp vsCurrency m
        { m with
          precise := poll.prices fp vsCurrency
          feed := .sentPrecise poll
          log := m.log ++ [⟨poll, none⟩] }
  | stamp {m : Market F} {poll : Poll F} {now : Nat} (sent : m.feed = .sentPrecise poll)
      (clock : m.clock = some now) :
      Step fp vsCurrency m
        { m with
          lastPriceUpdate := now
          feed := .sleeping
          log := m.log.dropLast ++ [⟨poll, some now⟩] }
  | noStamp {m : Market F} {poll : Poll F} (sent : m.feed = .sentPrecise poll)
      (clock : m.clock = none) : Step fp vsCurrency m { m with feed := .sleeping }
  /-- The admin and ingest write the table and the symbols, the matcher and the executor publish,
  the database fails and recovers, and time passes. -/
  | others {m : Market F} (symbols : TokenMap) (table : TokenTable) (dbUp : Bool)
      (swap : FiniteMap Pair OrderBook.BestLevel) (stats : SettlementStats) (clock : Option Nat) :
      Step fp vsCurrency m { m with symbols, table, dbUp, swap, stats, clock }

/-- The prices of the last published poll. -/
def latest (fp : PriceFloats F) (vsCurrency : String) (log : List (Published F)) :
    FiniteMap TokenId F :=
  match log.getLast? with
  | some x => x.poll.prices fp vsCurrency
  | none => ∅

/-- `time` is the last one that was written in the log, or the initial one. -/
def LastStamp (log : List (Published F)) (time : Nat) : Prop :=
  (time = 0 ∧ ∀ (k : Nat) (x : Published F), log[k]? = some x → x.stamp = none) ∨
  ∃ (i : Nat) (x : Published F), log[i]? = some x ∧ x.stamp = some time ∧
    ∀ (k : Nat) (y : Published F), i < k → log[k]? = some y → y.stamp = none

/-- **What is published is what the log says.**  The matcher's cents are one poll ahead while the
precise prices are not sent. -/
structure Coherent (fp : PriceFloats F) (vsCurrency : String) (m : Market F) : Prop where
  precise : m.precise = latest fp vsCurrency m.log
  cents : (∀ poll, m.feed ≠ .sentCents poll) → m.cents = toCents fp (latest fp vsCurrency m.log)
  ahead : ∀ poll, m.feed = .sentCents poll → m.cents = toCents fp (poll.prices fp vsCurrency)
  pending : ∀ poll, m.feed = .sentPrecise poll → ∃ earlier, m.log = earlier ++ [⟨poll, none⟩]
  stamp : LastStamp m.log m.lastPriceUpdate

/-- **The log only grows**; a time that is written stays. -/
def Grows (log log' : List (Published F)) : Prop :=
  ∀ (i : Nat) (x : Published F), log[i]? = some x →
    ∃ y : Published F, log'[i]? = some y ∧ y.poll = x.poll ∧ (x.stamp = none ∨ y.stamp = x.stamp)

theorem Grows.refl (log : List (Published F)) : Grows log log :=
  fun _ x hx => ⟨x, hx, rfl, .inr rfl⟩

theorem Grows.trans {a b c : List (Published F)} (hab : Grows a b) (hbc : Grows b c) :
    Grows a c := by
  intro i x hx
  obtain ⟨y, hy, hpoll, hstamp⟩ := hab i x hx
  obtain ⟨z, hz, hpoll', hstamp'⟩ := hbc i y hy
  refine ⟨z, hz, hpoll'.trans hpoll, ?_⟩
  rcases hstamp with hnone | hstamp
  · exact .inl hnone
  · rw [hstamp] at hstamp'
    exact hstamp'

theorem Grows.length_le {a b : List (Published F)} (h : Grows a b) : a.length ≤ b.length := by
  by_contra hlt
  obtain ⟨y, hy, -⟩ := h b.length _ (List.getElem?_eq_getElem (Nat.lt_of_not_le hlt))
  rw [List.getElem?_eq_none (Nat.le_refl _)] at hy
  cases hy

theorem grows_append (log : List (Published F)) (x : Published F) : Grows log (log ++ [x]) := by
  intro i y hy
  obtain ⟨hi, -⟩ := List.getElem?_eq_some_iff.mp hy
  exact ⟨y, by rw [List.getElem?_append_left hi, hy], rfl, .inr rfl⟩

/-- Writing the time of the last poll. -/
theorem grows_stamp (log : List (Published F)) (poll : Poll F) (stamp : Option Nat) :
    Grows (log ++ [⟨poll, none⟩]) (log ++ [⟨poll, stamp⟩]) := by
  intro i x hx
  by_cases hi : i < log.length
  · rw [List.getElem?_append_left hi] at hx ⊢
    exact ⟨x, hx, rfl, .inr rfl⟩
  · rw [List.getElem?_append_right (Nat.le_of_not_lt hi)] at hx ⊢
    cases hk : i - log.length with
    | zero =>
      rw [hk] at hx
      cases hx
      exact ⟨_, rfl, rfl, .inl rfl⟩
    | succ k =>
      rw [hk] at hx
      cases hx

/-- A poll that has no time yet leaves the last time as it is. -/
theorem LastStamp.append {log : List (Published F)} {time : Nat} (h : LastStamp log time)
    (poll : Poll F) : LastStamp (log ++ [⟨poll, none⟩]) time := by
  have hnew : ∀ (k : Nat) (y : Published F), log.length ≤ k →
      (log ++ [⟨poll, none⟩])[k]? = some y → y.stamp = none := by
    intro k y hk hy
    rw [List.getElem?_append_right hk] at hy
    obtain rfl := List.mem_singleton.mp (List.mem_of_getElem? hy)
    rfl
  rcases h with ⟨rfl, hnone⟩ | ⟨i, x, hx, hstamp, hlast⟩
  · refine .inl ⟨rfl, fun k y hy => ?_⟩
    by_cases hk : k < log.length
    · rw [List.getElem?_append_left hk] at hy
      exact hnone k y hy
    · exact hnew k y (Nat.le_of_not_lt hk) hy
  · obtain ⟨hi, -⟩ := List.getElem?_eq_some_iff.mp hx
    refine .inr ⟨i, x, by rw [List.getElem?_append_left hi, hx], hstamp, fun k y hik hy => ?_⟩
    by_cases hk : k < log.length
    · rw [List.getElem?_append_left hk] at hy
      exact hlast k y hik hy
    · exact hnew k y (Nat.le_of_not_lt hk) hy

theorem lastStamp_stamped (log : List (Published F)) (poll : Poll F) (now : Nat) :
    LastStamp (log ++ [⟨poll, some now⟩]) now := by
  refine .inr ⟨log.length, _, List.getElem?_concat_length, rfl, fun k y hk hy => ?_⟩
  rw [List.getElem?_eq_none (by rw [List.length_append]; exact hk)] at hy
  cases hy

theorem latest_append (fp : PriceFloats F) (vsCurrency : String) (log : List (Published F))
    (x : Published F) : latest fp vsCurrency (log ++ [x]) = x.poll.prices fp vsCurrency := by
  rw [latest, List.getLast?_concat]

theorem coherent_boot (fp : PriceFloats F) (vsCurrency : String) (symbols : TokenMap)
    (table : TokenTable) (clock : Option Nat) :
    Coherent fp vsCurrency (boot symbols table clock) :=
  ⟨rfl, fun _ => rfl, nofun, nofun, .inl ⟨rfl, nofun⟩⟩

/-- **One step.** -/
theorem Coherent.step {fp : PriceFloats F} {vsCurrency : String} {m m' : Market F}
    (h : m.Coherent fp vsCurrency) (hstep : Step fp vsCurrency m m') :
    m'.Coherent fp vsCurrency ∧ Grows m.log m'.log := by
  -- the cents are one ahead only between the two sends
  have hkept : ∀ stage, m.feed = stage → (∀ poll, stage ≠ .sentCents poll) →
      m.cents = toCents fp (latest fp vsCurrency m.log) := by
    intro stage hstage hne
    exact h.cents (hstage ▸ hne)
  cases hstep with
  | getTokens tokens asleep nodup keys =>
    exact ⟨⟨h.precise, fun _ => hkept _ asleep nofun, nofun, nofun, h.stamp⟩, .refl _⟩
  | request got =>
    exact ⟨⟨h.precise, fun _ => hkept _ got nofun, nofun, nofun, h.stamp⟩, .refl _⟩
  | answer waits body =>
    exact ⟨⟨h.precise, fun _ => hkept _ waits nofun, nofun, nofun, h.stamp⟩, .refl _⟩
  | fail waits sent =>
    exact ⟨⟨h.precise, fun _ => hkept _ waits nofun, nofun, nofun, h.stamp⟩, .refl _⟩
  | @sendCents poll fetched =>
    refine ⟨⟨h.precise, fun hne => absurd rfl (hne poll), ?_, nofun, h.stamp⟩, .refl _⟩
    intro poll' hpoll
    cases hpoll
    rfl
  | @sendPrecise poll sent =>
    have hlatest := latest_append fp vsCurrency m.log ⟨poll, none⟩
    refine ⟨⟨hlatest.symm, fun _ => ?_, nofun, ?_, h.stamp.append poll⟩, grows_append _ _⟩
    · exact (h.ahead poll sent).trans (congrArg (toCents fp) hlatest.symm)
    · intro poll' hpoll
      cases hpoll
      exact ⟨m.log, rfl⟩
  | @stamp poll now sent clock =>
    obtain ⟨earlier, hlog⟩ := h.pending poll sent
    have hlog' : m.log.dropLast = earlier := by rw [hlog, List.dropLast_concat]
    have hlatest : latest fp vsCurrency (earlier ++ [⟨poll, some now⟩]) =
        latest fp vsCurrency m.log := by
      rw [hlog, latest_append, latest_append]
    refine ⟨⟨?_, fun _ => ?_, nofun, nofun, ?_⟩, ?_⟩
    · exact h.precise.trans (hlog' ▸ hlatest.symm)
    · exact (hkept _ sent nofun).trans (congrArg (toCents fp) (hlog' ▸ hlatest.symm))
    · exact lastStamp_stamped ..
    · show Grows m.log (m.log.dropLast ++ [⟨poll, some now⟩])
      rw [hlog', hlog]
      exact grows_stamp earlier poll (some now)
  | noStamp sent clock =>
    exact ⟨⟨h.precise, fun _ => hkept _ sent nofun, nofun, nofun, h.stamp⟩, .refl _⟩
  | others symbols table dbUp swap stats clock =>
    exact ⟨⟨h.precise, h.cents, h.ahead, h.pending, h.stamp⟩, .refl _⟩

end Market

end PswapSolver
