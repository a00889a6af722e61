import PswapSolver.PriceApi

/-! # What the price API serves

What an answer says was true of some world between the request and the answer, but not all of it
of the same one: the feed and the others go on between two reads of a handler.  This module says
what that comes to.

A price is that of a poll not older than the last one when the request came, and not older than
the poll whose time is given as `as_of`.  So a price can be younger than it claims to be, never
older.  The two prices behind a verdict of `swap-eta` are from one poll; those of one batch answer
need not be.  What is left out of a batch was not available at some time during the request, and
every error has its reason.
-/
namespace PswapSolver
open Runs Readers Codecs
variable {F ε : Type}

namespace PriceApi
open Market Timeline

/-! ## The specification -/

section
variable (api : PriceApi F) (codec : Codec ε TokenId) (since t : Timeline (Market F))

/-- `asOf` is the time of a poll up to the `j`-th, not older than the last time that was written
when the request came; or no time was written by then. -/
def TimeOf (asOf j : Nat) : Prop :=
  (asOf = 0 ∧ ∀ (k : Nat) (z : Published F), since.now.log[k]? = some z → z.stamp = none) ∨
  ∃ (i : Nat) (y : Published F), i ≤ j ∧ t.now.log[i]? = some y ∧ y.stamp = some asOf ∧
    ∀ (k : Nat) (z : Published F), since.now.log[k]? = some z → z.stamp ≠ none → k ≤ i

/-- The `j`-th poll, which is not older than the last one when the request came. -/
def PolledAt (j : Nat) (poll : Poll F) : Prop :=
  since.now.log.length ≤ j + 1 ∧ ∃ x : Published F, t.now.log[j]? = some x ∧ x.poll = poll

/-- `stale` is right for some time during the request. -/
def Judged (asOf : Nat) (stale : Bool) : Prop :=
  ∃ w, During since t w ∧ stale = api.isStale asOf w.nowSecs

/-- The token is registered with this row at some time during the request. -/
def Registered (token : TokenId) (row : TokenRow) : Prop :=
  ∃ w, During since t w ∧ w.fetchTokenRow (codec.write token) = .ok (some row)

/-- **A quote**: the row of a registered token, and its price in a poll that is not older than the
time says. -/
def Quoted (precision : PricePrecision) (asOf : Nat) (stale : Bool) (token : TokenId)
    (r : PriceResponse) : Prop :=
  ∃ row usd j poll, r = api.respond token row usd precision asOf stale ∧
    Registered codec since t token row ∧ PolledAt since t j poll ∧
    poll.priceOf api.floats api.vsCurrency token = some usd ∧ TimeOf since t asOf j

/-- Why a token is not registered. -/
inductive Unregistered (token : TokenId) : ApiError → Prop
  | internal {w : Market F} (during : During since t w) (down : w.dbUp = false) :
      Unregistered token .internal
  | unknownFaucet {w : Market F} (during : During since t w)
      (missing : w.table.lookup (codec.write token) = none) : Unregistered token .unknownFaucet

/-- Why there is no quote for a token. -/
inductive Unquoted (token : TokenId) : ApiError → Prop
  | unregistered {e : ApiError} (h : Unregistered codec since t token e) : Unquoted token e
  | noPrice {w : Market F} (during : During since t w)
      (unpriced : (latest api.floats api.vsCurrency w.log).lookup token = none) :
      Unquoted token .noPrice

/-- The prices of two tokens come from one poll, which is recent; or there are none. -/
inductive OracleSnapshot (a b : TokenId) : Option F × Option F → Prop
  | stale {asOf : Nat} (judged : Judged api since t asOf true) : OracleSnapshot a b (none, none)
  | unpolled (unpolled : since.now.log = []) : OracleSnapshot a b (none, none)
  | poll {asOf j : Nat} {poll : Poll F} (judged : Judged api since t asOf false)
      (time : TimeOf since t asOf j) (polled : PolledAt since t j poll) :
      OracleSnapshot a b (poll.priceOf api.floats api.vsCurrency a,
        poll.priceOf api.floats api.vsCurrency b)

/-- **What an answer means**, given when the request came and when it is answered. -/
inductive Justified : PriceRequest → Except ApiError PriceAnswer → Prop
  | badPrecision {rq : PriceRequest} {q : Query} {e : ApiError} (query : rq.priceQuery = some q)
      (bad : api.resolvePrecision q = .error e) : Justified rq (.error e)
  | stale {rq : PriceRequest} {q : Query} {asOf j : Nat} (query : rq.priceQuery = some q)
      (refused : wantsStale q = false) (time : TimeOf since t asOf j)
      (judged : Judged api since t asOf true) : Justified rq (.error (.stale asOf))
  | badFaucetId {faucetId e : String} {q : Query} (bad : api.fromHex faucetId = .error e) :
      Justified (.price faucetId q) (.error (.badFaucetId e))
  | unquoted {faucetId : String} {q : Query} {token : TokenId} {e : ApiError}
      (faucet : api.fromHex faucetId = .ok token) (why : Unquoted api codec since t token e) :
      Justified (.price faucetId q) (.error e)
  | price {faucetId : String} {q : Query} {token : TokenId} {precision : PricePrecision}
      {asOf : Nat} {stale : Bool} {r : PriceResponse} (faucet : api.fromHex faucetId = .ok token)
      (format : api.resolvePrecision q = .ok precision) (judged : Judged api since t asOf stale)
      (allowed : stale = true → wantsStale q = true)
      (quoted : Quoted api codec since t precision asOf stale token r) :
      Justified (.price faucetId q) (.ok (.price r))
  | batchTooLarge {q : Query} (large : api.maxBatch < (batchIds q).length) :
      Justified (.prices q) (.error (.batchTooLarge api.maxBatch))
  | prices {q : Query} {precision : PricePrecision} {asOf : Nat} {stale : Bool}
      {out : FiniteMap String PriceResponse} (format : api.resolvePrecision q = .ok precision)
      (judged : Judged api since t asOf stale) (allowed : stale = true → wantsStale q = true)
      (quoted : ∀ hex r, out.lookup hex = some r → ∃ id ∈ batchIds q, ∃ token,
        api.fromHex id = .ok token ∧ hex = api.toHex token ∧
        Quoted api codec since t precision asOf stale token r)
      (complete : ∀ id ∈ batchIds q, ∀ token, api.fromHex id = .ok token →
        api.toHex token ∈ out ∨ ∃ e, Unquoted api codec since t token e)
      (size : out.keys.card ≤ api.maxBatch) : Justified (.prices q) (.ok (.prices out))
  | badQuery {q : Query} {e : ApiError} (bad : api.parseSwap q = .error e) :
      Justified (.swapEta q) (.error e)
  | unregistered {q : Query} {order : SwapQuery} {token : TokenId} {e : ApiError}
      (parsed : api.parseSwap q = .ok order)
      (which : token = order.offeredFaucet ∨ token = order.requestedFaucet)
      (why : Unregistered codec since t token e) : Justified (.swapEta q) (.error e)
  | swapEta {q : Query} {order : SwapQuery} {rowA rowB : TokenRow} {usd : Option F × Option F}
      {book clock stats : Market F} (parsed : api.parseSwap q = .ok order)
      (offered : Registered codec since t order.offeredFaucet rowA)
      (requested : Registered codec since t order.requestedFaucet rowB)
      (inBook : During since t book) (inClock : During since t clock)
      (inStats : During since t stats)
      (oracle : OracleSnapshot api since t order.offeredFaucet order.requestedFaucet usd) :
      Justified (.swapEta q) (.ok (.swapEta (api.respondSwap order rowA rowB
        (book.swap.lookup (order.requestedFaucet, order.offeredFaucet)) usd
        (stats.stats.medianSecs (order.offeredFaucet, order.requestedFaucet) clock.nowSecs))))

end

/-! ## Reads of the shared state -/

section
variable {api : PriceApi F} {codec : Codec ε TokenId} {since t t' : Timeline (Market F)}
  {m₀ : Market F} {asOf j : Nat}

/-- The worlds of a run. -/
abbrev Valid (api : PriceApi F) (m₀ : Market F) : Timeline (Market F) → Prop :=
  Timeline.Valid (Market.Step api.floats api.vsCurrency) m₀

/-- What is true of the answer of a handler, whatever the others do. -/
abbrev Ensures {R : Type} (api : PriceApi F) (m₀ : Market F)
    (Q : Timeline (Market F) → R → Prop) (t : Timeline (Market F))
    (p : Prog (Observed F) R) : Prop :=
  Holds (Valid api m₀) Later Market.observe Q t p

theorem coherent (h₀ : m₀.Coherent api.floats api.vsCurrency) (ht : Valid api m₀ t) :
    t.now.Coherent api.floats api.vsCurrency :=
  ht.invariant h₀ fun _ _ h hstep => (h.step hstep).1

theorem grows (h₀ : m₀.Coherent api.floats api.vsCurrency) (ht : Valid api m₀ t')
    (hlater : Later t t') : Grows t.now.log t'.now.log := by
  refine ht.related (G := fun m m' => Grows m.log m'.log) hlater h₀
    (fun _ _ h hstep => h.step hstep) (fun m => .refl m.log) ?_
  intro a b c hab hbc
  exact hab.trans hbc

theorem TimeOf.mono (h₀ : m₀.Coherent api.floats api.vsCurrency) (ht : Valid api m₀ t')
    (hlater : Later t t') {j' : Nat} (hj : j ≤ j') (h : TimeOf since t asOf j) :
    TimeOf since t' asOf j' := by
  rcases h with hnone | ⟨i, y, hi, hy, hstamp, hlast⟩
  · exact .inl hnone
  · obtain ⟨z, hz, -, hz' | hz'⟩ := grows h₀ ht hlater i y hy
    · rw [hstamp] at hz'
      cases hz'
    · exact .inr ⟨i, z, hi.trans hj, hz, hz'.trans hstamp, hlast⟩

theorem PolledAt.mono (h₀ : m₀.Coherent api.floats api.vsCurrency) (ht : Valid api m₀ t')
    (hlater : Later t t') {poll : Poll F} (h : PolledAt since t j poll) :
    PolledAt since t' j poll := by
  obtain ⟨hj, x, hx, hpoll⟩ := h
  obtain ⟨y, hy, hpoll', -⟩ := grows h₀ ht hlater j x hx
  exact ⟨hj, y, hy, hpoll'.trans hpoll⟩

theorem Judged.mono {stale : Bool} (h : Judged api since t asOf stale) (hlater : Later t t') :
    Judged api since t' asOf stale := by
  obtain ⟨w, hw, heq⟩ := h
  exact ⟨w, hw.mono hlater, heq⟩

theorem Quoted.mono (h₀ : m₀.Coherent api.floats api.vsCurrency) (ht : Valid api m₀ t')
    (hlater : Later t t') {precision : PricePrecision} {stale : Bool} {token : TokenId}
    {r : PriceResponse} (h : Quoted api codec since t precision asOf stale token r) :
    Quoted api codec since t' precision asOf stale token r := by
  obtain ⟨row, usd, j, poll, hr, ⟨w, hw, hrow⟩, hpolled, hprice, htime⟩ := h
  exact ⟨row, usd, j, poll, hr, ⟨w, hw.mono hlater, hrow⟩, hpolled.mono h₀ ht hlater, hprice,
    htime.mono h₀ ht hlater (Nat.le_refl j)⟩

theorem Unregistered.mono (hlater : Later t t') {token : TokenId} {e : ApiError}
    (h : Unregistered codec since t token e) : Unregistered codec since t' token e := by
  cases h with
  | internal during down => exact .internal (during.mono hlater) down
  | unknownFaucet during missing => exact .unknownFaucet (during.mono hlater) missing

theorem Unquoted.mono (hlater : Later t t') {token : TokenId} {e : ApiError}
    (h : Unquoted api codec since t token e) : Unquoted api codec since t' token e := by
  cases h with
  | unregistered h => exact .unregistered (h.mono hlater)
  | noPrice during unpriced => exact .noPrice (during.mono hlater) unpriced

/-- **Reading the time of the last update.** -/
theorem timeOf_lastPriceUpdate (h₀ : m₀.Coherent api.floats api.vsCurrency)
    (ht : Valid api m₀ t) (hsince : Later since t) :
    TimeOf since t t.now.lastPriceUpdate (t.now.log.length - 1) := by
  have hgrows := grows h₀ ht hsince
  rcases (coherent h₀ ht).stamp with ⟨hzero, hnone⟩ | ⟨i, x, hx, hstamp, hlast⟩
  · refine .inl ⟨hzero, fun k z hz => ?_⟩
    obtain ⟨y, hy, -, hz' | hy'⟩ := hgrows k z hz
    · exact hz'
    · rw [← hy', hnone k y hy]
  · obtain ⟨hi, -⟩ := List.getElem?_eq_some_iff.mp hx
    refine .inr ⟨i, x, by omega, hx, hstamp, fun k z hz hne => ?_⟩
    by_contra hki
    obtain ⟨y, hy, -, hz' | hy'⟩ := hgrows k z hz
    · exact hne hz'
    · exact hne (hy'.symm.trans (hlast k y (Nat.lt_of_not_le hki) hy))

/-- **Reading the prices**: they are those of the last poll, if there is one. -/
theorem polledAt_precise (h₀ : m₀.Coherent api.floats api.vsCurrency) (ht : Valid api m₀ t)
    (hsince : Later since t) (hlog : t.now.log ≠ []) :
    ∃ poll, PolledAt since t (t.now.log.length - 1) poll ∧
      ∀ token, t.now.precise.lookup token = poll.priceOf api.floats api.vsCurrency token := by
  obtain ⟨earlier, x, hx⟩ := (List.eq_nil_or_concat' t.now.log).resolve_left hlog
  have hprecise := (coherent h₀ ht).precise
  have hlength := (grows h₀ ht hsince).length_le
  rw [hx] at hprecise hlength
  rw [latest_append] at hprecise
  refine ⟨x.poll, ⟨?_, x, ?_, rfl⟩, fun token => ?_⟩
  · rw [hx]
    simp only [List.length_append, List.length_singleton] at hlength ⊢
    omega
  · rw [hx]
    simp
  · rw [hprecise, Poll.lookup_prices]

theorem precise_eq_empty (h₀ : m₀.Coherent api.floats api.vsCurrency) (ht : Valid api m₀ t)
    (hlog : t.now.log = []) : t.now.precise = ∅ := by
  rw [(coherent h₀ ht).precise, hlog]
  rfl

/-! ## The handlers -/

/-- The time of the last update, and its judgement: what is known of them from then on. -/
theorem ensures_staleness (h₀ : m₀.Coherent api.floats api.vsCurrency) (hsince : Later since t)
    {R : Type} {f : Nat × Bool → Handler F R} {Q : Timeline (Market F) → Except ApiError R → Prop}
    (hf : ∀ t₁ asOf stale, Later t t₁ → Valid api m₀ t₁ →
      (∀ t₂, Later t₁ t₂ → Valid api m₀ t₂ →
        TimeOf since t₂ asOf (t₂.now.log.length - 1) ∧ Judged api since t₂ asOf stale) →
      Ensures api m₀ Q t₁ (f (asOf, stale)).run) :
    Ensures api m₀ Q t (api.staleness >>= f).run := by
  intro t₁ h₁ hv₁ t₂ h₂ hv₂
  have hsince₁ := Timeline.order.trans hsince h₁
  refine hf t₂ t₁.now.lastPriceUpdate _ (Timeline.order.trans h₁ h₂) hv₂ fun t₃ h₃ hv₃ => ?_
  have h₁₃ := Timeline.order.trans h₂ h₃
  have hlength := (grows h₀ hv₃ h₁₃).length_le
  refine ⟨?_, t₂.now, during_now (Timeline.order.trans hsince₁ h₂) h₃, rfl⟩
  exact (timeOf_lastPriceUpdate h₀ hv₁ hsince₁).mono h₀ hv₃ h₁₃ (Nat.sub_le_sub_right hlength 1)

/-- The row of a token, or why there is none. -/
theorem ensures_registeredRow (hsince : Later since t) (token : TokenId) :
    Ensures api m₀ (fun t r => match r with
      | .ok row => Registered codec since t token row
      | .error e => Unregistered codec since t token e) t (registeredRow codec token).run := by
  refine Holds.reads _ fun t₁ h₁ hv₁ => ?_
  have hsince₁ := Timeline.order.trans hsince h₁
  have hobserve : Market.observe (.tokenRow (codec.write token)) t₁ =
      t₁.now.fetchTokenRow (codec.write token) := rfl
  cases hup : t₁.now.dbUp with
  | false =>
    rw [hobserve, Market.fetchTokenRow, hup]
    exact fun t₂ h₂ _ => .internal (during_now hsince₁ h₂) hup
  | true =>
    cases hrow : t₁.now.table.lookup (codec.write token) with
    | none =>
      rw [hobserve, Market.fetchTokenRow, hup, if_pos rfl, hrow]
      exact fun t₂ h₂ _ => .unknownFaucet (during_now hsince₁ h₂) hrow
    | some row =>
      have hfetch : t₁.now.fetchTokenRow (codec.write token) = .ok (some row) := by
        rw [Market.fetchTokenRow, hup, if_pos rfl, hrow]
      rw [hobserve, hfetch]
      exact fun t₂ h₂ _ => ⟨t₁.now, during_now hsince₁ h₂, hfetch⟩

/-- **One quote**, or why there is none. -/
theorem ensures_quoteOne (h₀ : m₀.Coherent api.floats api.vsCurrency) (hsince : Later since t)
    (hv : Valid api m₀ t) (faucetHex : String) (precision : PricePrecision) (stale : Bool)
    (htime : TimeOf since t asOf (t.now.log.length - 1)) :
    Ensures api m₀ (fun t r => match r with
      | .ok r => ∃ token, api.fromHex faucetHex = .ok token ∧
          Quoted api codec since t precision asOf stale token r
      | .error e => (∃ m, api.fromHex faucetHex = .error m ∧ e = .badFaucetId m) ∨
          ∃ token, api.fromHex faucetHex = .ok token ∧ Unquoted api codec since t token e) t
      (api.quoteOne codec faucetHex precision asOf stale).run := by
  unfold quoteOne
  split
  · rename_i m hhex
    exact fun t₁ _ _ => .inl ⟨m, hhex, rfl⟩
  · rename_i token hhex
    refine (ensures_registeredRow hsince token).andThen Timeline.order hv ?_ ?_
    · intro t₁ row h₁ hv₁ hrow
      refine Holds.reads _ fun t₂ h₂ hv₂ => ?_
      have hsince₂ := Timeline.order.trans hsince (Timeline.order.trans h₁ h₂)
      have hobserve : Market.observe .precise t₂ = t₂.now.precise := rfl
      cases hprice : t₂.now.precise.lookup token with
      | none =>
        rw [hobserve]
        simp only [hprice]
        refine fun t₃ h₃ _ => .inr ⟨token, hhex, .noPrice (during_now hsince₂ h₃) ?_⟩
        rw [← (coherent h₀ hv₂).precise]
        exact hprice
      | some usd =>
        rw [hobserve]
        simp only [hprice]
        intro t₃ h₃ hv₃
        have hlog : t₂.now.log ≠ [] := by
          intro hlog
          rw [precise_eq_empty h₀ hv₂ hlog, Finmap.lookup_empty] at hprice
          cases hprice
        obtain ⟨poll, hpolled, hprices⟩ := polledAt_precise h₀ hv₂ hsince₂ hlog
        have h₀₂ := Timeline.order.trans h₁ h₂
        have hlength := (grows h₀ hv₂ h₀₂).length_le
        refine ⟨token, hhex, row, usd, t₂.now.log.length - 1, poll, rfl, ?_, ?_, ?_, ?_⟩
        · exact hrow t₃ (Timeline.order.trans h₂ h₃) hv₃
        · exact hpolled.mono h₀ hv₃ h₃
        · rw [← hprices, hprice]
        · exact htime.mono h₀ hv₃ (Timeline.order.trans h₀₂ h₃) (Nat.sub_le_sub_right hlength 1)
    · intro t₁ e h₁ hv₁ he
      exact .inr ⟨token, hhex, .unregistered he⟩

/-- A result that needs no read. -/
theorem ensures_ofExcept {R S : Type} {r : Except ApiError R} {f : R → Handler F S}
    {Q : Timeline (Market F) → Except ApiError S → Prop}
    (hok : ∀ x, r = .ok x → Ensures api m₀ Q t (f x).run)
    (herror : ∀ e, r = .error e → ∀ t', Q t' (.error e)) :
    Ensures api m₀ Q t (ofExcept r >>= f).run := by
  cases r with
  | ok x => exact hok x rfl
  | error e => exact fun t' _ _ => herror e rfl t'

/-- **The gate** of the requests for prices: what is quoted behind it is not stale, or it may be. -/
theorem ensures_unlessStale (h₀ : m₀.Coherent api.floats api.vsCurrency) (hsince : Later since t)
    (rq : PriceRequest) (q : Query) (hq : rq.priceQuery = some q)
    {f : Nat → Bool → Handler F PriceAnswer}
    (hf : ∀ t₁ asOf stale, Later t t₁ → Valid api m₀ t₁ →
      (∀ t₂, Later t₁ t₂ → Valid api m₀ t₂ →
        TimeOf since t₂ asOf (t₂.now.log.length - 1) ∧ Judged api since t₂ asOf stale) →
      (stale = true → wantsStale q = true) →
      Ensures api m₀ (fun t r => Justified api codec since t rq r) t₁ (f asOf stale).run) :
    Ensures api m₀ (fun t r => Justified api codec since t rq r) t (api.unlessStale q f).run := by
  refine ensures_staleness h₀ hsince fun t₁ asOf stale h₁ hv₁ hjudged => ?_
  cases stale with
  | false => exact hf t₁ asOf false h₁ hv₁ hjudged nofun
  | true =>
    cases hwants : wantsStale q with
    | false =>
      intro t₂ h₂ hv₂
      obtain ⟨htime, hstale⟩ := hjudged t₂ h₂ hv₂
      exact .stale hq hwants htime hstale
    | true => exact hf t₁ asOf true h₁ hv₁ hjudged fun _ => hwants

theorem ensures_getPrice (h₀ : m₀.Coherent api.floats api.vsCurrency) (hsince : Later since t)
    (faucetId : String) (q : Query) :
    Ensures api m₀ (fun t r => Justified api codec since t (.price faucetId q) r) t
      (api.getPrice codec faucetId q).run := by
  refine ensures_ofExcept (fun precision hprecision => ?_) fun e he _ => .badPrecision rfl he
  refine ensures_unlessStale h₀ hsince (.price faucetId q) q rfl
    fun t₁ asOf stale h₁ hv₁ hjudged hallowed => ?_
  have htime := (hjudged t₁ (Timeline.order.refl t₁) hv₁).1
  refine (ensures_quoteOne h₀ (Timeline.order.trans hsince h₁) hv₁ faucetId precision stale
    htime).andThen Timeline.order hv₁ ?_ ?_
  · intro t₂ r h₂ hv₂ hquoted t₃ h₃ hv₃
    obtain ⟨token, hhex, hquoted⟩ := hquoted t₃ h₃ hv₃
    have hstale := (hjudged t₃ (Timeline.order.trans h₂ h₃) hv₃).2
    exact .price hhex hprecision hstale hallowed hquoted
  · rintro t₂ e h₂ hv₂ (⟨m, hhex, rfl⟩ | ⟨token, hhex, hwhy⟩)
    · exact .badFaucetId hhex
    · exact .unquoted hhex hwhy

/-- What is true of the answer to a part of a batch. -/
structure Batch (api : PriceApi F) (codec : Codec ε TokenId) (since : Timeline (Market F))
    (precision : PricePrecision) (asOf : Nat) (stale : Bool) (done : List String)
    (t : Timeline (Market F)) (out : FiniteMap String PriceResponse) : Prop where
  time : TimeOf since t asOf (t.now.log.length - 1)
  later : Later since t
  quoted : ∀ hex r, out.lookup hex = some r → ∃ id ∈ done, ∃ token,
    api.fromHex id = .ok token ∧ hex = api.toHex token ∧
    Quoted api codec since t precision asOf stale token r
  complete : ∀ id ∈ done, ∀ token, api.fromHex id = .ok token →
    api.toHex token ∈ out ∨ ∃ e, Unquoted api codec since t token e
  size : out.keys.card ≤ done.length

theorem Batch.mono (h₀ : m₀.Coherent api.floats api.vsCurrency) (ht : Valid api m₀ t')
    (hlater : Later t t') {precision : PricePrecision} {stale : Bool} {done : List String}
    {out : FiniteMap String PriceResponse}
    (h : Batch api codec since precision asOf stale done t out) :
    Batch api codec since precision asOf stale done t' out := by
  have hlength := (grows h₀ ht hlater).length_le
  refine ⟨h.time.mono h₀ ht hlater (Nat.sub_le_sub_right hlength 1),
    Timeline.order.trans h.later hlater, fun hex r hr => ?_, fun id hid token hhex => ?_, h.size⟩
  · obtain ⟨id, hid, token, hhex, heq, hquoted⟩ := h.quoted hex r hr
    exact ⟨id, hid, token, hhex, heq, hquoted.mono h₀ ht hlater⟩
  · rcases h.complete id hid token hhex with hmem | ⟨e, hwhy⟩
    · exact .inl hmem
    · exact .inr ⟨e, hwhy.mono hlater⟩

/-- A turn that quotes. -/
theorem Batch.insert {precision : PricePrecision} {stale : Bool} {done : List String} {id : String}
    {token : TokenId} {r : PriceResponse} {out : FiniteMap String PriceResponse}
    (h : Batch api codec since precision asOf stale done t out) (hhex : api.fromHex id = .ok token)
    (hquoted : Quoted api codec since t precision asOf stale token r) :
    Batch api codec since precision asOf stale (done ++ [id]) t (out.insert r.faucetId r) := by
  have hfaucet : r.faucetId = api.toHex token := by
    obtain ⟨row, usd, j, poll, rfl, -⟩ := hquoted
    rfl
  refine ⟨h.time, h.later, fun hex r' hr' => ?_, fun id' hid' token' hhex' => ?_, ?_⟩
  · rw [FiniteMap.lookup_insert_if] at hr'
    split at hr'
    · rename_i heq
      cases hr'
      exact ⟨id, List.mem_append_right _ (List.mem_singleton_self id), token, hhex,
        heq.trans hfaucet, hquoted⟩
    · obtain ⟨id', hid', hrest⟩ := h.quoted hex r' hr'
      exact ⟨id', List.mem_append_left _ hid', hrest⟩
  · rcases List.mem_append.mp hid' with hold | hnew
    · rcases h.complete id' hold token' hhex' with hmem | hwhy
      · exact .inl (Finmap.mem_insert.mpr (.inr hmem))
      · exact .inr hwhy
    · obtain rfl := List.mem_singleton.mp hnew
      obtain rfl : token = token' := by simpa using hhex.symm.trans hhex'
      exact .inl (Finmap.mem_insert.mpr (.inl hfaucet.symm))
  · rw [FiniteMap.keys_insert, List.length_append, List.length_singleton]
    exact (Finset.card_insert_le _ _).trans (Nat.succ_le_succ h.size)

/-- A turn that does not. -/
theorem Batch.leaveOut {precision : PricePrecision} {stale : Bool} {done : List String}
    {id : String} {out : FiniteMap String PriceResponse}
    (h : Batch api codec since precision asOf stale done t out)
    (hwhy : ∀ token, api.fromHex id = .ok token → ∃ e, Unquoted api codec since t token e) :
    Batch api codec since precision asOf stale (done ++ [id]) t out := by
  refine ⟨h.time, h.later, fun hex r hr => ?_, fun id' hid' token hhex => ?_, ?_⟩
  · obtain ⟨id', hid', hrest⟩ := h.quoted hex r hr
    exact ⟨id', List.mem_append_left _ hid', hrest⟩
  · rcases List.mem_append.mp hid' with hold | hnew
    · exact h.complete id' hold token hhex
    · obtain rfl := List.mem_singleton.mp hnew
      exact .inr (hwhy token hhex)
  · rw [List.length_append]
    exact Nat.le_add_right_of_le h.size

/-- **One turn** of the loop over a batch. -/
theorem ensures_quoteNext (h₀ : m₀.Coherent api.floats api.vsCurrency) (hv : Valid api m₀ t)
    {precision : PricePrecision} {stale : Bool} {done : List String}
    {out : FiniteMap String PriceResponse}
    (h : Batch api codec since precision asOf stale done t out) (id : String) :
    Ensures api m₀ (Batch api codec since precision asOf stale (done ++ [id])) t
      (api.quoteNext codec precision asOf stale out id) := by
  refine (ensures_quoteOne h₀ h.later hv id precision stale h.time).bind Timeline.order hv ?_
  intro t₁ r h₁ hv₁ hr
  cases r with
  | ok r =>
    intro t₂ h₂ hv₂
    obtain ⟨token, hhex, hquoted⟩ := hr t₂ h₂ hv₂
    exact (h.mono h₀ hv₂ (Timeline.order.trans h₁ h₂)).insert hhex hquoted
  | error e =>
    intro t₂ h₂ hv₂
    refine (h.mono h₀ hv₂ (Timeline.order.trans h₁ h₂)).leaveOut fun token hhex => ?_
    rcases hr t₂ h₂ hv₂ with ⟨m, hbad, -⟩ | ⟨token', hhex', hwhy⟩
    · rw [hhex] at hbad
      cases hbad
    · obtain rfl : token = token' := by simpa using hhex.symm.trans hhex'
      exact ⟨e, hwhy⟩

theorem ensures_getPrices (h₀ : m₀.Coherent api.floats api.vsCurrency) (hsince : Later since t)
    (q : Query) :
    Ensures api m₀ (fun t r => Justified api codec since t (.prices q) r) t
      (api.getPrices codec q).run := by
  unfold getPrices
  by_cases hlarge : api.maxBatch < (batchIds q).length
  · simp only [hlarge, if_true]
    exact fun t₁ _ _ => .batchTooLarge hlarge
  · simp only [hlarge, if_false]
    refine ensures_ofExcept (fun precision hprecision => ?_) fun e he _ => .badPrecision rfl he
    refine ensures_unlessStale h₀ hsince (.prices q) q rfl
      fun t₁ asOf stale h₁ hv₁ hjudged hallowed => ?_
    have htime := (hjudged t₁ (Timeline.order.refl t₁) hv₁).1
    have hempty : Batch api codec since precision asOf stale [] t₁ ∅ :=
      ⟨htime, Timeline.order.trans hsince h₁, fun hex r hr => by simp at hr, nofun, by simp⟩
    have hloop : Ensures api m₀ (Batch api codec since precision asOf stale (batchIds q)) t₁
        ((batchIds q).foldlM (api.quoteNext codec precision asOf stale) ∅) :=
      holds_foldlM (J := Batch api codec since precision asOf stale) Timeline.order
        (fun done id t out hv h => ensures_quoteNext h₀ hv h id)
        (fun done out t t' hlater ht h => h.mono h₀ ht hlater) (batchIds q) [] ∅ t₁ hv₁ hempty
    refine hloop.lifts Timeline.order hv₁ fun t₂ out h₂ hv₂ hout => ?_
    intro t₃ h₃ hv₃
    have hbatch := hout t₃ h₃ hv₃
    have hstale := (hjudged t₃ (Timeline.order.trans h₂ h₃) hv₃).2
    exact .prices hprecision hstale hallowed hbatch.quoted hbatch.complete
      (hbatch.size.trans (Nat.le_of_not_lt hlarge))

/-- The prices behind a verdict. -/
theorem ensures_oraclePrices (h₀ : m₀.Coherent api.floats api.vsCurrency) (hsince : Later since t)
    (a b : TokenId) :
    Ensures api m₀ (fun t r => ∃ usd, r = .ok usd ∧ OracleSnapshot api since t a b usd) t
      (api.oraclePrices a b).run := by
  refine ensures_staleness h₀ hsince fun t₁ asOf stale h₁ hv₁ hjudged => ?_
  cases stale with
  | true => exact fun t₂ h₂ hv₂ => ⟨_, rfl, .stale (hjudged t₂ h₂ hv₂).2⟩
  | false =>
    refine Holds.reads _ fun t₂ h₂ hv₂ t₃ h₃ hv₃ => ⟨_, rfl, ?_⟩
    have hobserve : Market.observe .precise t₂ = t₂.now.precise := rfl
    have hsince₂ := Timeline.order.trans hsince (Timeline.order.trans h₁ h₂)
    by_cases hlog : t₂.now.log = []
    · rw [hobserve, precise_eq_empty h₀ hv₂ hlog, Finmap.lookup_empty, Finmap.lookup_empty]
      have hlength := (grows h₀ hv₂ hsince₂).length_le
      rw [hlog] at hlength
      exact .unpolled (List.eq_nil_of_length_eq_zero (Nat.le_zero.mp hlength))
    · obtain ⟨poll, hpolled, hprices⟩ := polledAt_precise h₀ hv₂ hsince₂ hlog
      obtain ⟨htime, hfresh⟩ := hjudged t₂ h₂ hv₂
      rw [hobserve, hprices, hprices]
      exact .poll (hfresh.mono h₃) (htime.mono h₀ hv₃ h₃ (Nat.le_refl _)) (hpolled.mono h₀ hv₃ h₃)

theorem ensures_getSwapEta (h₀ : m₀.Coherent api.floats api.vsCurrency) (hsince : Later since t)
    (hv : Valid api m₀ t) (q : Query) :
    Ensures api m₀ (fun t r => Justified api codec since t (.swapEta q) r) t
      (api.getSwapEta codec q).run := by
  refine ensures_ofExcept (fun order horder => ?_) fun e he _ => .badQuery he
  refine (ensures_registeredRow hsince order.offeredFaucet).andThen Timeline.order hv ?_
    fun t₁ e h₁ hv₁ he => .unregistered horder (.inl rfl) he
  intro t₁ rowA h₁ hv₁ hrowA
  have hsince₁ := Timeline.order.trans hsince h₁
  refine (ensures_registeredRow hsince₁ order.requestedFaucet).andThen Timeline.order hv₁ ?_
    fun t₂ e h₂ hv₂ he => .unregistered horder (.inr rfl) he
  intro t₂ rowB h₂ hv₂ hrowB
  have hsince₂ := Timeline.order.trans hsince₁ h₂
  refine Holds.reads _ fun t₃ h₃ hv₃ => ?_
  have hsince₃ := Timeline.order.trans hsince₂ h₃
  refine (ensures_oraclePrices h₀ hsince₃ order.offeredFaucet
    order.requestedFaucet).andThen Timeline.order hv₃ ?_ ?_
  · intro t₄ usd h₄ hv₄ husd
    have hsince₄ := Timeline.order.trans hsince₃ h₄
    refine Holds.reads _ fun t₅ h₅ hv₅ => Holds.reads _ fun t₆ h₆ hv₆ t₇ h₇ hv₇ => ?_
    have h₅₇ := Timeline.order.trans h₆ h₇
    have h₄₇ := Timeline.order.trans h₅ h₅₇
    have h₃₇ := Timeline.order.trans h₄ h₄₇
    have h₂₇ := Timeline.order.trans h₃ h₃₇
    have hsince₅ := Timeline.order.trans hsince₄ h₅
    obtain ⟨_, heq, horacle⟩ := husd t₇ h₄₇ hv₇
    cases heq
    exact .swapEta horder (hrowA t₇ (Timeline.order.trans h₂ h₂₇) hv₇) (hrowB t₇ h₂₇ hv₇)
      (during_now hsince₃ h₃₇) (during_now hsince₅ h₅₇)
      (during_now (Timeline.order.trans hsince₅ h₆) h₇) horacle
  · rintro t₄ e h₄ hv₄ ⟨_, heq, -⟩
    cases heq

theorem ensures_handle (h₀ : m₀.Coherent api.floats api.vsCurrency) (hv : Valid api m₀ t)
    (rq : PriceRequest) :
    Ensures api m₀ (fun t' r => Justified api codec t t' rq r) t (api.handle codec rq) := by
  have hrefl := Timeline.order.refl t
  cases rq with
  | price faucetId q => exact ensures_getPrice h₀ hrefl faucetId q
  | prices q => exact ensures_getPrices h₀ hrefl q
  | swapEta q => exact ensures_getSwapEta h₀ hrefl hv q

end

end PriceApi

/-- **What the price API serves.**  In every interleaving of the feed, of those who write what it
reads, and of its requests: no more handlers run than there are permits, what is published is
what the polls brought, and every answer is justified by what was published between the request
and the answer. -/
theorem served_prices (api : PriceApi F) (codec : Codec ε TokenId) (symbols : TokenMap)
    (table : TokenTable) (clock : Option Nat)
    {history : List (Responder (Timeline (Market F)) PriceRequest (Observed F)
        (Except ApiError PriceAnswer) ×
      ResponderEvent (Timeline (Market F)) PriceRequest (Except ApiError PriceAnswer))}
    {s : Responder (Timeline (Market F)) PriceRequest (Observed F) (Except ApiError PriceAnswer)}
    (hrun : Run (api.ApiStep codec) unguarded ⟨⟨.boot symbols table clock, []⟩, []⟩ history s) :
    s.running.length ≤ max api.maxInflight 1 ∧
    s.world.now.Coherent api.floats api.vsCurrency ∧
    ∀ x ∈ history, ∀ rq since answer, x.2 = .finish rq since answer →
      Timeline.Later since x.1.world ∧ api.Justified codec since x.1.world rq answer := by
  have h₀ := Market.coherent_boot api.floats api.vsCurrency symbols table clock
  have hcorrect : Responder.Correct (api.Valid (.boot symbols table clock)) Timeline.Later
      (Timeline.Change (Market.Step api.floats api.vsCurrency)) Market.observe (api.handle codec)
      fun rq since t answer => api.Justified codec since t rq answer :=
    ⟨Timeline.order, fun h hchange => h.change hchange,
      fun rq t ht => PriceApi.ensures_handle h₀ ht rq⟩
  obtain ⟨hsound, hanswers⟩ := Responder.answers hcorrect .start hrun
  exact ⟨hsound.limit, PriceApi.coherent h₀ hsound.world, fun x hx => (hanswers x hx).2⟩

/-- An API with whole prices and one token. -/
def plainApi : PriceApi Nat where
  floats := { centPrices with usable := fun _ => true }
  formatPrice usd _ := toString usd
  fromHex s := if s = "0x1" then .ok 1 else .error "no token"
  toHex token := toString token
  debug s := s
  vsCurrency := "usd"
  defaultPrecision := .full
  stalenessSecs := 60
  maxBatch := 10
  maxInflight := 1
  swapEtaSecs := 10
  swapOffmarketTolBps := 50

def oneSymbol : TokenMap := Finmap.insert 1 "usd-coin" ∅

def oneToken : TokenTable :=
  Finmap.insert ((Codec.nat ()).write 1) ⟨some "usd-coin", some 6, none⟩ ∅

/-- The answer of the price service. -/
def serviceBody (usd : Nat) : FiniteMap String (FiniteMap String Nat) :=
  Finmap.insert "usd-coin" (Finmap.insert "usd" usd ∅) ∅

theorem mem_oneSymbol (token : TokenId) : token ∈ [1] ↔ token ∈ oneSymbol := by
  rw [oneSymbol, Finmap.mem_insert, List.mem_singleton]
  exact (or_iff_left Finmap.notMem_empty).symm

/-- A run in which the prices change after the time was read. -/
theorem youngPrice_run : ∃ history s,
    Run (plainApi.ApiStep (Codec.nat ())) unguarded
      ⟨⟨.boot oneSymbol oneToken (some 100), []⟩, []⟩ history s ∧
    ∃ x ∈ history, ∃ since r, x.2 = .finish (.price "0x1" ∅) since (.ok (.price r)) ∧
      r.price = "6" ∧ r.asOf = 100 := by
  have r₀ : Run (plainApi.ApiStep (Codec.nat ())) unguarded
      ⟨⟨.boot oneSymbol oneToken (some 100), []⟩, []⟩ [] _ := .start
  have r₁ := r₀.step trivial (.change ⟨_, .getTokens [1] rfl (by decide) mem_oneSymbol, rfl⟩)
  have r₂ := r₁.step trivial (.change ⟨_, .request rfl, rfl⟩)
  have r₃ := r₂.step trivial (.change ⟨_, .answer rfl (serviceBody 5), rfl⟩)
  have r₄ := r₃.step trivial (.change ⟨_, .sendCents rfl, rfl⟩)
  have r₅ := r₄.step trivial (.change ⟨_, .sendPrecise rfl, rfl⟩)
  have r₆ := r₅.step trivial (.change ⟨_, .stamp rfl rfl, rfl⟩)
  have r₇ := r₆.step trivial (.start (.price "0x1" ∅) (by decide))
  have r₈ := r₇.step trivial (@Responder.Step.read _ _ _ _ _ _ _ _ _ _ [] [] _ _ _ _ rfl)
  have r₉ := r₈.step trivial (@Responder.Step.read _ _ _ _ _ _ _ _ _ _ [] [] _ _ _ _ rfl)
  have p₁ := r₉.step trivial (.change ⟨_, .getTokens [1] rfl (by decide) mem_oneSymbol, rfl⟩)
  have p₂ := p₁.step trivial (.change ⟨_, .request rfl, rfl⟩)
  have p₃ := p₂.step trivial (.change ⟨_, .answer rfl (serviceBody 6), rfl⟩)
  have p₄ := p₃.step trivial (.change ⟨_, .sendCents rfl, rfl⟩)
  have p₅ := p₄.step trivial (.change ⟨_, .sendPrecise rfl, rfl⟩)
  have q₁ := p₅.step trivial (@Responder.Step.read _ _ _ _ _ _ _ _ _ _ [] [] _ _ _ _ rfl)
  have q₂ := q₁.step trivial (@Responder.Step.read _ _ _ _ _ _ _ _ _ _ [] [] _ _ _ _ rfl)
  have q₃ := q₂.step trivial (@Responder.Step.finish _ _ _ _ _ _ _ _ _ _ [] [] _ _ _ rfl)
  exact ⟨_, _, q₃, _, List.mem_append_right _ (List.mem_singleton_self _), _, _, rfl, rfl, rfl⟩

/-- The price of the second poll is served with the time of the first. -/
theorem price_younger_than_its_time : ∃ history s,
    Run (plainApi.ApiStep (Codec.nat ())) unguarded
      ⟨⟨.boot oneSymbol oneToken (some 100), []⟩, []⟩ history s ∧
    ∃ x ∈ history, ∃ since r, x.2 = .finish (.price "0x1" ∅) since (.ok (.price r)) ∧
      r.price = "6" ∧ r.asOf = 100 ∧
      plainApi.Justified (Codec.nat ()) since x.1.world (.price "0x1" ∅) (.ok (.price r)) := by
  obtain ⟨history, s, hrun, x, hx, since, r, hfinish, hprice, htime⟩ := youngPrice_run
  have hserved := served_prices plainApi (Codec.nat ()) oneSymbol oneToken (some 100) hrun
  exact ⟨history, s, hrun, x, hx, since, r, hfinish, hprice, htime,
    (hserved.2.2 x hx _ _ _ hfinish).2⟩

end PswapSolver
