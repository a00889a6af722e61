import Mathlib.Data.Nat.ModEq
import Mathlib.Tactic.Ring
import Mathlib.Tactic.Linarith

/-! # Orders and their integer arithmetic

The model of `matching/types.rs`.  An order offers `offered` units of one token
for `requested` units of another and can be filled in part; every amount is a
`u64`, every product is taken in `u128`, and the only narrowing cast is the one
in `calculateOutputAmount`.

An `Order` carries what the rest of the solver relies on: both totals are
positive and fit in a `u64` (`Order::from_note` refuses zero amounts), and no
more than the total is left to fill (`fill` caps at what remains).  Hence the
rates are positive rationals, `RateKey`'s cross-multiplied comparison is a total
preorder, and no cast on the way of a fill loses bits (`offeredFor_eq`).

The two facts the solvency arguments use are the **rounding law** of a fill made
in pieces (`offeredFor_add_le`, `offeredFor_le_add`) and the **adjunction**
between `offeredFor` and `minFillForRelease` (`minFillForRelease_le_iff`).
-/
namespace PswapSolver

/-- Faucet id of a token. -/
abbrev TokenId := Nat

/-- Note id of an order. -/
abbrev OrderId := Nat

/-- Connection id of an external DEX, assigned by the router. -/
abbrev DexId := Nat

/-- A directed pair, `(offered token, requested token)`. -/
abbrev Pair := TokenId × TokenId

/-- The largest `u64`. -/
def u64Max : Nat := 2 ^ 64 - 1

/-- The largest `u128`. -/
def u128Max : Nat := 2 ^ 128 - 1

/-- The cast `x as u64`. -/
def asU64 (x : Nat) : Nat := x % 2 ^ 64

theorem asU64_of_lt {x : Nat} (h : x < 2 ^ 64) : asU64 x = x := Nat.mod_eq_of_lt h

/-- How much of the offered asset a fill of the requested asset releases. -/
def calculateOutputAmount (offeredTotal requestedTotal fillAmount : Nat) : Nat :=
  asU64 (offeredTotal * fillAmount / requestedTotal)

/-! ## Rates -/

/-- The key orders are sorted by, the rate `requested / offered`. -/
structure RateKey where
  requested : Nat
  offered : Nat
  offered_pos : 0 < offered
deriving DecidableEq

/-- Rates compare by cross-multiplication. -/
instance : Ord RateKey :=
  ⟨fun a b => compare (a.requested * b.offered) (b.requested * a.offered)⟩

namespace RateKey

theorem compare_eq (a b : RateKey) :
    compare a b = compare (a.requested * b.offered) (b.requested * a.offered) := rfl

theorem isLE_iff (a b : RateKey) :
    (compare a b).isLE ↔ a.requested * b.offered ≤ b.requested * a.offered := by
  rw [compare_eq, Nat.isLE_compare]

instance : Std.OrientedOrd RateKey where
  eq_swap := by
    intro a b
    rw [compare_eq, compare_eq]
    exact Std.OrientedCmp.eq_swap

/-- **Rates are totally preordered.**  The middle rate's positive denominator
cancels from the two cross products. -/
instance : Std.TransOrd RateKey where
  isLE_trans := by
    intro a b c hab hbc
    rw [isLE_iff] at hab hbc ⊢
    refine Nat.le_of_mul_le_mul_right (c := b.offered) ?_ b.offered_pos
    calc a.requested * c.offered * b.offered
        = a.requested * b.offered * c.offered := by ring
      _ ≤ b.requested * a.offered * c.offered := Nat.mul_le_mul_right _ hab
      _ = b.requested * c.offered * a.offered := by ring
      _ ≤ c.requested * b.offered * a.offered := Nat.mul_le_mul_right _ hbc
      _ = c.requested * a.offered * b.offered := by ring

end RateKey

/-! ## Orders -/

/-- The terms a PSWAP note fixes: what is offered for what.  `Order::from_note`
refuses a note with a zero amount. -/
structure OrderTerms where
  offeredToken : TokenId
  requestedToken : TokenId
  offered : Nat
  requested : Nat
  offered_pos : 0 < offered
  requested_pos : 0 < requested
  offered_lt : offered < 2 ^ 64
  requested_lt : requested < 2 ^ 64
deriving DecidableEq

/-- A resting order.  Its terms never change; `requestedRemaining` is how much of
`requested` is still unfilled. -/
structure Order extends OrderTerms where
  id : OrderId
  requestedRemaining : Nat
  remaining_le : requestedRemaining ≤ requested
deriving DecidableEq

/-- Result of matching two orders. -/
structure MatchResult where
  surplusOffered : Nat
  surplusRequested : Nat
deriving DecidableEq

namespace Order
variable (o : Order)

/-- A new order, nothing of it filled. -/
def fresh (id : OrderId) (terms : OrderTerms) : Order :=
  { terms with
    id := id
    requestedRemaining := terms.requested
    remaining_le := Nat.le_refl _ }

/-- The directed pair the order is indexed under. -/
def pair : Pair := (o.offeredToken, o.requestedToken)

/-- Rate key of the order; it depends on the immutable totals only. -/
def rateKey : RateKey := ⟨o.requested, o.offered, o.offered_pos⟩

/-- Is this order still active? -/
def isActive : Bool := decide (0 < o.requestedRemaining)

/-- Is this order completely filled? -/
def isCompletelyFilled : Bool := decide (o.requestedRemaining = 0)

/-- How much of `requested` has been filled so far. -/
def requestedFilled : Nat := o.requested - o.requestedRemaining

/-- How much of the offered asset a requested fill would release. -/
def offeredFor (requestedFill : Nat) : Nat :=
  calculateOutputAmount o.offered o.requested requestedFill

/-- Ceiling inverse of `offeredFor`: the least requested fill that releases at
least `target`. -/
def minFillForRelease (target : Nat) : Nat :=
  if target = 0 then 0
  else if o.offered ≤ target then o.requested
  else
    let fill := min (asU64 (target * o.requested / o.offered)) o.requested
    -- The truncated quotient can miss the target by one unit.
    if target ≤ o.offeredFor fill then fill else min (fill + 1) o.requested

/-- How much of the offered asset can still be released. -/
def offeredRemaining : Nat := o.offeredFor o.requestedRemaining

/-- The order with `n` more units of its remaining amount filled. -/
def deduct (n : Nat) : Order :=
  { o with
    requestedRemaining := o.requestedRemaining - n
    remaining_le := Nat.le_trans (Nat.sub_le _ _) o.remaining_le }

/-- Fills some of the requested side; returns the offered amount released and the
order after the fill. -/
def fill (requestedFilled : Nat) : Nat × Order :=
  let requestedFilled := min requestedFilled o.requestedRemaining
  (o.offeredFor requestedFilled, o.deduct requestedFilled)

/-- Is matching this order against another order profitable? -/
def isProfitableWith (other : Order) : Bool :=
  decide (o.requested * other.requested < o.offered * other.offered)

/-- Matches `self` against a counter-order.  Returns the result together with both
orders as the call leaves them: an attempt that fails late has already filled the
caller's copies. -/
def matchWith (self other : Order) : Option MatchResult × Order × Order :=
  if !self.isActive || !other.isActive then (none, self, other)
  else if !self.isProfitableWith other then (none, self, other)
  else
    let selfSends := min self.offeredRemaining other.requestedRemaining
    if selfSends = 0 then (none, self, other)
    else
      -- `other` fills with what `self` sends.
      let (otherReleases, other) := other.fill selfSends
      if otherReleases = 0 then (none, self, other)
      else
        let selfReceives := min otherReleases self.requestedRemaining
        let (selfReleases, self) := self.fill selfReceives
        if selfReleases < selfSends then (none, self, other)
        else (some ⟨selfReleases - selfSends, otherReleases - selfReceives⟩, self, other)

/-! ### What a fill keeps -/

section Deduct
variable (n : Nat)

@[simp] theorem deduct_toOrderTerms : (o.deduct n).toOrderTerms = o.toOrderTerms := rfl
@[simp] theorem deduct_id : (o.deduct n).id = o.id := rfl
@[simp] theorem deduct_offeredToken : (o.deduct n).offeredToken = o.offeredToken := rfl
@[simp] theorem deduct_requestedToken : (o.deduct n).requestedToken = o.requestedToken := rfl
@[simp] theorem deduct_offered : (o.deduct n).offered = o.offered := rfl
@[simp] theorem deduct_requested : (o.deduct n).requested = o.requested := rfl
@[simp] theorem deduct_pair : (o.deduct n).pair = o.pair := rfl
@[simp] theorem deduct_rateKey : (o.deduct n).rateKey = o.rateKey := rfl
@[simp] theorem deduct_offeredFor (f : Nat) : (o.deduct n).offeredFor f = o.offeredFor f := rfl
@[simp] theorem deduct_requestedRemaining :
    (o.deduct n).requestedRemaining = o.requestedRemaining - n := rfl

end Deduct

theorem deduct_requestedFilled {n : Nat} (h : n ≤ o.requestedRemaining) :
    (o.deduct n).requestedFilled = o.requestedFilled + n := by
  have := o.remaining_le
  simp only [requestedFilled, deduct_requested, deduct_requestedRemaining]
  omega

theorem requestedFilled_le : o.requestedFilled ≤ o.requested := Nat.sub_le _ _

@[simp] theorem isActive_iff : o.isActive = true ↔ 0 < o.requestedRemaining := by
  simp [isActive]

theorem isActive_eq_false_iff : o.isActive = false ↔ o.requestedRemaining = 0 := by
  simp [isActive]

@[simp] theorem isCompletelyFilled_iff :
    o.isCompletelyFilled = true ↔ o.requestedRemaining = 0 := by
  simp [isCompletelyFilled]

theorem fill_of_le {n : Nat} (h : n ≤ o.requestedRemaining) :
    o.fill n = (o.offeredFor n, o.deduct n) := by
  rw [fill, Nat.min_eq_left h]

/-! ### The release of a fill -/

/-- Within the order's total, the release is the exact floor: the cast to `u64`
loses nothing. -/
theorem offeredFor_eq {f : Nat} (h : f ≤ o.requested) :
    o.offeredFor f = o.offered * f / o.requested := by
  refine asU64_of_lt (Nat.lt_of_le_of_lt ?_ o.offered_lt)
  exact Nat.div_le_of_le_mul (by rw [Nat.mul_comm]; exact Nat.mul_le_mul_right _ h)

@[simp] theorem offeredFor_zero : o.offeredFor 0 = 0 := by
  rw [o.offeredFor_eq (Nat.zero_le _), Nat.mul_zero, Nat.zero_div]

theorem offeredFor_mono {f g : Nat} (hfg : f ≤ g) (hg : g ≤ o.requested) :
    o.offeredFor f ≤ o.offeredFor g := by
  rw [o.offeredFor_eq (hfg.trans hg), o.offeredFor_eq hg]
  exact Nat.div_le_div_right (Nat.mul_le_mul_left _ hfg)

theorem offeredFor_requested : o.offeredFor o.requested = o.offered := by
  rw [o.offeredFor_eq (Nat.le_refl _), Nat.mul_div_cancel _ o.requested_pos]

theorem offeredFor_le_offered {f : Nat} (h : f ≤ o.requested) : o.offeredFor f ≤ o.offered := by
  have := o.offeredFor_mono h (Nat.le_refl _)
  rwa [offeredFor_requested] at this

theorem le_offeredFor_iff {f t : Nat} (h : f ≤ o.requested) :
    t ≤ o.offeredFor f ↔ t * o.requested ≤ o.offered * f := by
  rw [o.offeredFor_eq h, Nat.le_div_iff_mul_le o.requested_pos]

/-- **Rounding law, lower half.**  A fill made in two pieces releases no more than
the same fill made at once. -/
theorem offeredFor_add_le {f g : Nat} (h : f + g ≤ o.requested) :
    o.offeredFor f + o.offeredFor g ≤ o.offeredFor (f + g) := by
  rw [o.offeredFor_eq (f := f) (by omega), o.offeredFor_eq (f := g) (by omega),
    o.offeredFor_eq h, Nat.mul_add]
  exact Nat.div_add_div_le_add_div

/-- **Rounding law, upper half.**  The second piece costs at most one unit. -/
theorem offeredFor_le_add {f g : Nat} (h : f + g ≤ o.requested) :
    o.offeredFor (f + g) ≤ o.offeredFor f + o.offeredFor g + 1 := by
  rw [o.offeredFor_eq (f := f) (by omega), o.offeredFor_eq (f := g) (by omega),
    o.offeredFor_eq h, Nat.mul_add, Nat.add_div o.requested_pos]
  split <;> omega

/-- **`minFillForRelease` is the lower adjoint of `offeredFor`**: a fill releases
at least `t` exactly when it is at least the minimal fill for `t`. -/
theorem minFillForRelease_le_iff {t f : Nat} (ht : t ≤ o.offered) (hf : f ≤ o.requested) :
    o.minFillForRelease t ≤ f ↔ t ≤ o.offeredFor f := by
  have hor := o.offered_pos
  rw [o.le_offeredFor_iff hf]
  unfold minFillForRelease
  by_cases h0 : t = 0
  · simp [h0]
  rw [if_neg h0]
  by_cases hto : o.offered ≤ t
  · rw [if_pos hto]
    have hteq : t = o.offered := Nat.le_antisymm ht hto
    rw [hteq, Nat.mul_le_mul_left_iff hor]
  rw [if_neg hto]
  -- below the total the quotient is smaller than `requested`, so neither the cast
  -- nor the cap changes it
  have hlt : t * o.requested / o.offered < o.requested := by
    rw [Nat.div_lt_iff_lt_mul hor, Nat.mul_comm]
    exact Nat.mul_lt_mul_of_pos_left (Nat.lt_of_not_le hto) o.requested_pos
  have hq : min (asU64 (t * o.requested / o.offered)) o.requested
      = t * o.requested / o.offered := by
    rw [asU64_of_lt (hlt.trans o.requested_lt), Nat.min_eq_left (Nat.le_of_lt hlt)]
  have hdiv : o.offered * (t * o.requested / o.offered) ≤ t * o.requested :=
    Nat.mul_div_le _ _
  simp only [hq, o.le_offeredFor_iff (Nat.le_of_lt hlt)]
  have hceil : t * o.requested < o.offered * (t * o.requested / o.offered + 1) := by
    rw [Nat.mul_comm o.offered]
    exact Nat.lt_mul_of_div_lt (Nat.lt_succ_self _) hor
  split
  · rename_i hexact
    have hqe : o.offered * (t * o.requested / o.offered) = t * o.requested :=
      Nat.le_antisymm hdiv hexact
    rw [← hqe, Nat.mul_le_mul_left_iff hor, hqe]
  · rename_i hmiss
    rw [Nat.min_eq_left hlt]
    constructor
    · intro h
      exact Nat.le_trans (Nat.le_of_lt hceil) (Nat.mul_le_mul_left _ h)
    · intro h
      refine Nat.lt_of_not_le fun hle => hmiss (h.trans ?_)
      exact Nat.mul_le_mul_left _ hle

/-! ### A successful match -/

/-- What `self` sends in a match. -/
def sends (self other : Order) : Nat := min self.offeredRemaining other.requestedRemaining

/-- What `self` receives in a match. -/
def receives (self other : Order) : Nat :=
  min (other.offeredFor (sends self other)) self.requestedRemaining

/-- **The two orders trade**: both are active, they cross, neither side's release is
rounded to nothing, and `self` releases at least what it sends. -/
def Trades (self other : Order) : Prop :=
  (self.isActive = true ∧ other.isActive = true ∧ self.isProfitableWith other = true) ∧
    0 < sends self other ∧ 0 < other.offeredFor (sends self other) ∧
    sends self other ≤ self.offeredFor (receives self other)

instance (self other : Order) : Decidable (Trades self other) :=
  inferInstanceAs (Decidable (_ ∧ _))

theorem sends_le (self other : Order) : sends self other ≤ other.requestedRemaining :=
  Nat.min_le_right _ _

theorem receives_le (self other : Order) : receives self other ≤ self.requestedRemaining :=
  Nat.min_le_right _ _

/-- What `match_with` returns for orders that trade. -/
theorem matchWith_of_trades {self other : Order} (h : Trades self other) :
    self.matchWith other =
      (some ⟨self.offeredFor (receives self other) - sends self other,
        other.offeredFor (sends self other) - receives self other⟩,
      self.deduct (receives self other), other.deduct (sends self other)) := by
  obtain ⟨⟨hself, hother, hprofit⟩, hsends, hreleases, hcover⟩ := h
  unfold matchWith
  rw [if_neg (by simp only [hself, hother]; decide), if_neg (by simp only [hprofit]; decide)]
  dsimp only
  rw [show min self.offeredRemaining other.requestedRemaining = sends self other from rfl,
    if_neg hsends.ne', other.fill_of_le (sends_le self other)]
  dsimp only
  rw [show min (other.offeredFor (sends self other)) self.requestedRemaining =
    receives self other from rfl, if_neg hreleases.ne', self.fill_of_le (receives_le self other)]
  dsimp only
  rw [if_neg (Nat.not_lt.mpr hcover)]

/-- Orders that do not trade are refused. -/
theorem matchWith_of_not_trades {self other : Order} (h : ¬ Trades self other) :
    (self.matchWith other).1 = none := by
  unfold matchWith
  split
  · rfl
  rename_i hact
  simp only [Bool.or_eq_true, Bool.not_eq_true', not_or, Bool.not_eq_false] at hact
  split
  · rfl
  rename_i hprofit
  simp only [Bool.not_eq_true', Bool.not_eq_false] at hprofit
  dsimp only
  split
  · rfl
  rename_i hsends
  rw [other.fill_of_le (Nat.min_le_right _ _)]
  dsimp only
  split
  · rfl
  rename_i hreleases
  rw [self.fill_of_le (Nat.min_le_right _ _)]
  dsimp only
  split
  · rfl
  rename_i hcover
  exact absurd ⟨⟨hact.1, hact.2, hprofit⟩, Nat.pos_of_ne_zero hsends,
    Nat.pos_of_ne_zero hreleases, Nat.le_of_not_lt hcover⟩ h

theorem trades_of_matchWith {self other self' other' : Order} {r : MatchResult}
    (h : self.matchWith other = (some r, self', other')) : Trades self other := by
  by_contra hn
  have := matchWith_of_not_trades hn
  rw [h] at this
  cases this

/-- What a successful `matchWith` did: `self` received `receives` and `other`
received `sends`, both positive and within what was left, and the two surpluses
are what the orders released beyond that, without saturation. -/
def Matched (self other : Order) (r : MatchResult) (self' other' : Order) : Prop :=
  ∃ sends receives : Nat,
    0 < sends ∧ sends ≤ other.requestedRemaining ∧
    0 < receives ∧ receives ≤ self.requestedRemaining ∧
    self' = self.deduct receives ∧ other' = other.deduct sends ∧
    r.surplusOffered + sends = self.offeredFor receives ∧
    r.surplusRequested + receives = other.offeredFor sends

theorem Trades.receives_pos {self other : Order} (h : Trades self other) :
    0 < receives self other := by
  obtain ⟨⟨hself, -, -⟩, -, hreleases, -⟩ := h
  rw [isActive_iff] at hself
  exact Nat.lt_min.mpr ⟨hreleases, hself⟩

theorem matchWith_some {self other self' other' : Order} {r : MatchResult}
    (h : self.matchWith other = (some r, self', other')) : Matched self other r self' other' := by
  have ht := trades_of_matchWith h
  rw [matchWith_of_trades ht] at h
  simp only [Prod.mk.injEq, Option.some.injEq] at h
  obtain ⟨rfl, rfl, rfl⟩ := h
  refine ⟨sends self other, receives self other, ht.2.1, sends_le .., ht.receives_pos,
    receives_le .., rfl, rfl, ?_, ?_⟩
  · exact Nat.sub_add_cancel ht.2.2.2
  · exact Nat.sub_add_cancel (Nat.min_le_left _ _)

theorem offeredRemaining_deduct_self (o : Order) :
    (o.deduct o.requestedRemaining).offeredRemaining = 0 := by
  rw [offeredRemaining, deduct_offeredFor, deduct_requestedRemaining, Nat.sub_self, offeredFor_zero]

/-- **A trade exhausts one side**: it can release nothing any more.  The side need not be
completely filled, for what it has left may be worth less than one unit. -/
theorem Trades.exhausts {self other : Order} (h : Trades self other) :
    (0 < self.offeredRemaining ∧ (self.deduct (receives self other)).offeredRemaining = 0) ∨
    (0 < other.offeredRemaining ∧ (other.deduct (sends self other)).offeredRemaining = 0) := by
  obtain ⟨-, hsends, hreleases, hcover⟩ := h
  rcases Nat.le_total other.requestedRemaining self.offeredRemaining with hle | hle
  · right
    have heq : sends self other = other.requestedRemaining := Nat.min_eq_right hle
    rw [heq] at hreleases ⊢
    exact ⟨hreleases, other.offeredRemaining_deduct_self⟩
  · left
    have heq : sends self other = self.offeredRemaining := Nat.min_eq_left hle
    refine ⟨heq ▸ hsends, ?_⟩
    -- the whole release is covered by what is received, so the rest releases nothing
    have hle := receives_le self other
    have hsplit := self.offeredFor_add_le (f := receives self other)
      (g := self.requestedRemaining - receives self other)
      (by have := self.remaining_le; omega)
    rw [Nat.add_sub_cancel' hle] at hsplit
    rw [heq, offeredRemaining] at hcover
    rw [offeredRemaining, deduct_offeredFor, deduct_requestedRemaining]
    omega

end Order

/-! ### Two orders that cross -/

/-- An amount of a sample order, brought into the range of an amount. -/
def sampleAmount (n : Nat) : Nat := max 1 (min n u64Max)

theorem sampleAmount_pos (n : Nat) : 0 < sampleAmount n := Nat.le_max_left _ _

theorem sampleAmount_lt (n : Nat) : sampleAmount n < 2 ^ 64 := by
  unfold sampleAmount u64Max
  omega

/-- `offered` of token `x` for `requested` of token `y`. -/
def swapTerms (x y : TokenId) (offered requested : Nat) : OrderTerms :=
  ⟨x, y, sampleAmount offered, sampleAmount requested, sampleAmount_pos _, sampleAmount_pos _,
    sampleAmount_lt _, sampleAmount_lt _⟩

/-- Order 1 offers 10 of token 1 for 5 of token 2, order 2 offers 6 of token 2 for 7 of
token 1. -/
def crossingTerms (id : OrderId) : OrderTerms :=
  if id = 1 then swapTerms 1 2 10 5 else swapTerms 2 1 6 7

end PswapSolver
