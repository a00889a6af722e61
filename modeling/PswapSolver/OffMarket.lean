import PswapSolver.SwapEta
import Mathlib.Data.List.DropRight
import Mathlib.Algebra.Order.Field.Rat
import Mathlib.Tactic.NormNum

/-! # Off-market orders

The model of `eval_off_market` in `swap_eta.rs`: does an order request more value than it
offers, by more than a tolerance, at the prices of the oracle?

The values of the two sides are `amount * cents / 10 ^ decimals`.  The code does not divide;
it multiplies each side by the other side's power of ten, both reduced by the smaller one,
and every product is checked.  So the verdict is that of the rational values
(`scaled_lt_iff`), or there is none because a number got too large (`offMarket_eq_none_iff`).

Prices come as `f64`.  What the code does with them is a parameter (`Floats`): the comparison
with zero, the rounding to cents, and the quotient that is printed.
-/
namespace PswapSolver

/-- `base.checked_pow(exp)` on `u128`. -/
def checkedPow128 (base exp : Nat) : Option Nat :=
  if base ^ exp ≤ u128Max then some (base ^ exp) else none

/-- `a.checked_add(b)` on `u128`. -/
def checkedAdd128 (a b : Nat) : Option Nat := if a + b ≤ u128Max then some (a + b) else none

/-- What the code does with a price of type `f64`. -/
structure Floats (F : Type) where
  /-- `x > 0.0` -/
  positive : F → Bool
  /-- `(x * 100.0).round() as u128` -/
  cents : F → Nat
  /-- `x / y` -/
  div : F → F → F
  /-- The number with eight decimals. -/
  format8 : F → String

/-- Formats a price without trailing zeros. -/
def fmtF64 {F : Type} (fp : Floats F) (x : F) : String :=
  let s := ((fp.format8 x).toList.rdropWhile (· = '0')).rdropWhile (· = '.')
  if s = [] then "0" else String.ofList s

/-- The comparison of the two values in integers; nothing when a number exceeds `u128`. -/
def offMarket (offeredA dA centsA requestedB dB centsB tolBps : Nat) : Option Bool := do
  let m := min dA dB
  let offeredCents ← checkedMul128 offeredA centsA
  let scaleA ← checkedPow128 10 (dB - m)
  let offeredUsd ← checkedMul128 offeredCents scaleA
  let requestedCents ← checkedMul128 requestedB centsB
  let scaleB ← checkedPow128 10 (dA - m)
  let requestedUsd ← checkedMul128 requestedCents scaleB
  let lhs ← checkedMul128 requestedUsd 10000
  let factor ← checkedAdd128 10000 tolBps
  let rhs ← checkedMul128 offeredUsd factor
  some (decide (rhs < lhs))

/-- Is the order priced worse than the oracle?  The flag is unknown without prices or
decimals; the market price is there whenever both prices are. -/
def evalOffMarket {F : Type} (fp : Floats F) (offeredA : Nat) (dA : Option Nat) (usdA : Option F)
    (requestedB : Nat) (dB : Option Nat) (usdB : Option F) (tolBps : Nat) :
    Option Bool × Option String :=
  match usdA, usdB with
  | some usdA, some usdB =>
    if !fp.positive usdA || !fp.positive usdB then (none, none)
    else
      let marketPrice := some (fmtF64 fp (fp.div usdA usdB))
      match dA, dB with
      | some dA, some dB =>
        let centsA := fp.cents usdA
        let centsB := fp.cents usdB
        -- a price below half a cent cannot be judged
        if centsA = 0 ∨ centsB = 0 then (none, marketPrice)
        else (offMarket offeredA dA centsA requestedB dB centsB tolBps, marketPrice)
      | _, _ => (none, marketPrice)
  | _, _ => (none, none)

/-! ## Checked numbers -/

theorem checkedPow128_eq_some {a b n : Nat} :
    checkedPow128 a b = some n ↔ a ^ b ≤ u128Max ∧ n = a ^ b := by
  unfold checkedPow128
  by_cases h : a ^ b ≤ u128Max
  · simp [h, eq_comm]
  · simp [h]

theorem checkedAdd128_eq_some {a b n : Nat} :
    checkedAdd128 a b = some n ↔ a + b ≤ u128Max ∧ n = a + b := by
  unfold checkedAdd128
  by_cases h : a + b ≤ u128Max
  · simp [h, eq_comm]
  · simp [h]

/-- The powers of ten and the products that are computed on the way. -/
def offMarketNumbers (offeredA dA centsA requestedB dB centsB tolBps : Nat) : List Nat :=
  let m := min dA dB
  [offeredA * centsA, 10 ^ (dB - m), offeredA * centsA * 10 ^ (dB - m),
    requestedB * centsB, 10 ^ (dA - m), requestedB * centsB * 10 ^ (dA - m),
    requestedB * centsB * 10 ^ (dA - m) * 10000,
    offeredA * centsA * 10 ^ (dB - m) * (10000 + tolBps)]

section Verdict
variable {offeredA dA centsA requestedB dB centsB tolBps : Nat}

/-- The tolerance fits beside ten thousand. -/
theorem tolerance_le (h : tolBps < 2 ^ 64) : 10000 + tolBps ≤ u128Max := by
  unfold u128Max
  omega

/-- **The verdict**: it is there iff no number is too large, and compares the scaled values. -/
theorem offMarket_eq_some_iff (htol : tolBps < 2 ^ 64) {v : Bool} :
    offMarket offeredA dA centsA requestedB dB centsB tolBps = some v ↔
      (∀ n ∈ offMarketNumbers offeredA dA centsA requestedB dB centsB tolBps, n ≤ u128Max) ∧
      v = decide (offeredA * centsA * 10 ^ (dB - min dA dB) * (10000 + tolBps) <
        requestedB * centsB * 10 ^ (dA - min dA dB) * 10000) := by
  have hfactor := tolerance_le htol
  simp only [offMarket, Option.bind_eq_bind, Option.bind_eq_some_iff, checkedMul128_eq_some,
    checkedPow128_eq_some, checkedAdd128_eq_some, Option.some.injEq, offMarketNumbers,
    List.forall_mem_cons, List.not_mem_nil, false_implies, implies_true, and_true]
  constructor
  · rintro ⟨_, ⟨h1, rfl⟩, _, ⟨h2, rfl⟩, _, ⟨h3, rfl⟩, _, ⟨h4, rfl⟩, _, ⟨h5, rfl⟩, _, ⟨h6, rfl⟩,
      _, ⟨h7, rfl⟩, _, ⟨-, rfl⟩, _, ⟨h8, rfl⟩, rfl⟩
    exact ⟨⟨h1, h2, h3, h4, h5, h6, h7, h8⟩, rfl⟩
  · rintro ⟨⟨h1, h2, h3, h4, h5, h6, h7, h8⟩, rfl⟩
    exact ⟨_, ⟨h1, rfl⟩, _, ⟨h2, rfl⟩, _, ⟨h3, rfl⟩, _, ⟨h4, rfl⟩, _, ⟨h5, rfl⟩, _, ⟨h6, rfl⟩,
      _, ⟨h7, rfl⟩, _, ⟨hfactor, rfl⟩, _, ⟨h8, rfl⟩, rfl⟩

theorem offMarket_eq_none_iff (htol : tolBps < 2 ^ 64) :
    offMarket offeredA dA centsA requestedB dB centsB tolBps = none ↔
      ∃ n ∈ offMarketNumbers offeredA dA centsA requestedB dB centsB tolBps, u128Max < n := by
  constructor
  · intro hnone
    by_contra hfits
    have hall : ∀ n ∈ offMarketNumbers offeredA dA centsA requestedB dB centsB tolBps,
        n ≤ u128Max := by
      intro n hn
      by_contra hlarge
      exact hfits ⟨n, hn, Nat.lt_of_not_le hlarge⟩
    rw [(offMarket_eq_some_iff htol).mpr ⟨hall, rfl⟩] at hnone
    cases hnone
  · rintro ⟨n, hn, hlarge⟩
    cases hv : offMarket offeredA dA centsA requestedB dB centsB tolBps with
    | none => rfl
    | some v =>
      have hfits := ((offMarket_eq_some_iff htol).mp hv).1 n hn
      omega

/-- **Reducing the powers of ten does not matter**: the scaled integers compare as the
rational values do. -/
theorem scaled_lt_iff (a b t : Nat) :
    a * 10 ^ (dB - min dA dB) * t < b * 10 ^ (dA - min dA dB) * 10000 ↔
      (a : ℚ) / 10 ^ dA * t < (b : ℚ) / 10 ^ dB * 10000 := by
  have hA : 10 ^ dA = 10 ^ (dA - min dA dB) * 10 ^ min dA dB := by
    rw [← Nat.pow_add, Nat.sub_add_cancel (Nat.min_le_left _ _)]
  have hB : 10 ^ dB = 10 ^ (dB - min dA dB) * 10 ^ min dA dB := by
    rw [← Nat.pow_add, Nat.sub_add_cancel (Nat.min_le_right _ _)]
  have hm : 0 < 10 ^ min dA dB := Nat.pow_pos (by decide)
  have hposA : (0 : ℚ) < 10 ^ dA := by positivity
  have hposB : (0 : ℚ) < 10 ^ dB := by positivity
  rw [div_mul_eq_mul_div, div_mul_eq_mul_div, div_lt_div_iff₀ hposA hposB]
  have hnat : a * t * 10 ^ dB < b * 10000 * 10 ^ dA ↔
      a * 10 ^ (dB - min dA dB) * t < b * 10 ^ (dA - min dA dB) * 10000 := by
    rw [hA, hB, ← Nat.mul_assoc, ← Nat.mul_assoc, Nat.mul_lt_mul_right hm,
      Nat.mul_right_comm a, Nat.mul_right_comm b]
  rw [← hnat]
  exact_mod_cast Iff.rfl

end Verdict

/-- With positive prices, known decimals and prices of at least a cent, the flag is that of the
integer comparison. -/
theorem evalOffMarket_fst {F : Type} (fp : Floats F) {usdA usdB : F}
    (hA : fp.positive usdA = true) (hB : fp.positive usdB = true)
    (hcentsA : 0 < fp.cents usdA) (hcentsB : 0 < fp.cents usdB)
    (offeredA dA requestedB dB tolBps : Nat) :
    (evalOffMarket fp offeredA (some dA) (some usdA) requestedB (some dB) (some usdB) tolBps).1 =
      offMarket offeredA dA (fp.cents usdA) requestedB dB (fp.cents usdB) tolBps := by
  have hzero : ¬ (fp.cents usdA = 0 ∨ fp.cents usdB = 0) := by omega
  unfold evalOffMarket
  dsimp only
  rw [hA, hB, if_neg (by decide), if_neg hzero]

/-- **The off-market verdict is exact.**  For prices of at least a cent each: a verdict is that
of the rational values of the two sides; there is none iff a power of ten or a product on the
way exceeds `u128`; and a larger offer or tolerance never makes an order off-market. -/
theorem off_market_exact {F : Type} (fp : Floats F) (usdA usdB : F)
    (hA : fp.positive usdA = true) (hB : fp.positive usdB = true)
    (hcentsA : 0 < fp.cents usdA) (hcentsB : 0 < fp.cents usdB)
    (offeredA dA requestedB dB tolBps : Nat) (htol : tolBps < 2 ^ 64) :
    (∀ v, (evalOffMarket fp offeredA (some dA) (some usdA) requestedB (some dB) (some usdB)
        tolBps).1 = some v →
      (v = true ↔ ((offeredA * fp.cents usdA : Nat) : ℚ) / 10 ^ dA * ((10000 + tolBps : Nat) : ℚ) <
        ((requestedB * fp.cents usdB : Nat) : ℚ) / 10 ^ dB * 10000)) ∧
    ((evalOffMarket fp offeredA (some dA) (some usdA) requestedB (some dB) (some usdB)
        tolBps).1 = none ↔
      ∃ n ∈ offMarketNumbers offeredA dA (fp.cents usdA) requestedB dB (fp.cents usdB) tolBps,
        u128Max < n) ∧
    ∀ {offeredA' tolBps' : Nat}, offeredA ≤ offeredA' → tolBps ≤ tolBps' → tolBps' < 2 ^ 64 →
      (evalOffMarket fp offeredA (some dA) (some usdA) requestedB (some dB) (some usdB)
        tolBps).1 = some false →
      (evalOffMarket fp offeredA' (some dA) (some usdA) requestedB (some dB) (some usdB)
        tolBps').1 ≠ some true := by
  simp only [evalOffMarket_fst fp hA hB hcentsA hcentsB]
  refine ⟨?_, offMarket_eq_none_iff htol, ?_⟩
  · intro v hv
    obtain ⟨-, rfl⟩ := (offMarket_eq_some_iff htol).mp hv
    rw [decide_eq_true_eq]
    exact scaled_lt_iff ..
  · intro offeredA' tolBps' hoffered htols htol' hfair hoff
    obtain ⟨-, hfair⟩ := (offMarket_eq_some_iff htol).mp hfair
    obtain ⟨-, hoff⟩ := (offMarket_eq_some_iff htol').mp hoff
    have hle := of_decide_eq_false hfair.symm
    have hlt := of_decide_eq_true hoff.symm
    -- the offered side only grows
    have hmono : offeredA * fp.cents usdA * 10 ^ (dB - min dA dB) * (10000 + tolBps) ≤
        offeredA' * fp.cents usdA * 10 ^ (dB - min dA dB) * (10000 + tolBps') := by
      gcongr
    omega

/-- Prices with two decimals, as a number of cents. -/
def centPrices : Floats Nat where
  positive x := decide (0 < x)
  cents x := x
  div x y := x * 100 / y
  format8 x := Nat.repr (x / 100) ++ "." ++ Nat.repr (x / 10 % 10) ++ Nat.repr (x % 10) ++ "000000"

/-- One unit of 8 decimals at 2 dollars for four of 6 decimals at one dollar is off-market. -/
theorem off_market_exact_greedy :
    (evalOffMarket centPrices 100000000 (some 8) (some 200) 4000000 (some 6) (some 100) 50).1 =
      some true ∧
    ((100000000 * 200 : Nat) : ℚ) / 10 ^ 8 * ((10000 + 50 : Nat) : ℚ) <
      ((4000000 * 100 : Nat) : ℚ) / 10 ^ 6 * 10000 := by
  have hverdict : (evalOffMarket centPrices 100000000 (some 8) (some 200) 4000000 (some 6)
      (some 100) 50).1 = some true := by decide
  obtain ⟨hexact, -⟩ := off_market_exact centPrices 200 100 rfl rfl (by decide) (by decide)
    100000000 8 4000000 6 50 (by decide)
  exact ⟨hverdict, (hexact true hverdict).mp rfl⟩

end PswapSolver
