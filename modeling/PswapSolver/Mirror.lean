import PswapSolver.Crossing

/-! # The mirror's counter-orders

The model of the arithmetic of the mock market maker (`mock-mirror/src/mirror.rs`).  For a
user's order it posts a counter-order in the opposite direction: it offers what the user
requests, scaled by a fill fraction, and requests what the user offers, scaled and with a
spread taken off, so that the solver's gate for a direct match clears and the spread is left
for the solver.

Both amounts are scaled and rounded down separately.  When half an order is mirrored and the
user requests an odd amount, the counter-order offers less than half of it while it still
requests half of what the user offers, less the spread.  The gate then clears only if the
spread is worth more than the lost half unit (`SpreadCovers`).
-/
namespace PswapSolver

/-! ## The code -/

/-- `a * num / den` in `u128`, back to `u64`. -/
def mulDiv (a num den : Nat) : Nat := asU64 (a * num / den)

/-- Amounts of the counter-order: `(counterOffered, counterRequested)`, or nothing when the
order is too small. -/
def favorableCounter (offered requested spreadBps fillNum fillDen : Nat) : Option (Nat × Nat) :=
  let counterOffered := mulDiv requested fillNum fillDen
  let scaledA := mulDiv offered fillNum fillDen
  if counterOffered = 0 ∨ scaledA = 0 then none
  else
    -- the spread is shaved off what the mirror asks for
    let counterRequested := min (mulDiv scaledA (10000 - spreadBps) 10000) (scaledA - 1)
    if counterRequested = 0 then none else some (counterOffered, counterRequested)

/-- The fill fractions a tick uses. -/
inductive FillFraction where
  | full
  | half
deriving DecidableEq

namespace FillFraction

def num (_ : FillFraction) : Nat := 1

def den : FillFraction → Nat
  | full => 1
  | half => 2

/-- The fraction of an amount, rounded down. -/
def part (f : FillFraction) (n : Nat) : Nat := n / f.den

theorem part_le (f : FillFraction) (n : Nat) : f.part n ≤ n := Nat.div_le_self n f.den

theorem mulDiv_eq_part (f : FillFraction) {n : Nat} (h : n < 2 ^ 64) :
    mulDiv n f.num f.den = f.part n := by
  have hle : f.part n ≤ n := f.part_le n
  rw [mulDiv, num, Nat.mul_one]
  exact asU64_of_lt (Nat.lt_of_le_of_lt hle h)

end FillFraction

/-! ## The amounts -/

/-- With a spread, less than the whole is left, so the cap below the whole changes nothing. -/
theorem shaved_eq {n spreadBps : Nat} (hn : 0 < n) (hlt : n < 2 ^ 64) (hs : 1 ≤ spreadBps) :
    min (mulDiv n (10000 - spreadBps) 10000) (n - 1) = n * (10000 - spreadBps) / 10000 := by
  have hless : n * (10000 - spreadBps) / 10000 < n := by
    rw [Nat.div_lt_iff_lt_mul (by decide)]
    apply Nat.mul_lt_mul_of_pos_left _ hn
    omega
  rw [mulDiv, asU64_of_lt (hless.trans hlt)]
  apply Nat.min_eq_left
  omega

/-- **The counter-order**, in terms of the two scaled amounts. -/
theorem favorableCounter_some {offered requested spreadBps : Nat} {f : FillFraction}
    {counterOffered counterRequested : Nat} (ho : offered < 2 ^ 64) (hr : requested < 2 ^ 64)
    (hs : 1 ≤ spreadBps)
    (h : favorableCounter offered requested spreadBps f.num f.den =
      some (counterOffered, counterRequested)) :
    0 < f.part offered ∧ 0 < counterOffered ∧ 0 < counterRequested ∧
      counterOffered = f.part requested ∧
      counterRequested = f.part offered * (10000 - spreadBps) / 10000 := by
  unfold favorableCounter at h
  rw [f.mulDiv_eq_part ho, f.mulDiv_eq_part hr] at h
  dsimp only at h
  by_cases hzero : f.part requested = 0 ∨ f.part offered = 0
  · rw [if_pos hzero] at h
    cases h
  rw [if_neg hzero] at h
  have hpos : 0 < f.part offered := by omega
  rw [shaved_eq hpos (Nat.lt_of_le_of_lt (f.part_le offered) ho) hs] at h
  by_cases hnone : f.part offered * (10000 - spreadBps) / 10000 = 0
  · rw [if_pos hnone] at h
    cases h
  rw [if_neg hnone] at h
  cases h
  refine ⟨hpos, ?_, ?_, rfl, rfl⟩
  · omega
  · omega

/-! ## The gate -/

/-- How much of the scaled offered amount is more than the scaled requested amount is worth at
the user's rate: both are rounded down, and the requested one may lose more. -/
def roundingLoss (offered requested : Nat) (f : FillFraction) : Nat :=
  f.part offered - (offered * f.part requested + requested - 1) / requested

/-- **The spread covers the rounding**: what is shaved off is worth more than what the scaling
has lost. -/
def SpreadCovers (offered requested spreadBps : Nat) (f : FillFraction) : Prop :=
  10000 * roundingLoss offered requested f < spreadBps * f.part offered

instance (offered requested spreadBps : Nat) (f : FillFraction) :
    Decidable (SpreadCovers offered requested spreadBps f) :=
  inferInstanceAs (Decidable (_ < _))

/-- A product is below `n` iff its factor is below the quotient, rounded up. -/
theorem mul_lt_iff_lt_ceil {m n k : Nat} (hk : 0 < k) : k * m < n ↔ m < (n + k - 1) / k := by
  rw [Nat.lt_iff_add_one_le (m := m), Nat.le_div_iff_mul_le hk, Nat.add_mul, Nat.one_mul,
    Nat.mul_comm m]
  omega

/-- Shaved by the spread, an amount is below `m` iff the spread is worth more than the rest of
the amount. -/
theorem shaved_lt_iff {n m spreadBps : Nat} (hn : 0 < n) (hlow : 1 ≤ spreadBps)
    (hhigh : spreadBps < 10000) :
    n * (10000 - spreadBps) / 10000 < m ↔ 10000 * (n - m) < spreadBps * n := by
  have hsplit : n * (10000 - spreadBps) + spreadBps * n = 10000 * n := by
    rw [Nat.mul_comm spreadBps, ← Nat.mul_add, Nat.sub_add_cancel (Nat.le_of_lt hhigh),
      Nat.mul_comm]
  have hspread : 0 < spreadBps * n := Nat.mul_pos hlow hn
  rw [Nat.div_lt_iff_lt_mul (by decide)]
  by_cases hle : m ≤ n
  · omega
  · have hgone : n - m = 0 := by omega
    rw [hgone]
    omega

/-- A full fill loses nothing. -/
theorem spreadCovers_full {offered requested spreadBps : Nat} (ho : 0 < offered)
    (hr : 0 < requested) (hs : 1 ≤ spreadBps) :
    SpreadCovers offered requested spreadBps .full := by
  have hceil : offered - 1 < (offered * requested + requested - 1) / requested := by
    rw [← mul_lt_iff_lt_ceil hr, Nat.mul_comm offered]
    apply Nat.mul_lt_mul_of_pos_left _ hr
    omega
  have hnone : roundingLoss offered requested .full = 0 := by
    simp only [roundingLoss, FillFraction.part, FillFraction.den, Nat.div_one]
    omega
  rw [SpreadCovers, hnone]
  simpa [FillFraction.part, FillFraction.den] using Nat.mul_pos hs ho

/-- Half of an order that requests an even amount loses nothing. -/
theorem spreadCovers_even {offered requested spreadBps : Nat} (ho : 2 ≤ offered)
    (hr : 0 < requested) (heven : requested % 2 = 0) (hs : 1 ≤ spreadBps) :
    SpreadCovers offered requested spreadBps .half := by
  obtain ⟨k, rfl⟩ : ∃ k, requested = 2 * k := ⟨requested / 2, by omega⟩
  have hk : 0 < k := by omega
  have hhalf : 0 < offered / 2 := by omega
  have hceil : offered / 2 - 1 < (offered * k + 2 * k - 1) / (2 * k) := by
    rw [← mul_lt_iff_lt_ceil hr, Nat.mul_right_comm]
    apply Nat.mul_lt_mul_of_pos_right _ hk
    omega
  have hnone : roundingLoss offered (2 * k) .half = 0 := by
    simp only [roundingLoss, FillFraction.part, FillFraction.den,
      Nat.mul_div_cancel_left k (by decide : 0 < 2)]
    omega
  rw [SpreadCovers, hnone]
  exact Nat.mul_pos hs hhalf

/-- **When a mirrored counter-order is matchable.**  Both amounts of a counter-order are
positive, and the solver's gate clears, for the user's order and any order with these amounts,
iff the spread covers the rounding. -/
theorem mirrored_order_matchable_iff (user : OrderTerms) {spreadBps : Nat} (hlow : 1 ≤ spreadBps)
    (hhigh : spreadBps < 10000) (f : FillFraction) {counterOffered counterRequested : Nat}
    (h : favorableCounter user.offered user.requested spreadBps f.num f.den =
      some (counterOffered, counterRequested)) :
    0 < counterOffered ∧ 0 < counterRequested ∧
      (user.requested * counterRequested < user.offered * counterOffered ↔
        SpreadCovers user.offered user.requested spreadBps f) ∧
      ∀ (i j : OrderId) (counter : OrderTerms), counter.offered = counterOffered →
        counter.requested = counterRequested →
        ((Order.fresh i user).isProfitableWith (Order.fresh j counter) = true ↔
          SpreadCovers user.offered user.requested spreadBps f) := by
  obtain ⟨hpos, hofferedPos, hrequestedPos, hoffered, hrequested⟩ :=
    favorableCounter_some user.offered_lt user.requested_lt hlow h
  have hgate : user.requested * counterRequested < user.offered * counterOffered ↔
      SpreadCovers user.offered user.requested spreadBps f := by
    rw [mul_lt_iff_lt_ceil user.requested_pos, hrequested, shaved_lt_iff hpos hlow hhigh, hoffered]
    rfl
  refine ⟨hofferedPos, hrequestedPos, hgate, ?_⟩
  intro i j counter ho hr
  rw [Order.isProfitableWith_iff, ← hgate, ← ho, ← hr]
  rfl

/-- Half of 1000 for 318 at 30 basis points: 159 for 498, and the gate clears. -/
theorem mirrored_order_matchable_half :
    favorableCounter 1000 318 30 1 2 = some (159, 498) ∧ 318 * 498 < 1000 * 159 := by
  let user := swapTerms 1 2 1000 318
  have hcounter : favorableCounter user.offered user.requested 30 FillFraction.half.num
      FillFraction.half.den = some (159, 498) := by decide
  have hcovers : SpreadCovers user.offered user.requested 30 .half := by decide
  obtain ⟨-, -, hgate, -⟩ :=
    mirrored_order_matchable_iff user (by decide) (by decide) .half hcounter
  exact ⟨hcounter, hgate.mpr hcovers⟩

/-- Half of 1000 for 3 at 30 basis points: the mirror offers 1 and requests 498, so that the
gate compares 1000 with 1494. -/
theorem mirrored_order_unmatchable :
    favorableCounter 1000 3 30 1 2 = some (1, 498) ∧ ¬ 3 * 498 < 1000 * 1 := by
  constructor
  · decide
  · decide

end PswapSolver
