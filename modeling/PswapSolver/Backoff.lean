import Mathlib.Algebra.BigOperators.Group.Finset.Basic
import Mathlib.Algebra.Order.BigOperators.Group.Finset

/-! # Delays that double up to a cap

A retry loop waits between its attempts; the delay is doubled after each wait and never
exceeds a cap.  So the delay before a retry is a function of its number (`next_delay`), and the
time spent waiting is the sum of these delays (`total`).
-/
namespace Backoff

/-- The delay after a wait: doubled, up to the cap. -/
def next (cap d : Nat) : Nat := min (d * 2) cap

/-- The delay before retry number `k`, the first one being number 0. -/
def delay (start cap k : Nat) : Nat := min (start * 2 ^ k) cap

/-- Doubling the capped delay is capping the doubled one. -/
theorem next_delay (start cap k : Nat) :
    next cap (delay start cap k) = delay start cap (k + 1) := by
  have hpow : start * 2 ^ (k + 1) = start * 2 ^ k * 2 := by rw [pow_succ, mul_assoc]
  unfold next delay
  rw [hpow]
  omega

/-- The time spent waiting before the first `n` retries. -/
def total (start cap n : Nat) : Nat := ∑ k ∈ Finset.range n, delay start cap k

theorem total_succ (start cap n : Nat) :
    total start cap (n + 1) = total start cap n + delay start cap n := Finset.sum_range_succ ..

theorem total_mono (start cap : Nat) {n m : Nat} (h : n ≤ m) :
    total start cap n ≤ total start cap m :=
  Finset.sum_le_sum_of_subset (Finset.range_mono h)

end Backoff
