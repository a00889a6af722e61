import PswapSolver.FiniteMap

/-! # Checked machine arithmetic

An operation on machine integers either has a result that fits, or faults: it panics in a
build with overflow checks and wraps in one without.  `Checked` computations stop at the
first fault and say what it was.

To show that a computation over natural numbers is what the machine does, one shows
`Returns fits a c`: the checked computation `c` returns `a` if `fits`, and otherwise
overflows.  The rules for sequencing (`Returns.bind`) and for loops (`Returns.foldlM`)
ask for one thing beyond the steps: what fits at the end fitted before.
-/

/-- Why a checked computation stops. -/
inductive Fault where
  | overflow (bits : Nat)
  | underflow
  | divisionByZero
  | lossyCast (bits : Nat)
  | missingKey
deriving DecidableEq

abbrev Checked (α : Type) := Except Fault α

namespace Checked

/-! ## Operations -/

/-- `a + b` on an unsigned integer of the given width. -/
def add (bits a b : Nat) : Checked Nat :=
  if a + b < 2 ^ bits then .ok (a + b) else .error (.overflow bits)

/-- `a * b` on an unsigned integer of the given width. -/
def mul (bits a b : Nat) : Checked Nat :=
  if a * b < 2 ^ bits then .ok (a * b) else .error (.overflow bits)

/-- `a - b` on unsigned integers. -/
def sub (a b : Nat) : Checked Nat := if b ≤ a then .ok (a - b) else .error .underflow

def div (a b : Nat) : Checked Nat := if b = 0 then .error .divisionByZero else .ok (a / b)

/-- A cast to an unsigned integer of the given width. -/
def cast (bits a : Nat) : Checked Nat := if a < 2 ^ bits then .ok a else .error (.lossyCast bits)

/-- `map[&key]`. -/
def index {α β : Type} [DecidableEq α] (m : FiniteMap α β) (key : α) : Checked β :=
  match m.lookup key with
  | some v => .ok v
  | none => .error .missingKey

/-- The sum of an iterator, from zero and from the left. -/
def sum (bits : Nat) (l : List Nat) : Checked Nat := l.foldlM (add bits) 0

theorem mul_of_lt {bits a b : Nat} (h : a * b < 2 ^ bits) : mul bits a b = .ok (a * b) := if_pos h

/-- A product of two integers of half the width fits. -/
theorem mul_of_halves {bits a b : Nat} (ha : a < 2 ^ bits) (hb : b < 2 ^ bits) :
    mul (bits + bits) a b = .ok (a * b) := by
  refine mul_of_lt ?_
  rw [Nat.pow_add]
  exact Nat.mul_lt_mul'' ha hb

theorem sub_of_le {a b : Nat} (h : b ≤ a) : sub a b = .ok (a - b) := if_pos h

theorem div_of_pos {a b : Nat} (h : 0 < b) : div a b = .ok (a / b) := if_neg (Nat.ne_of_gt h)

theorem cast_of_lt {bits a : Nat} (h : a < 2 ^ bits) : cast bits a = .ok a := if_pos h

@[simp] theorem ok_bind {α β : Type} (a : α) (f : α → Checked β) :
    ((Except.ok a : Checked α) >>= f) = f a := rfl

@[simp] theorem pure_eq {α : Type} (a : α) : (pure a : Checked α) = .ok a := rfl

theorem bind_eq_ok {α β : Type} {c : Checked α} {f : α → Checked β} {b : β} :
    (c >>= f) = .ok b ↔ ∃ a, c = .ok a ∧ f a = .ok b := by
  cases c with
  | error e => exact ⟨nofun, fun ⟨_, h, _⟩ => nomatch h⟩
  | ok a => exact ⟨fun h => ⟨a, rfl, h⟩, fun ⟨_, h, hf⟩ => by cases h; exact hf⟩

theorem eq_of_add {bits a b c : Nat} (h : add bits a b = .ok c) : c = a + b := by
  unfold add at h
  split at h
  · exact (Except.ok.inj h).symm
  · cases h

/-- The computation returns `a` if `fits`, and otherwise overflows. -/
structure Returns {α : Type} (fits : Prop) (a : α) (c : Checked α) : Prop where
  ok : fits → c = .ok a
  overflow : ¬ fits → ∃ bits, c = .error (.overflow bits)

section Rules
variable {α β : Type} {fits fits' : Prop} {a : α} {b : β} {c : Checked α}

theorem Returns.of_ok (hfits : fits) (h : c = .ok a) : Returns fits a c :=
  ⟨fun _ => h, fun hn => absurd hfits hn⟩

/-- **Sequencing.** -/
theorem Returns.bind {f : α → Checked β} (hc : Returns fits a c)
    (hf : fits → Returns fits' b (f a)) (mono : fits' → fits) : Returns fits' b (c >>= f) := by
  by_cases hfits : fits
  · rw [hc.ok hfits]
    exact hf hfits
  · refine ⟨fun h => absurd (mono h) hfits, fun _ => ?_⟩
    obtain ⟨bits, h⟩ := hc.overflow hfits
    exact ⟨bits, by rw [h]; rfl⟩

/-- **Loops**: `I` is what the passes keep, and `F` what they may lose. -/
theorem Returns.foldlM {f : β → α → Checked β} {g : β → α → β} {I F : β → Prop} (l : List α)
    (step : ∀ s x, I s → F s → Returns (F (g s x)) (g s x) (f s x))
    (keep : ∀ s x, I s → I (g s x)) (mono : ∀ s x, I s → F (g s x) → F s) {s : β}
    (hinv : I s) (hfit : F s) :
    (F (l.foldl g s) → F s) ∧ Returns (F (l.foldl g s)) (l.foldl g s) (l.foldlM f s) := by
  have hmono : ∀ (l : List α) s, I s → F (l.foldl g s) → F s := by
    intro l
    induction l with
    | nil => exact fun s _ h => h
    | cons x l ih => exact fun s hs h => mono s x hs (ih (g s x) (keep s x hs) h)
  refine ⟨hmono l s hinv, ?_⟩
  induction l generalizing s with
  | nil => exact .of_ok hfit rfl
  | cons x l ih =>
    rw [List.foldl_cons, List.foldlM_cons]
    exact (step s x hinv hfit).bind (fun hfit' => ih (keep s x hinv) hfit')
      (hmono l (g s x) (keep s x hinv))

end Rules

end Checked
