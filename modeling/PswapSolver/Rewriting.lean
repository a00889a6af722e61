import Mathlib.Logic.Relation

/-! # Rewriting to one normal form

Two conditions under which a relation leads from a state to one state in which it takes no step
any more.  With the diamond property this holds wherever the relation is followed
(`eq_of_diamond`).  If the relation has it only in places, one path on which every step is forced
is enough: a step is forced if every other step leaves it possible, and still forced, and the two
can be taken in either order (`eq_of_forced`).
-/
namespace Rewriting
open Relation

variable {α : Type*} {r forced : α → α → Prop} {a b c : α}

theorem eq_of_normal (ha : ∀ d, ¬ r a d) (h : ReflTransGen r a b) : b = a := by
  rcases h.cases_head with h | ⟨d, hd, -⟩
  · exact h.symm
  · exact absurd hd (ha d)

/-- With the diamond property, what is reached and takes no step is unique. -/
theorem eq_of_diamond (diamond : ∀ a b c, r a b → r a c → b = c ∨ ∃ d, r b d ∧ r c d)
    (hb : ReflTransGen r a b) (hc : ReflTransGen r a c) (hnb : ∀ d, ¬ r b d)
    (hnc : ∀ d, ¬ r c d) : b = c := by
  obtain ⟨d, hbd, hcd⟩ := church_rosser (fun a b c hab hac => by
    rcases diamond a b c hab hac with rfl | ⟨d, hbd, hcd⟩
    · exact ⟨b, .refl, .refl⟩
    · exact ⟨d, .single hbd, .single hcd⟩) hb hc
  rw [← eq_of_normal hnb hbd, ← eq_of_normal hnc hcd]

/-- A forced step may be taken first. -/
theorem forced_first (commutes : ∀ x y z, forced x y → r x z → z = y ∨ ∃ d, r y d ∧ forced z d)
    (h : forced a b) (hc : ReflTransGen r a c) (hnc : ∀ d, ¬ forced c d) :
    ReflTransGen r b c := by
  induction hc using ReflTransGen.head_induction_on generalizing b with
  | refl => exact absurd h (hnc b)
  | @head a a' hstep hrest ih =>
    rcases commutes a b a' h hstep with rfl | ⟨d, hbd, hforced⟩
    · exact hrest
    · exact (ih hforced).head hbd

/-- **A path of forced steps leads to the only normal form.** -/
theorem eq_of_forced (commutes : ∀ x y z, forced x y → r x z → z = y ∨ ∃ d, r y d ∧ forced z d)
    (hb : ReflTransGen forced a b) (hc : ReflTransGen r a c) (hnb : ∀ d, ¬ r b d)
    (hnc : ∀ d, ¬ forced c d) : c = b := by
  induction hb using ReflTransGen.head_induction_on with
  | refl => exact eq_of_normal hnb hc
  | head hstep _ ih => exact ih (forced_first commutes hstep hc hnc)

end Rewriting
