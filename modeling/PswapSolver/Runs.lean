/-! # Runs with a history

A run of a labelled transition system, together with the steps taken so far: each with
the state it was taken in and its label.  A *guard* is a condition on a step, which may
look at the history; a guarded run is one all of whose steps meet the guard.  What a
protocol remembers only in a proof is thus read off the history, and an invariant is
about the history and the state together (`Run.invariant`).
-/
namespace Runs
variable {S L : Type}

/-- A condition on a step, given the steps before it. -/
abbrev Guard (S L : Type) := List (S × L) → S → L → Prop

/-- The guard that lets every step pass. -/
def unguarded : Guard S L := fun _ _ _ => True

/-- **A run from `s₀`** whose steps all meet the guard. -/
inductive Run (Step : S → L → S → Prop) (guard : Guard S L) (s₀ : S) : List (S × L) → S → Prop
  | start : Run Step guard s₀ [] s₀
  | step {history : List (S × L)} {s s' : S} {l : L} (run : Run Step guard s₀ history s)
      (meets : guard history s l) (step : Step s l s') :
      Run Step guard s₀ (history ++ [(s, l)]) s'

variable {Step : S → L → S → Prop} {guard guard' : Guard S L} {s₀ s s' : S}
  {history history' : List (S × L)} {l : L}

/-- **The invariant rule**: what holds at the start and is kept by every guarded step
holds throughout every guarded run. -/
theorem Run.invariant {P : List (S × L) → S → Prop} (h : Run Step guard s₀ history s)
    (start : P [] s₀)
    (step : ∀ {history s l s'}, P history s → guard history s l → Step s l s' →
      P (history ++ [(s, l)]) s') : P history s := by
  induction h with
  | start => exact start
  | step _ meets hstep ih => exact step ih meets hstep

/-- A single step. -/
theorem Run.single (h : Step s l s') : Run Step unguarded s [(s, l)] s' :=
  Run.step Run.start trivial h

/-- Runs compose if the guard does not look at the history. -/
theorem Run.trans {P : S → L → Prop} (h : Run Step (fun _ => P) s₀ history s)
    (h' : Run Step (fun _ => P) s history' s') :
    Run Step (fun _ => P) s₀ (history ++ history') s' := by
  induction h' with
  | start =>
    rw [List.append_nil]
    exact h
  | step _ meets hstep ih =>
    rw [← List.append_assoc]
    exact ih.step meets hstep

/-- Unguarded runs compose. -/
theorem Run.append (h : Run Step unguarded s₀ history s) (h' : Run Step unguarded s history' s') :
    Run Step unguarded s₀ (history ++ history') s' :=
  Run.trans h h'

/-- What is in the history is a step. -/
theorem Run.step_of_mem (h : Run Step guard s₀ history s) {x : S × L} (hx : x ∈ history) :
    ∃ s', Step x.1 x.2 s' := by
  induction h with
  | start => cases hx
  | step _ _ hlast ih =>
    rcases List.mem_append.mp hx with hold | hnew
    · exact ih hold
    · rw [List.mem_singleton] at hnew
      subst hnew
      exact ⟨_, hlast⟩

/-- What comes before a step of a run is a run up to the state of that step. -/
theorem Run.before {before after : List (S × L)} {x : S × L}
    (h : Run Step guard s₀ (before ++ x :: after) s) :
    Run Step guard s₀ before x.1 ∧ ∃ s', Step x.1 x.2 s' := by
  generalize hall : before ++ x :: after = all at h
  induction h generalizing after with
  | start => simp at hall
  | step hrun _ hlast ih =>
    rcases List.eq_nil_or_concat after with rfl | ⟨after', y, rfl⟩
    · obtain ⟨rfl, hx⟩ := List.append_inj' hall rfl
      cases hx
      exact ⟨hrun, _, hlast⟩
    · rw [List.concat_eq_append, ← List.cons_append, ← List.append_assoc] at hall
      exact ih (List.append_inj' hall rfl).1

/-- A run under a guard is one under a weaker guard. -/
theorem Run.mono (h : Run Step guard s₀ history s)
    (hguard : ∀ history s l, guard history s l → guard' history s l) :
    Run Step guard' s₀ history s := by
  induction h with
  | start => exact Run.start
  | step _ meets hstep ih => exact ih.step (hguard _ _ _ meets) hstep

/-- A run whose steps are steps of another system, under other labels. -/
theorem Run.relabel {L' : Type} {Step' : S → L' → S → Prop} (f : L → L')
    (h : Run Step guard s₀ history s)
    (hstep : ∀ x ∈ history, ∀ s', Step x.1 x.2 s' → Step' x.1 (f x.2) s') :
    Run Step' unguarded s₀ (history.map (Prod.map id f)) s := by
  induction h with
  | start => exact Run.start
  | step _ _ hlast ih =>
    rw [List.map_append]
    exact (ih fun x hx => hstep x (List.mem_append_left _ hx)).step trivial
      (hstep _ (List.mem_append_right _ (List.mem_singleton_self _)) _ hlast)

/-- The part of a history that another system, seen through `f` and `g`, takes part in. -/
def projection {T M : Type} (f : S → T) (g : L → Option M) (history : List (S × L)) :
    List (T × M) :=
  history.filterMap fun x => (g x.2).map (Prod.mk (f x.1))

theorem projection_concat {T M : Type} (f : S → T) (g : L → Option M) (history : List (S × L))
    (s : S) (l : L) : projection f g (history ++ [(s, l)]) =
      projection f g history ++ ((g l).map (Prod.mk (f s))).toList := by
  rw [projection, List.filterMap_append, List.filterMap_cons, List.filterMap_nil]
  cases g l with
  | none => rfl
  | some m => rfl

/-- **Projection**: if every step is a step of another system or leaves it alone, then a run is,
seen through `f` and `g`, a run of that system. -/
theorem Run.project {T M : Type} {Step' : T → M → T → Prop} {f : S → T} {g : L → Option M}
    (hstep : ∀ {s l s'}, Step s l s' →
      g l = none ∧ f s' = f s ∨ ∃ m, g l = some m ∧ Step' (f s) m (f s'))
    (h : Run Step guard s₀ history s) :
    Run Step' unguarded (f s₀) (projection f g history) (f s) := by
  induction h with
  | start => exact Run.start
  | step _ _ hlast ih =>
    rw [projection_concat]
    rcases hstep hlast with ⟨hnone, hsame⟩ | ⟨m, hm, hlast'⟩
    · rw [hnone, hsame]
      exact (List.append_nil _).symm ▸ ih
    · rw [hm]
      exact ih.step trivial hlast'

/-- Every step of `rest`, coming after `before`, meets the guard. -/
def Meets (guard : Guard S L) : List (S × L) → List (S × L) → Prop
  | _, [] => True
  | before, x :: rest => guard before x.1 x.2 ∧ Meets guard (before ++ [x]) rest

instance decidableMeets [∀ history s l, Decidable (guard history s l)] :
    (before rest : List (S × L)) → Decidable (Meets guard before rest)
  | _, [] => inferInstanceAs (Decidable True)
  | before, x :: rest =>
    have := decidableMeets (before ++ [x]) rest
    inferInstanceAs (Decidable (_ ∧ _))

theorem meets_append {before rest : List (S × L)} {x : S × L} :
    Meets guard before (rest ++ [x]) ↔
      Meets guard before rest ∧ guard (before ++ rest) x.1 x.2 := by
  induction rest generalizing before with
  | nil => simp [Meets]
  | cons y rest ih =>
    rw [List.cons_append, Meets, ih, Meets, List.append_assoc, and_assoc]
    rfl

/-- A guard that no step of `rest` can violate is met. -/
theorem meets_of_forall {before rest : List (S × L)}
    (h : ∀ x ∈ rest, ∀ before, guard before x.1 x.2) : Meets guard before rest := by
  induction rest generalizing before with
  | nil => trivial
  | cons x rest ih =>
    exact ⟨h x (List.mem_cons_self ..) before, ih fun y hy => h y (List.mem_cons_of_mem _ hy)⟩

/-- A run whose history meets the guard is a guarded run. -/
theorem Run.guarded (h : Run Step unguarded s₀ history s) (hmeets : Meets guard [] history) :
    Run Step guard s₀ history s := by
  induction h with
  | start => exact Run.start
  | step _ _ hstep ih =>
    obtain ⟨hrest, hlast⟩ := meets_append.mp hmeets
    exact (ih hrest).step hlast hstep

end Runs
