/-! # Publishing a value that is changed under a lock

Callers change a shared value under a lock.  Each change is followed by a *publication*
in two parts: the caller takes the lock again and computes a snapshot of the value as it
is by then, releases the lock, and sends the snapshot.  Receivers see the snapshot that
was sent last.

Between the two parts other callers may change the value, compute and send.  If snapshots
are sent in the order in which they were computed, then a receiver sees the current value
once nobody is busy (`Board.UpToDate.published`); the order is needed, since a snapshot
that is sent late hides a newer one.
-/
namespace Publication
variable {C V S : Type}

/-- The shared value, the callers that changed it and have to compute a snapshot, the
snapshots that were computed and not yet sent, oldest first, and the one sent last. -/
structure Board (C V S : Type) where
  value : V
  owing : List C
  unsent : List (C × S)
  published : S

/-- The second and third step of a publication. -/
inductive Publish (C : Type) where
  | compute (caller : C)
  | send (caller : C)

namespace Board

/-- The first step: the value is changed. -/
def change (b : Board C V S) (caller : C) (value : V) : Board C V S :=
  { b with value := value, owing := b.owing ++ [caller] }

/-- **The steps of a publication**; `Views v s` says that `s` is a snapshot of `v`.  A caller
sends its own snapshots in the order it computed them. -/
inductive Step (Views : V → S → Prop) : Board C V S → Publish C → Board C V S → Prop
  | compute {b : Board C V S} {before after : List C} {caller : C} {snapshot : S}
      (owes : b.owing = before ++ caller :: after) (views : Views b.value snapshot) :
      Step Views b (.compute caller)
        { b with owing := before ++ after, unsent := b.unsent ++ [(caller, snapshot)] }
  | send {b : Board C V S} {before after : List (C × S)} {caller : C} {snapshot : S}
      (unsent : b.unsent = before ++ (caller, snapshot) :: after)
      (first : caller ∉ before.map Prod.fst) :
      Step Views b (.send caller) { b with unsent := before ++ after, published := snapshot }

/-- Nobody has a publication to finish. -/
def Settled (b : Board C V S) : Prop := b.owing = [] ∧ b.unsent = []

/-- The next snapshot to be sent, if there is one, is the caller's. -/
def Next (b : Board C V S) (caller : C) : Prop := (b.unsent.map Prod.fst).head? = some caller

/-- The snapshot that was computed last, as long as sending keeps the order. -/
def latest (b : Board C V S) : S := ((b.unsent.map Prod.snd).getLast?).getD b.published

/-- **The invariant**: if nobody has to compute a snapshot, then the latest one is current. -/
def UpToDate (Views : V → S → Prop) (b : Board C V S) : Prop :=
  b.owing = [] → Views b.value b.latest

/-- Every snapshot on its way or published satisfies `P`. -/
def All (P : S → Prop) (b : Board C V S) : Prop :=
  P b.published ∧ ∀ x ∈ b.unsent, P x.2

variable {Views : V → S → Prop} {b b' : Board C V S} {e : Publish C} {P : S → Prop}

theorem UpToDate.change (caller : C) (value : V) : UpToDate Views (b.change caller value) :=
  fun h => absurd h (List.append_ne_nil_of_right_ne_nil _ (List.cons_ne_nil _ _))

/-- **One step**, if snapshots are sent in order. -/
theorem UpToDate.step (h : UpToDate Views b) (hnext : ∀ c, e = .send c → b.Next c)
    (hstep : Step Views b e b') : UpToDate Views b' := by
  cases hstep with
  | compute owes views =>
    intro _
    show Views b.value (((b.unsent ++ _).map Prod.snd).getLast?.getD b.published)
    rw [List.map_append, List.map_singleton, List.getLast?_concat]
    exact views
  | @send before after caller snapshot hunsent first =>
    intro howing
    have hlatest := h howing
    -- the sender is the first in line, so nothing is before it
    have hhead := hnext caller rfl
    rw [Next, hunsent] at hhead
    cases before with
    | cons x before =>
      rw [List.cons_append, List.map_cons, List.head?_cons] at hhead
      exact absurd (Option.some.inj hhead ▸ List.mem_cons_self ..) first
    | nil =>
      rw [latest, hunsent] at hlatest
      cases after with
      | nil => exact hlatest
      | cons y after => exact hlatest

/-- **What a receiver sees when nobody is busy** is a snapshot of the current value. -/
theorem UpToDate.published (h : UpToDate Views b) (hsettled : b.Settled) :
    Views b.value b.published := by
  have hlatest := h hsettled.1
  rw [latest, hsettled.2] at hlatest
  exact hlatest

/-- A property of every snapshot of the current value goes over to what is published. -/
theorem All.step (h : b.All P) (hviews : ∀ {s}, Views b.value s → P s)
    (hstep : Step Views b e b') : b'.All P := by
  obtain ⟨hpub, hunsent⟩ := h
  cases hstep with
  | compute owes views =>
    refine ⟨hpub, fun x hx => ?_⟩
    rcases List.mem_append.mp hx with hx | hx
    · exact hunsent x hx
    · rw [List.mem_singleton.mp hx]
      exact hviews views
  | @send before after caller snapshot hlist first =>
    rw [hlist] at hunsent
    refine ⟨hunsent (caller, snapshot) (by simp), fun x hx => hunsent x ?_⟩
    rcases List.mem_append.mp hx with hx | hx
    · exact List.mem_append_left _ hx
    · exact List.mem_append_right _ (List.mem_cons_of_mem _ hx)

theorem All.mono {Q : S → Prop} (h : b.All P) (hPQ : ∀ {s}, P s → Q s) : b.All Q :=
  ⟨hPQ h.1, fun x hx => hPQ (h.2 x hx)⟩

/-- A step keeps the value. -/
theorem Step.value_eq (hstep : Step Views b e b') : b'.value = b.value := by
  cases hstep with
  | compute _ _ => rfl
  | send _ _ => rfl

end Board

end Publication
