import PswapSolver.Runs

/-! # Readers of a changing world

A reader looks at a shared world several times before it answers, and the world changes in
between.  It is modelled as a program: it has an answer, or reads something and goes on with what
it has read.  Each read is atomic; nothing is known of the world at the next one but that it is
later.

`Holds` is what is true of the answer of a program whatever happens in between.  A responder runs
several programs at once, up to a limit; `Responder.answers` says that every answer it gives is as
`Holds` says, in every interleaving.

So that a specification can speak of the worlds *during* a request, a world may be a `Timeline`: a
world together with its past.
-/
namespace Readers
open Runs
variable {Op : Type} {Res : Op → Type} {R S ε : Type}

/-! ## Programs -/

/-- **A program of atomic reads.** -/
inductive Prog (Res : Op → Type) (R : Type) : Type where
  | pure (r : R) : Prog Res R
  | read (op : Op) (next : Res op → Prog Res R) : Prog Res R

namespace Prog

def bind : Prog Res R → (R → Prog Res S) → Prog Res S
  | .pure r, f => f r
  | .read op next, f => .read op fun x => (next x).bind f

instance : Monad (Prog Res) where
  pure := Prog.pure
  bind := Prog.bind

/-- A single read. -/
def ask (op : Op) : Prog Res (Res op) := .read op .pure

end Prog

/-! ## What is true of the answer -/

section Holds
variable {W : Type}

/-- The order of the worlds. -/
structure WorldOrder (Later : W → W → Prop) : Prop where
  refl : ∀ w, Later w w
  trans : ∀ {a b c}, Later a b → Later b c → Later a c

/-- **The answer satisfies `Q`**, from the world on in which it is given, however the world changes
between the reads.  All worlds satisfy `Inv`. -/
def Holds (Inv : W → Prop) (Later : W → W → Prop) (observe : (op : Op) → W → Res op)
    (Q : W → R → Prop) : W → Prog Res R → Prop
  | w, .pure r => ∀ w', Later w w' → Inv w' → Q w' r
  | w, .read op next =>
    ∀ w', Later w w' → Inv w' → Holds Inv Later observe Q w' (next (observe op w'))

variable {Inv : W → Prop} {Later : W → W → Prop} {observe : (op : Op) → W → Res op}
  {Q : W → R → Prop} {w w' : W}

/-- What holds now holds later. -/
theorem Holds.later (ho : WorldOrder Later) {p : Prog Res R} (h : Holds Inv Later observe Q w p)
    (hlater : Later w w') : Holds Inv Later observe Q w' p := by
  cases p with
  | pure r => exact fun w'' h' => h w'' (ho.trans hlater h')
  | read op next => exact fun w'' h' => h w'' (ho.trans hlater h')

/-- **Composition**: the second part starts with what holds of the first, from then on. -/
theorem Holds.bind (ho : WorldOrder Later) (hw : Inv w) {Q' : W → S → Prop} {p : Prog Res R}
    {f : R → Prog Res S} (h : Holds Inv Later observe Q w p)
    (hf : ∀ w' r, Later w w' → Inv w' → (∀ w'', Later w' w'' → Inv w'' → Q w'' r) →
      Holds Inv Later observe Q' w' (f r)) :
    Holds Inv Later observe Q' w (p >>= f) := by
  induction p generalizing w with
  | pure r => exact hf w r (ho.refl w) hw h
  | read op next ih =>
    intro w' hlater hinv
    exact ih _ hinv (h w' hlater hinv) fun w'' r h' => hf w'' r (ho.trans hlater h')

/-- A read, in a program that may fail. -/
theorem Holds.reads (op : Op) {f : Res op → ExceptT ε (Prog Res) R} {Q : W → Except ε R → Prop}
    (h : ∀ w', Later w w' → Inv w' → Holds Inv Later observe Q w' (f (observe op w')).run) :
    Holds Inv Later observe Q w (ExceptT.lift (Prog.ask op) >>= f).run := h

/-- A program that does not fail, in one that may. -/
theorem Holds.lifts (ho : WorldOrder Later) (hw : Inv w) {Q' : W → Except ε S → Prop}
    {p : Prog Res R} {f : R → ExceptT ε (Prog Res) S} (h : Holds Inv Later observe Q w p)
    (hf : ∀ w' r, Later w w' → Inv w' → (∀ w'', Later w' w'' → Inv w'' → Q w'' r) →
      Holds Inv Later observe Q' w' (f r).run) :
    Holds Inv Later observe Q' w (ExceptT.lift p >>= f).run := by
  induction p generalizing w with
  | pure r => exact hf w r (ho.refl w) hw h
  | read op next ih =>
    intro w' hlater hinv
    exact ih _ hinv (h w' hlater hinv) fun w'' r h' => hf w'' r (ho.trans hlater h')

/-- Composition of programs that may fail. -/
theorem Holds.andThen (ho : WorldOrder Later) (hw : Inv w) {Q : W → Except ε R → Prop}
    {Q' : W → Except ε S → Prop} {p : ExceptT ε (Prog Res) R} {f : R → ExceptT ε (Prog Res) S}
    (h : Holds Inv Later observe Q w p.run)
    (hok : ∀ w' r, Later w w' → Inv w' → (∀ w'', Later w' w'' → Inv w'' → Q w'' (.ok r)) →
      Holds Inv Later observe Q' w' (f r).run)
    (herror : ∀ w' e, Later w w' → Inv w' → Q w' (.error e) → Q' w' (.error e)) :
    Holds Inv Later observe Q' w (p >>= f).run := by
  rw [ExceptT.run_bind]
  refine h.bind ho hw fun w' r hlater hinv hr => ?_
  cases r with
  | ok r => exact hok w' r hlater hinv hr
  | error e =>
    intro w'' hlater' hinv'
    exact herror w'' e (ho.trans hlater hlater') hinv' (hr w'' hlater' hinv')

/-- **A loop over a list** keeps an invariant `J` of the elements that are done. -/
theorem holds_foldlM {α : Type} (ho : WorldOrder Later) {f : S → α → Prog Res S}
    {J : List α → W → S → Prop} (hstep : ∀ done x w s, Inv w → J done w s →
      Holds Inv Later observe (J (done ++ [x])) w (f s x))
    (hlater : ∀ done s w w', Later w w' → Inv w' → J done w s → J done w' s) (xs : List α) :
    ∀ done s w, Inv w → J done w s →
      Holds Inv Later observe (J (done ++ xs)) w (xs.foldlM f s) := by
  induction xs with
  | nil =>
    intro done s w _ h w' hl hinv
    rw [List.append_nil]
    exact hlater done s w w' hl hinv h
  | cons x xs ih =>
    intro done s w hw h
    rw [List.append_cons, List.foldlM_cons]
    refine (hstep done x w s hw h).bind ho hw fun w' s' _ hw' hs' => ?_
    exact ih (done ++ [x]) s' w' hw' (hs' w' (ho.refl w') hw')

end Holds

/-! ## A responder -/

section Responder
variable {W Rq : Type}

/-- A request that is being answered. -/
structure Task (W Rq : Type) (Res : Op → Type) (R : Type) where
  request : Rq
  /-- The world when the request was taken. -/
  since : W
  rest : Prog Res R

structure Responder (W Rq : Type) (Res : Op → Type) (R : Type) where
  world : W
  running : List (Task W Rq Res R)

inductive ResponderEvent (W Rq R : Type) where
  | change
  | start (request : Rq)
  /-- The request is turned away. -/
  | shed (request : Rq)
  | read
  | finish (request : Rq) (since : W) (answer : R)

/-- **The steps of a responder** with a limit on the programs that run at once. -/
inductive Responder.Step (Change : W → W → Prop) (observe : (op : Op) → W → Res op)
    (program : Rq → Prog Res R) (limit : Nat) :
    Responder W Rq Res R → ResponderEvent W Rq R → Responder W Rq Res R → Prop
  | change {s : Responder W Rq Res R} {world : W} (change : Change s.world world) :
      Step Change observe program limit s .change { s with world }
  | start {s : Responder W Rq Res R} (request : Rq) (room : s.running.length < limit) :
      Step Change observe program limit s (.start request)
        { s with running := s.running ++ [⟨request, s.world, program request⟩] }
  | shed {s : Responder W Rq Res R} (request : Rq) (full : limit ≤ s.running.length) :
      Step Change observe program limit s (.shed request) s
  | read {s : Responder W Rq Res R} {before after : List (Task W Rq Res R)} {request : Rq}
      {since : W} {op : Op} {next : Res op → Prog Res R}
      (runs : s.running = before ++ ⟨request, since, .read op next⟩ :: after) :
      Step Change observe program limit s .read
        { s with running := before ++ ⟨request, since, next (observe op s.world)⟩ :: after }
  | finish {s : Responder W Rq Res R} {before after : List (Task W Rq Res R)} {request : Rq}
      {since : W} {answer : R}
      (runs : s.running = before ++ ⟨request, since, .pure answer⟩ :: after) :
      Step Change observe program limit s (.finish request since answer)
        { s with running := before ++ after }

/-- What is needed of the world and of the programs. -/
structure Responder.Correct (Inv : W → Prop) (Later Change : W → W → Prop)
    (observe : (op : Op) → W → Res op) (program : Rq → Prog Res R) (Q : Rq → W → W → R → Prop) :
    Prop where
  order : WorldOrder Later
  change : ∀ {w w'}, Inv w → Change w w' → Inv w' ∧ Later w w'
  program : ∀ request w, Inv w → Holds Inv Later observe (Q request w) w (program request)

/-- The invariant of a responder. -/
structure Responder.Sound (Inv : W → Prop) (Later : W → W → Prop) (observe : (op : Op) → W → Res op)
    (limit : Nat) (Q : Rq → W → W → R → Prop) (s : Responder W Rq Res R) : Prop where
  world : Inv s.world
  running : ∀ x ∈ s.running, Later x.since s.world ∧
    Holds Inv Later observe (Q x.request x.since) s.world x.rest
  limit : s.running.length ≤ limit

variable {Inv : W → Prop} {Later Change : W → W → Prop} {observe : (op : Op) → W → Res op}
  {program : Rq → Prog Res R} {limit : Nat} {Q : Rq → W → W → R → Prop}

theorem mem_of_mem_others {x y : S} {before after : List S} (h : x ∈ before ++ after) :
    x ∈ before ++ y :: after := by
  rcases List.mem_append.mp h with hb | ha
  · exact List.mem_append_left _ hb
  · exact List.mem_append_right _ (List.mem_cons_of_mem _ ha)

/-- **One step of a responder.** -/
theorem Responder.Sound.step (hc : Responder.Correct Inv Later Change observe program Q)
    {s s' : Responder W Rq Res R} {e : ResponderEvent W Rq R}
    (h : s.Sound Inv Later observe limit Q)
    (hstep : Responder.Step Change observe program limit s e s') :
    s'.Sound Inv Later observe limit Q := by
  cases hstep with
  | change change =>
    obtain ⟨hinv, hlater⟩ := hc.change h.world change
    refine ⟨hinv, fun x hx => ?_, h.limit⟩
    obtain ⟨hsince, hholds⟩ := h.running x hx
    exact ⟨hc.order.trans hsince hlater, hholds.later hc.order hlater⟩
  | start request room =>
    refine ⟨h.world, fun x hx => ?_, ?_⟩
    · rcases List.mem_append.mp hx with hold | hnew
      · exact h.running x hold
      · obtain rfl := List.mem_singleton.mp hnew
        exact ⟨hc.order.refl s.world, hc.program request s.world h.world⟩
    · rw [List.length_append]
      exact room
  | shed request full => exact h
  | @read before after request since op next runs =>
    have hrunning := h.running
    have hlimit := h.limit
    rw [runs] at hrunning hlimit
    refine ⟨h.world, fun x hx => ?_, by simpa using hlimit⟩
    rcases List.mem_append.mp hx with hb | ha
    · exact hrunning x (mem_of_mem_others (List.mem_append_left _ hb))
    · rcases List.mem_cons.mp ha with rfl | ha
      · obtain ⟨hsince, hholds⟩ := hrunning _ List.mem_append_cons_self
        exact ⟨hsince, hholds s.world (hc.order.refl _) h.world⟩
      · exact hrunning x (mem_of_mem_others (List.mem_append_right _ ha))
  | @finish before after request since answer runs =>
    have hrunning := h.running
    have hlimit := h.limit
    rw [runs] at hrunning hlimit
    refine ⟨h.world, fun x hx => hrunning x (mem_of_mem_others hx), ?_⟩
    simp only [List.length_append, List.length_cons] at hlimit ⊢
    omega

/-- **Every answer of a responder is as its program says**, and no more programs run than the limit
allows, in every interleaving. -/
theorem Responder.answers (hc : Responder.Correct Inv Later Change observe program Q) {w₀ : W}
    (hinv : Inv w₀) {history : List (Responder W Rq Res R × ResponderEvent W Rq R)}
    {s : Responder W Rq Res R}
    (hrun : Run (Responder.Step Change observe program limit) unguarded ⟨w₀, []⟩ history s) :
    s.Sound Inv Later observe limit Q ∧
    ∀ x ∈ history, x.1.Sound Inv Later observe limit Q ∧
      ∀ request since answer, x.2 = .finish request since answer →
        Later since x.1.world ∧ Q request since x.1.world answer := by
  induction hrun with
  | start => exact ⟨⟨hinv, nofun, Nat.zero_le _⟩, nofun⟩
  | @step history s s' e _ _ hstep ih =>
    obtain ⟨hsound, hearlier⟩ := ih
    refine ⟨hsound.step hc hstep, fun x hx => ?_⟩
    rcases List.mem_append.mp hx with hold | hnew
    · exact hearlier x hold
    · obtain rfl := List.mem_singleton.mp hnew
      refine ⟨hsound, fun request since answer hfinish => ?_⟩
      dsimp only at hfinish
      subst hfinish
      cases hstep with
      | finish runs =>
        have hmem : ⟨request, since, .pure answer⟩ ∈ s.running := runs ▸ List.mem_append_cons_self
        obtain ⟨hsince, hholds⟩ := hsound.running _ hmem
        exact ⟨hsince, hholds s.world (hc.order.refl _) hsound.world⟩

end Responder

/-! ## Worlds with a past -/

/-- A world and its past, newest first. -/
structure Timeline (W : Type) where
  now : W
  past : List W

namespace Timeline
variable {W : Type} {Step : W → W → Prop} {w₀ : W} {t t' t'' : Timeline W}

def worlds (t : Timeline W) : List W := t.now :: t.past

def extend (t : Timeline W) (w : W) : Timeline W := ⟨w, t.worlds⟩

/-- The past of the later one goes through the earlier one. -/
def Later (t t' : Timeline W) : Prop := t.worlds <:+ t'.worlds

/-- **A world of the time between.** -/
def During (since t : Timeline W) (w : W) : Prop :=
  ∃ t', Later since t' ∧ Later t' t ∧ t'.now = w

/-- Each world is a step from the one before. -/
inductive Valid (Step : W → W → Prop) (w₀ : W) : Timeline W → Prop
  | start : Valid Step w₀ ⟨w₀, []⟩
  | extend {t : Timeline W} {w : W} (h : Valid Step w₀ t) (step : Step t.now w) :
      Valid Step w₀ (t.extend w)

/-- The timeline grows by a step. -/
def Change (Step : W → W → Prop) (t t' : Timeline W) : Prop :=
  ∃ w, Step t.now w ∧ t' = t.extend w

theorem order : WorldOrder (Later (W := W)) :=
  ⟨fun t => List.suffix_refl t.worlds, List.IsSuffix.trans⟩

theorem later_extend (t : Timeline W) (w : W) : Later t (t.extend w) := List.suffix_cons w t.worlds

theorem worlds_injective : Function.Injective (worlds (W := W)) := by
  rintro ⟨now, past⟩ ⟨now', past'⟩ h
  obtain ⟨rfl, rfl⟩ := List.cons.inj h
  rfl

theorem later_extend_iff {w : W} :
    Later t (t'.extend w) ↔ t = t'.extend w ∨ Later t t' := by
  rw [Later, ← worlds_injective.eq_iff]
  exact List.suffix_cons_iff

theorem later_start_iff {w : W} : Later t ⟨w, []⟩ ↔ t = ⟨w, []⟩ := by
  rw [Later, ← worlds_injective.eq_iff]
  refine List.suffix_cons_iff.trans (or_iff_left ?_)
  intro h
  cases List.suffix_nil.mp h

theorem during_now {since : Timeline W} (hsince : Later since t) (hlater : Later t t') :
    During since t' t.now := ⟨t, hsince, hlater, rfl⟩

theorem During.mono {since : Timeline W} {w : W} (h : During since t w) (hlater : Later t t') :
    During since t' w := by
  obtain ⟨t₁, hsince, h₁, rfl⟩ := h
  exact during_now hsince (order.trans h₁ hlater)

theorem Valid.change (h : Valid Step w₀ t) (hchange : Change Step t t') :
    Valid Step w₀ t' ∧ Later t t' := by
  obtain ⟨w, hstep, rfl⟩ := hchange
  exact ⟨.extend h hstep, later_extend t w⟩

/-- What every step keeps is true now. -/
theorem Valid.invariant {P : W → Prop} (h : Valid Step w₀ t) (hstart : P w₀)
    (hstep : ∀ w w', P w → Step w w' → P w') : P t.now := by
  induction h with
  | start => exact hstart
  | extend _ step ih => exact hstep _ _ ih step

/-- **What relates the worlds of each step** relates every earlier world with the later ones. -/
theorem Valid.related {P : W → Prop} {G : W → W → Prop} (h : Valid Step w₀ t')
    (hlater : Later t t') (hstart : P w₀) (hstep : ∀ w w', P w → Step w w' → P w' ∧ G w w')
    (hrefl : ∀ w, G w w) (htrans : ∀ a b c, G a b → G b c → G a c) : G t.now t'.now := by
  induction h with
  | start =>
    rw [later_start_iff.mp hlater]
    exact hrefl w₀
  | @extend t' w h step ih =>
    rcases later_extend_iff.mp hlater with rfl | hlater
    · exact hrefl _
    · have hP := h.invariant hstart fun w w' hP hs => (hstep w w' hP hs).1
      exact htrans _ _ _ (ih hlater) (hstep _ _ hP step).2

end Timeline

end Readers
