import Mathlib.Data.ZMod.Basic

/-! # A stack machine with memory and advice

A machine over a prime field, or any `ZMod p`: an operand stack that is never less than 16
deep and is filled up with zeros from below, a memory of elements, and an advice stack that
can be filled from a map.  Programs are straight-line blocks, sequences and `while.true`
loops, which take their flag off the stack.  A procedure that is executed inline acts on the
caller's stack and reads its memory; a procedure that is called gets the top 16 elements and
returns 16 others.  What procedures do is not part of the machine but of its environment
(`Env`).  The elements read off the advice stack and the calls are recorded.

The interpreter `run` takes fuel, and a program runs to a state if it does so with some fuel
(`Runs`); the state is then the only one (`Runs.unique`).  A loop that handles the items of a
list one by one is treated by one rule (`Runs.forEach`), which is about total correctness: the
loop ends.
-/
namespace StackMachine

/-- Four elements.  On a stack the first one is on top, in memory it has the lowest address. -/
structure Word (p : ℕ) where
  e0 : ZMod p
  e1 : ZMod p
  e2 : ZMod p
  e3 : ZMod p
deriving DecidableEq

namespace Word
variable {p : ℕ}

def elements (w : Word p) : List (ZMod p) := [w.e0, w.e1, w.e2, w.e3]

def reverse (w : Word p) : Word p := ⟨w.e3, w.e2, w.e1, w.e0⟩

@[simp] theorem length_elements (w : Word p) : w.elements.length = 4 := rfl

end Word

/-! ## Memory -/

section Memory
variable {p : ℕ}

def readWord (memory : ℕ → ZMod p) (a : ℕ) : Word p :=
  ⟨memory a, memory (a + 1), memory (a + 2), memory (a + 3)⟩

def writeWord (memory : ℕ → ZMod p) (a : ℕ) (w : Word p) : ℕ → ZMod p := fun i =>
  if i = a then w.e0
  else if i = a + 1 then w.e1
  else if i = a + 2 then w.e2
  else if i = a + 3 then w.e3
  else memory i

@[simp] theorem readWord_writeWord (memory : ℕ → ZMod p) (a : ℕ) (w : Word p) :
    readWord (writeWord memory a w) a = w := by
  simp [readWord, writeWord]

theorem writeWord_of_outside {memory : ℕ → ZMod p} {a i : ℕ} {w : Word p}
    (h : i < a ∨ a + 4 ≤ i) : writeWord memory a w i = memory i := by
  unfold writeWord
  rw [if_neg (by omega), if_neg (by omega), if_neg (by omega), if_neg (by omega)]

/-- Writing a word leaves the other words alone. -/
theorem readWord_of_outside {memory : ℕ → ZMod p} {a b : ℕ} {w : Word p}
    (h : b + 4 ≤ a ∨ a + 4 ≤ b) : readWord (writeWord memory a w) b = readWord memory b := by
  unfold readWord
  rw [writeWord_of_outside (by omega), writeWord_of_outside (by omega),
    writeWord_of_outside (by omega), writeWord_of_outside (by omega)]

end Memory

/-! ## The machine -/

/-- The instructions.  `P` are the names of procedures. -/
inductive Instr (p : ℕ) (P : Type) where
  | push (x : ZMod p)
  | padw
  | drop
  | dropw
  | dup (n : ℕ)
  | swap
  | movup (n : ℕ)
  | movdn (n : ℕ)
  | swapdw
  | add (x : ZMod p)
  | sub (x : ZMod p)
  | neq
  | neqImm (x : ZMod p)
  | assert
  | advPushMapval
  | advPush
  | advLoadw
  | memStorewLe
  | exec (proc : P)
  | call (proc : P)

/-- A state of the machine.  `read` and `calls` record what was read off the advice stack, and
which procedures were called with which 16 elements. -/
structure State (p : ℕ) (P : Type) where
  stack : List (ZMod p)
  memory : ℕ → ZMod p
  advice : List (ZMod p)
  adviceMap : Word p → Option (List (ZMod p))
  read : List (ZMod p)
  calls : List (P × List (ZMod p))

/-- What the procedures do: inline ones to the stack, given the memory, and called ones to the
top of the stack, given the calls before. -/
structure Env (p : ℕ) (P : Type) where
  exec : P → List (ZMod p) → (ℕ → ZMod p) → Option (List (ZMod p))
  call : P → List (P × List (ZMod p)) → List (ZMod p) → List (ZMod p)
  call_length : ∀ proc calls frame, (call proc calls frame).length = 16

section Steps
variable {p : ℕ} {P : Type}

/-- The stack is filled up with zeros to a depth of 16. -/
def settle (s : List (ZMod p)) : List (ZMod p) := s ++ List.replicate (16 - s.length) 0

theorem settle_of_le {s : List (ZMod p)} (h : 16 ≤ s.length) : settle s = s := by
  rw [settle, Nat.sub_eq_zero_of_le h, List.replicate_zero, List.append_nil]

theorem settle_cons {x : ZMod p} {s : List (ZMod p)} (h : 15 ≤ s.length) :
    settle (x :: s) = x :: s :=
  settle_of_le (Nat.succ_le_succ h)

/-- One instruction; nothing if it fails. -/
def step (env : Env p P) (m : State p P) : Instr p P → Option (State p P)
  | .push x => some { m with stack := x :: m.stack }
  | .padw => some { m with stack := 0 :: 0 :: 0 :: 0 :: m.stack }
  | .drop =>
    match m.stack with
    | _ :: s => some { m with stack := settle s }
    | _ => none
  | .dropw =>
    match m.stack with
    | _ :: _ :: _ :: _ :: s => some { m with stack := settle s }
    | _ => none
  | .dup n => m.stack[n]?.map fun x => { m with stack := x :: m.stack }
  | .swap =>
    match m.stack with
    | a :: b :: s => some { m with stack := b :: a :: s }
    | _ => none
  | .movup n => m.stack[n]?.map fun x => { m with stack := x :: m.stack.eraseIdx n }
  | .movdn n =>
    match m.stack with
    | a :: s => some { m with stack := s.insertIdx n a }
    | _ => none
  | .swapdw =>
    some { m with stack := (m.stack.drop 8).take 8 ++ m.stack.take 8 ++ m.stack.drop 16 }
  | .add x =>
    match m.stack with
    | a :: s => some { m with stack := (a + x) :: s }
    | _ => none
  | .sub x =>
    match m.stack with
    | a :: s => some { m with stack := (a - x) :: s }
    | _ => none
  | .neq =>
    match m.stack with
    | b :: a :: s => some { m with stack := settle ((if a = b then 0 else 1) :: s) }
    | _ => none
  | .neqImm x =>
    match m.stack with
    | a :: s => some { m with stack := (if a = x then 0 else 1) :: s }
    | _ => none
  | .assert =>
    match m.stack with
    | a :: s => if a = 1 then some { m with stack := settle s } else none
    | _ => none
  | .advPushMapval =>
    -- the first value of the entry is the first one to be read
    match m.stack with
    | a :: b :: c :: d :: _ =>
      (m.adviceMap ⟨a, b, c, d⟩).map fun values => { m with advice := values ++ m.advice }
    | _ => none
  | .advPush =>
    match m.advice with
    | x :: rest =>
      some { m with stack := x :: m.stack, advice := rest, read := m.read ++ [x] }
    | _ => none
  | .advLoadw =>
    match m.advice, m.stack with
    | a :: b :: c :: d :: rest, _ :: _ :: _ :: _ :: s =>
      some { m with
        stack := a :: b :: c :: d :: s
        advice := rest
        read := m.read ++ [a, b, c, d] }
    | _, _ => none
  | .memStorewLe =>
    -- the address is a `u32` and aligned to words
    match m.stack with
    | address :: a :: b :: c :: d :: s =>
      if address.val < 2 ^ 32 ∧ address.val % 4 = 0 then
        some { m with
          stack := settle (a :: b :: c :: d :: s)
          memory := writeWord m.memory address.val ⟨a, b, c, d⟩ }
      else none
    | _ => none
  | .exec proc => (env.exec proc m.stack m.memory).map fun s => { m with stack := settle s }
  | .call proc =>
    some { m with
      stack := env.call proc m.calls (m.stack.take 16) ++ m.stack.drop 16
      calls := m.calls ++ [(proc, m.stack.take 16)] }

/-- A straight line of instructions. -/
def steps (env : Env p P) : List (Instr p P) → State p P → Option (State p P)
  | [], m => some m
  | i :: is, m => (step env m i).bind (steps env is)

theorem steps_append (env : Env p P) (is js : List (Instr p P)) (m : State p P) :
    steps env (is ++ js) m = (steps env is m).bind (steps env js) := by
  induction is generalizing m with
  | nil => rfl
  | cons i is ih =>
    rw [List.cons_append, steps, steps, Option.bind_assoc]
    exact congrArg (Option.bind (step env m i)) (funext ih)

theorem steps_append_of_some {env : Env p P} {is js : List (Instr p P)} {m m' : State p P}
    (h : steps env is m = some m') : steps env (is ++ js) m = steps env js m' := by
  rw [steps_append, h, Option.bind_some]

theorem step_dropw {env : Env p P} {m : State p P} (h : 4 ≤ m.stack.length) :
    step env m .dropw = some { m with stack := settle (m.stack.drop 4) } := by
  obtain ⟨stack, memory, advice, map, read, calls⟩ := m
  obtain _ | ⟨a, _ | ⟨b, _ | ⟨c, _ | ⟨d, s⟩⟩⟩⟩ := stack
  · simp at h
  · simp at h
  · simp at h
  · simp at h
  · rfl

/-- Dropping the frame that a call returned. -/
theorem steps_dropFrame {env : Env p P} {m : State p P} {frame s : List (ZMod p)}
    (hstack : m.stack = frame ++ s) (hframe : frame.length = 16) (hs : 16 ≤ s.length) :
    steps env [.dropw, .dropw, .dropw, .dropw] m = some { m with stack := s } := by
  obtain ⟨stack, memory, advice, map, read, calls⟩ := m
  obtain rfl : stack = frame ++ s := hstack
  have hdepth : ∀ n, n ≤ 16 → 16 ≤ ((frame ++ s).drop n).length := by
    intro n hn
    rw [List.length_drop, List.length_append]
    omega
  have hstep : ∀ n, n ≤ 12 → step env ⟨(frame ++ s).drop n, memory, advice, map, read, calls⟩
      .dropw = some ⟨(frame ++ s).drop (n + 4), memory, advice, map, read, calls⟩ := by
    intro n hn
    have hlong := hdepth n (by omega)
    rw [step_dropw (by dsimp only; omega), List.drop_drop, settle_of_le (hdepth _ (by omega))]
  have hframe' : (frame ++ s).drop 16 = s := by
    rw [← hframe, List.drop_left]
  simp only [steps]
  have h₀ := hstep 0 (by omega)
  rw [List.drop_zero] at h₀
  rw [h₀, Option.bind_some, hstep 4 (by omega), Option.bind_some, hstep 8 (by omega),
    Option.bind_some, hstep 12 (by omega), Option.bind_some, hframe']

end Steps

/-! ## Programs -/

inductive Code (p : ℕ) (P : Type) where
  | block (is : List (Instr p P))
  | seq (c d : Code p P)
  | whileTrue (body : Code p P)

section Run
variable {p : ℕ} {P : Type} {env : Env p P} {c d body : Code p P} {m m' m₁ m₂ : State p P}
  {s : List (ZMod p)} {fuel fuel' : ℕ}

/-- The interpreter; nothing if an instruction fails or the fuel runs out. -/
def run (env : Env p P) : ℕ → Code p P → State p P → Option (State p P)
  | 0, _, _ => none
  | _ + 1, .block is, m => steps env is m
  | fuel + 1, .seq c d, m => (run env fuel c m).bind (run env fuel d)
  | fuel + 1, .whileTrue body, m =>
    match m.stack with
    | flag :: s =>
      if flag = 1 then
        (run env fuel body { m with stack := settle s }).bind (run env fuel (.whileTrue body))
      else if flag = 0 then some { m with stack := settle s }
      else none
    | _ => none

/-- More fuel does not change the outcome. -/
theorem run_succ (h : run env fuel c m = some m') : run env (fuel + 1) c m = some m' := by
  induction fuel generalizing c m m' with
  | zero => cases h
  | succ fuel ih =>
    cases c with
    | block is => exact h
    | seq c d =>
      obtain ⟨m₁, hc, hd⟩ := Option.bind_eq_some_iff.mp h
      exact Option.bind_eq_some_iff.mpr ⟨m₁, ih hc, ih hd⟩
    | whileTrue body =>
      unfold run at h ⊢
      split at h
      · split at h
        · rename_i hone
          rw [if_pos hone]
          obtain ⟨m₁, hbody, hrest⟩ := Option.bind_eq_some_iff.mp h
          exact Option.bind_eq_some_iff.mpr ⟨m₁, ih hbody, ih hrest⟩
        · rename_i hone
          rw [if_neg hone]
          exact h
      · cases h

theorem run_mono (hle : fuel ≤ fuel') (h : run env fuel c m = some m') :
    run env fuel' c m = some m' := by
  induction hle with
  | refl => exact h
  | step _ ih => exact run_succ ih

/-- **The program runs** from one state to another. -/
def Runs (env : Env p P) (c : Code p P) (m m' : State p P) : Prop :=
  ∃ fuel, run env fuel c m = some m'

/-- **A program runs to one state only.** -/
theorem Runs.unique (h₁ : Runs env c m m₁) (h₂ : Runs env c m m₂) : m₁ = m₂ := by
  obtain ⟨fuel, h₁⟩ := h₁
  obtain ⟨fuel', h₂⟩ := h₂
  have h := run_mono (Nat.le_max_left fuel fuel') h₁
  rw [run_mono (Nat.le_max_right fuel fuel') h₂] at h
  exact (Option.some.inj h).symm

theorem Runs.block {is : List (Instr p P)} (h : steps env is m = some m') :
    Runs env (.block is) m m' := ⟨1, h⟩

theorem Runs.seq (hc : Runs env c m m₁) (hd : Runs env d m₁ m') : Runs env (.seq c d) m m' := by
  obtain ⟨fuel, hc⟩ := hc
  obtain ⟨fuel', hd⟩ := hd
  exact ⟨max fuel fuel' + 1, Option.bind_eq_some_iff.mpr
    ⟨m₁, run_mono (Nat.le_max_left ..) hc, run_mono (Nat.le_max_right ..) hd⟩⟩

/-- A loop whose flag is one runs its body and goes on. -/
theorem Runs.again (h : m.stack = 1 :: s)
    (hbody : Runs env body { m with stack := settle s } m₁)
    (hrest : Runs env (.whileTrue body) m₁ m') : Runs env (.whileTrue body) m m' := by
  obtain ⟨fuel, hbody⟩ := hbody
  obtain ⟨fuel', hrest⟩ := hrest
  refine ⟨max fuel fuel' + 1, ?_⟩
  unfold run
  rw [h]
  dsimp only
  rw [if_pos rfl]
  exact Option.bind_eq_some_iff.mpr
    ⟨m₁, run_mono (Nat.le_max_left ..) hbody, run_mono (Nat.le_max_right ..) hrest⟩

variable [Nontrivial (ZMod p)]

/-- A loop whose flag is zero ends. -/
theorem Runs.exit (h : m.stack = 0 :: s) :
    Runs env (.whileTrue body) m { m with stack := settle s } := by
  refine ⟨1, ?_⟩
  unfold run
  rw [h]
  dsimp only
  rw [if_neg zero_ne_one, if_pos rfl]

/-- **A loop over a list.**  The invariant is about the items done and the items left.  If with
items left the flag is one and the body does the next item, and with none left the flag is zero,
the loop ends, and there all items are done. -/
theorem Runs.forEach {α : Type} {inv : List α → List α → State p P → Prop}
    (next : ∀ {done item todo m}, inv done (item :: todo) m → ∃ s m', m.stack = 1 :: s ∧
      Runs env body { m with stack := settle s } m' ∧ inv (done ++ [item]) todo m')
    (stop : ∀ {done m}, inv done [] m → ∃ s, m.stack = 0 :: s) {done todo : List α}
    (h : inv done todo m) : ∃ m', inv (done ++ todo) [] m' ∧
      Runs env (.whileTrue body) m { m' with stack := settle m'.stack.tail } := by
  induction todo generalizing done m with
  | nil =>
    obtain ⟨s, hs⟩ := stop h
    rw [List.append_nil]
    refine ⟨m, h, ?_⟩
    rw [hs, List.tail_cons]
    exact .exit hs
  | cons item todo ih =>
    obtain ⟨s, m₁, hs, hbody, hinv⟩ := next h
    obtain ⟨m', hend, hrest⟩ := ih hinv
    rw [List.append_assoc, List.singleton_append] at hend
    exact ⟨m', hend, .again hs hbody hrest⟩

end Run

end StackMachine
