/-! # Binary codecs

A *reader* takes a value off the front of a byte string and leaves the rest, or fails.  It
*reads* `bytes` as `x` if it yields `x` on `bytes` followed by anything and leaves what follows
(`Reads`); readers that read their parts read the parts one after the other (`Reads.bind`).

A *codec* is a writer with a reader that reads back what was written, as a field.  So the
encodings of different values are different, and none starts with another one
(`Codec.write_append_inj`).
-/
namespace Codecs
variable {ε α β : Type}

/-- A reader of a byte string. -/
abbrev Reader (ε α : Type) := StateT (List UInt8) (Except ε) α

/-- **`r` reads `bytes` as `x`**, whatever comes after them. -/
def Reads (r : Reader ε α) (bytes : List UInt8) (x : α) : Prop :=
  ∀ rest, r.run (bytes ++ rest) = .ok (x, rest)

theorem Reads.pure (x : α) : Reads (pure x : Reader ε α) [] x := fun _ => rfl

/-- **One part after the other.** -/
theorem Reads.bind {r : Reader ε α} {f : α → Reader ε β} {bytes bytes' : List UInt8} {x : α} {y : β}
    (h : Reads r bytes x) (h' : Reads (f x) bytes' y) : Reads (r >>= f) (bytes ++ bytes') y := by
  intro rest
  rw [List.append_assoc, StateT.run_bind, h]
  exact h' rest

/-- The last part, after which the value is complete. -/
theorem Reads.map {r : Reader ε α} {bytes : List UInt8} {x : α} (h : Reads r bytes x) (f : α → β) :
    Reads (f <$> r) bytes (f x) := by
  intro rest
  rw [StateT.run_map, h]
  rfl

/-- Reads a value off a whole byte string, and ignores what follows. -/
def readAll (r : Reader ε α) (bytes : List UInt8) : Except ε α := (r.run bytes).map Prod.fst

theorem Reads.readAll {r : Reader ε α} {bytes : List UInt8} {x : α} (h : Reads r bytes x) :
    readAll r bytes = .ok x := by
  have hread := h []
  rw [List.append_nil] at hread
  rw [Codecs.readAll, hread]
  rfl

/-- Reads one byte; `eof` is the error at the end of the input. -/
def readU8 (eof : ε) : Reader ε UInt8 := fun bytes =>
  match bytes with
  | [] => .error eof
  | byte :: rest => .ok (byte, rest)

theorem reads_readU8 (eof : ε) (byte : UInt8) : Reads (readU8 eof) [byte] byte := fun _ => rfl

/-- **A codec**: what is written is read back. -/
structure Codec (ε α : Type) where
  write : α → List UInt8
  read : Reader ε α
  reads : ∀ x, Reads read (write x) x

namespace Codec

/-- **Encodings are distinct, and none is the start of another one.** -/
theorem write_append_inj (c : Codec ε α) {x y : α} {rest rest' : List UInt8}
    (h : c.write x ++ rest = c.write y ++ rest') : x = y ∧ rest = rest' := by
  have hx := c.reads x rest
  rw [h, c.reads y rest'] at hx
  cases hx
  exact ⟨rfl, rfl⟩

theorem eq_of_write_start (c : Codec ε α) {x y : α} (h : c.write x <+: c.write y) : x = y := by
  obtain ⟨rest, hrest⟩ := h
  have heq : c.write x ++ rest = c.write y ++ [] := by
    rw [List.append_nil]
    exact hrest
  exact (c.write_append_inj heq).1

theorem write_injective (c : Codec ε α) : Function.Injective c.write := fun _ _ h =>
  c.eq_of_write_start (h ▸ List.prefix_refl _)

theorem readAll_write (c : Codec ε α) (x : α) : readAll c.read (c.write x) = .ok x :=
  (c.reads x).readAll

/-! ### A few codecs -/

theorem reads_ofLeftInverse (c : Codec ε β) {f : α → β} {g : β → α} (h : ∀ x, g (f x) = x)
    (x : α) : Reads (g <$> c.read) (c.write (f x)) x := by
  have hmap := (c.reads (f x)).map g
  rw [h] at hmap
  exact hmap

/-- A codec of a type whose values are found among those of another one. -/
def ofLeftInverse (c : Codec ε β) (f : α → β) (g : β → α) (h : ∀ x, g (f x) = x) : Codec ε α where
  write := fun x => c.write (f x)
  read := g <$> c.read
  reads := reads_ofLeftInverse c h

/-- Reads a number in unary. -/
def readNat (eof : ε) : Reader ε Nat := fun bytes =>
  match bytes with
  | [] => .error eof
  | byte :: rest => if byte = 0 then .ok (0, rest) else
      match readNat eof rest with
      | .ok (n, rest) => .ok (n + 1, rest)
      | .error e => .error e

theorem reads_readNat (eof : ε) (n : Nat) : Reads (readNat eof) (List.replicate n 1 ++ [0]) n := by
  intro rest
  induction n with
  | zero => rfl
  | succ n ih =>
    have htail : readNat eof (List.replicate n 1 ++ [0] ++ rest) = .ok (n, rest) := ih
    show readNat eof (1 :: (List.replicate n 1 ++ [0] ++ rest)) = _
    rw [readNat, if_neg (by decide), htail]

/-- Numbers in unary. -/
def nat (eof : ε) : Codec ε Nat where
  write := fun n => List.replicate n 1 ++ [0]
  read := readNat eof
  reads := reads_readNat eof

/-- Reads `n` values. -/
def readMany (r : Reader ε α) : Nat → Reader ε (List α)
  | 0 => pure []
  | n + 1 => do
    let x ← r
    let xs ← readMany r n
    return x :: xs

theorem reads_readMany (c : Codec ε α) (xs : List α) :
    Reads (readMany c.read xs.length) (xs.flatMap c.write) xs := by
  induction xs with
  | nil => exact .pure []
  | cons x xs ih => exact (c.reads x).bind (ih.map (x :: ·))

theorem reads_list (eof : ε) (c : Codec ε α) (xs : List α) :
    Reads ((nat eof).read >>= readMany c.read)
      ((nat eof).write xs.length ++ xs.flatMap c.write) xs :=
  ((nat eof).reads xs.length).bind (reads_readMany c xs)

/-- Lists, with their length first. -/
def list (eof : ε) (c : Codec ε α) : Codec ε (List α) where
  write := fun xs => (nat eof).write xs.length ++ xs.flatMap c.write
  read := (nat eof).read >>= readMany c.read
  reads := reads_list eof c

end Codec

end Codecs
