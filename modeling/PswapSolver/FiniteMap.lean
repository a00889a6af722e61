import Mathlib.Data.Finmap
import Mathlib.Tactic.Abel
import Mathlib.Algebra.Order.BigOperators.Group.Finset

/-! # Finite maps and their totals

A finite map is Mathlib's `Finmap` with a constant value type.  This module adds
what a state machine over such maps needs beyond the library: the point updates
as `if` expressions, an in-place `modify` and `mapWithKey`, and `total`, the sum of a weight over
the entries, with its change under an insertion, an overwrite and an erasure.
-/

/-- A finite map from `α` to `β`. -/
abbrev FiniteMap (α β : Type) := Finmap (fun _ : α => β)

namespace FiniteMap
variable {α β : Type} [DecidableEq α]

theorem lookup_insert_if (m : FiniteMap α β) (k k' : α) (v : β) :
    (m.insert k v).lookup k' = if k' = k then some v else m.lookup k' := by
  by_cases h : k' = k
  · subst h
    rw [if_pos rfl, Finmap.lookup_insert]
  · rw [if_neg h, Finmap.lookup_insert_of_ne _ h]

theorem lookup_erase_if (m : FiniteMap α β) (k k' : α) :
    (m.erase k).lookup k' = if k' = k then none else m.lookup k' := by
  by_cases h : k' = k
  · subst h
    rw [if_pos rfl, Finmap.lookup_erase]
  · rw [if_neg h, Finmap.lookup_erase_ne h]

theorem mem_of_lookup {m : FiniteMap α β} {k : α} {v : β} (h : m.lookup k = some v) : k ∈ m :=
  Finmap.mem_of_lookup_eq_some h

@[simp] theorem keys_insert (m : FiniteMap α β) (k : α) (v : β) :
    (m.insert k v).keys = insert k m.keys := by
  ext a
  rw [Finmap.mem_keys, Finmap.mem_insert, Finset.mem_insert, Finmap.mem_keys]

theorem keys_insert_of_mem {m : FiniteMap α β} {k : α} (h : k ∈ m) (v : β) :
    (m.insert k v).keys = m.keys := by
  rw [keys_insert, Finset.insert_eq_of_mem (Finmap.mem_keys.mpr h)]

/-- Writing back the value that is there changes nothing. -/
theorem insert_of_lookup {m : FiniteMap α β} {k : α} {v : β} (h : m.lookup k = some v) :
    m.insert k v = m := Finmap.ext_lookup fun a => by
  rw [lookup_insert_if]
  split
  · rename_i ha
    rw [ha, h]
  · rfl

/-- Rewrites the value at `k`, if there is one. -/
def modify (m : FiniteMap α β) (k : α) (f : β → β) : FiniteMap α β :=
  match m.lookup k with
  | some v => m.insert k (f v)
  | none => m

theorem lookup_modify (m : FiniteMap α β) (k k' : α) (f : β → β) :
    (m.modify k f).lookup k' = if k' = k then (m.lookup k).map f else m.lookup k' := by
  unfold modify
  cases h : m.lookup k with
  | none =>
    by_cases hk : k' = k
    · subst hk
      simp [h]
    · simp [hk]
  | some v => simp [lookup_insert_if]

@[simp] theorem keys_modify (m : FiniteMap α β) (k : α) (f : β → β) :
    (m.modify k f).keys = m.keys := by
  unfold modify
  cases h : m.lookup k with
  | none => rfl
  | some v => exact keys_insert_of_mem (mem_of_lookup h) _

theorem mem_modify {m : FiniteMap α β} {k k' : α} {f : β → β} :
    k' ∈ m.modify k f ↔ k' ∈ m := by
  rw [← Finmap.mem_keys, keys_modify, Finmap.mem_keys]

/-- Rewrites every value. -/
def mapWithKey (m : FiniteMap α β) (f : α → β → β) : FiniteMap α β where
  entries := m.entries.map fun e => ⟨e.1, f e.1 e.2⟩
  nodupKeys := by
    have h := m.nodupKeys
    rw [← Multiset.nodup_keys] at h ⊢
    simpa [Multiset.keys, Multiset.map_map, Function.comp_def] using h

theorem lookup_mapWithKey (m : FiniteMap α β) (f : α → β → β) (k : α) :
    (m.mapWithKey f).lookup k = (m.lookup k).map (f k) := by
  refine Option.ext fun v => ?_
  rw [Finmap.lookup_eq_some_iff, Option.map_eq_some_iff]
  simp only [Finmap.lookup_eq_some_iff, mapWithKey, Multiset.mem_map]
  constructor
  · rintro ⟨⟨k', w⟩, hmem, heq⟩
    cases heq
    exact ⟨w, hmem, rfl⟩
  · rintro ⟨w, hmem, rfl⟩
    exact ⟨⟨k, w⟩, hmem, rfl⟩

/-- Rewrites every value, possibly to another type. -/
def mapValues {γ : Type} (m : FiniteMap α β) (f : β → γ) : FiniteMap α γ where
  entries := m.entries.map fun e => ⟨e.1, f e.2⟩
  nodupKeys := by
    have h := m.nodupKeys
    rw [← Multiset.nodup_keys] at h ⊢
    simpa [Multiset.keys, Multiset.map_map, Function.comp_def] using h

/-- Inserts the value that `f` has for a key, if any. -/
def insertSome (f : α → Option β) (m : FiniteMap α β) (k : α) : FiniteMap α β :=
  match f k with
  | some v => m.insert k v
  | none => m

theorem lookup_insertSome (f : α → Option β) (m : FiniteMap α β) (k k' : α) :
    (insertSome f m k).lookup k' = if k' = k then (f k).or (m.lookup k) else m.lookup k' := by
  unfold insertSome
  cases f k with
  | none =>
    by_cases h : k' = k
    · rw [if_pos h, h, Option.none_or]
    · rw [if_neg h]
  | some v =>
    rw [Option.some_or]
    exact lookup_insert_if m k k' v

/-- The keys of a list for which `f` has a value, with it. -/
def collect (f : α → Option β) (keys : List α) : FiniteMap α β := keys.foldl (insertSome f) ∅

theorem lookup_foldl_insertSome (f : α → Option β) (keys : List α) (k : α) :
    ∀ m : FiniteMap α β, (keys.foldl (insertSome f) m).lookup k =
      if k ∈ keys then (f k).or (m.lookup k) else m.lookup k := by
  induction keys with
  | nil => intro m; rfl
  | cons x keys ih =>
    intro m
    rw [List.foldl_cons, ih, lookup_insertSome]
    by_cases hk : k = x
    · subst hk
      cases f k <;> simp
    · simp [hk]

theorem lookup_collect (f : α → Option β) (keys : List α) (k : α) :
    (collect f keys).lookup k = if k ∈ keys then f k else none := by
  rw [collect, lookup_foldl_insertSome, Finmap.lookup_empty, Option.or_none]

/-! ## Totals -/

section Total
variable {M : Type} [AddCommMonoid M]

/-- The sum of `f k v` over the entries `k ↦ v`. -/
def total (m : FiniteMap α β) (f : α → β → M) : M :=
  ∑ k ∈ m.keys, ((m.lookup k).map (f k)).getD 0

@[simp] theorem total_empty (f : α → β → M) : total (∅ : FiniteMap α β) f = 0 := by
  simp [total]

theorem total_erase_add {m : FiniteMap α β} {k : α} {v : β} (h : m.lookup k = some v)
    (f : α → β → M) : total (m.erase k) f + f k v = total m f := by
  have hk : k ∈ m.keys := Finmap.mem_keys.mpr (mem_of_lookup h)
  unfold total
  rw [Finmap.keys_erase, ← Finset.sum_erase_add _ _ hk, h]
  refine congrArg₂ (· + ·) (Finset.sum_congr rfl ?_) rfl
  intro a ha
  rw [Finmap.lookup_erase_ne (Finset.ne_of_mem_erase ha)]

/-- A new entry adds its weight. -/
theorem total_insert_of_notMem {m : FiniteMap α β} {k : α} (h : k ∉ m) (v : β) (f : α → β → M) :
    total (m.insert k v) f = total m f + f k v := by
  have herase : (m.insert k v).erase k = m := Finmap.ext_lookup fun a => by
    rw [lookup_erase_if, lookup_insert_if]
    split
    · rename_i ha
      rw [ha, Finmap.lookup_eq_none.mpr h]
    · rfl
  rw [← total_erase_add (Finmap.lookup_insert m) f, herase]

/-- Maps with entries of the same weights have the same total. -/
theorem total_congr {m m' : FiniteMap α β} {f : α → β → M}
    (h : ∀ k, (m.lookup k).map (f k) = (m'.lookup k).map (f k)) : total m f = total m' f := by
  have hkeys : m.keys = m'.keys := by
    ext k
    rw [Finmap.mem_keys, Finmap.mem_keys, ← Finmap.lookup_isSome, ← Finmap.lookup_isSome,
      ← Option.isSome_map, h k, Option.isSome_map]
  unfold total
  rw [hkeys]
  exact Finset.sum_congr rfl fun k _ => by rw [h k]

theorem total_mono {m : FiniteMap α β} {f g : α → β → Nat}
    (h : ∀ k v, m.lookup k = some v → f k v ≤ g k v) : total m f ≤ total m g := by
  refine Finset.sum_le_sum fun k _ => ?_
  cases hk : m.lookup k with
  | none => exact Nat.le_refl _
  | some v => exact h k v hk

/-- Some of the entries weigh no more than all of them. -/
theorem sum_le_total {m : FiniteMap α β} {S : Finset α} (hS : S ⊆ m.keys) (f : α → β → Nat) :
    ∑ k ∈ S, ((m.lookup k).map (f k)).getD 0 ≤ total m f :=
  Finset.sum_le_sum_of_subset hS

/-- Overwriting a value exchanges its weight for the new one. -/
theorem total_insert_of_lookup {m : FiniteMap α β} {k : α} {v : β} (h : m.lookup k = some v)
    (v' : β) (f : α → β → M) :
    total (m.insert k v') f + f k v = total m f + f k v' := by
  have herase : (m.insert k v').erase k = m.erase k := Finmap.ext_lookup fun a => by
    rw [lookup_erase_if, lookup_insert_if, lookup_erase_if]
    split <;> rfl
  rw [← total_erase_add (Finmap.lookup_insert m) f, ← total_erase_add h f, herase]
  exact add_right_comm _ _ _

/-- Overwriting two values, with weights that differ at these two keys only. -/
theorem total_insert_insert {m : FiniteMap α β} {x y : α} {v w : β} (hne : x ≠ y)
    (hx : m.lookup x = some v) (hy : m.lookup y = some w) (v' w' : β) (f f' : α → β → M)
    (hf : ∀ k, k ≠ x → k ≠ y → f' k = f k) :
    total ((m.insert x v').insert y w') f' + f x v + f y w = total m f + f' x v' + f' y w' := by
  have hy' : (m.erase x).lookup y = some w := by rw [Finmap.lookup_erase_ne hne.symm, hy]
  have hx' : ((m.insert x v').insert y w').lookup x = some v' := by
    rw [Finmap.lookup_insert_of_ne _ hne, Finmap.lookup_insert]
  have hy'' : (((m.insert x v').insert y w').erase x).lookup y = some w' := by
    rw [Finmap.lookup_erase_ne hne.symm, Finmap.lookup_insert]
  have hlookup : ∀ a, ((((m.insert x v').insert y w').erase x).erase y).lookup a =
      ((m.erase x).erase y).lookup a := fun a => by
    simp only [lookup_erase_if, lookup_insert_if]
    split
    · rfl
    · split <;> rfl
  have hrest : total ((((m.insert x v').insert y w').erase x).erase y) f' =
      total ((m.erase x).erase y) f := by
    rw [Finmap.ext_lookup hlookup]
    refine Finset.sum_congr rfl fun k hk => ?_
    rw [Finmap.keys_erase, Finmap.keys_erase, Finset.mem_erase, Finset.mem_erase] at hk
    rw [hf k hk.2.1 hk.1]
  rw [← total_erase_add hx' f', ← total_erase_add hy'' f', ← total_erase_add hx f,
    ← total_erase_add hy' f, hrest]
  abel

end Total

end FiniteMap
