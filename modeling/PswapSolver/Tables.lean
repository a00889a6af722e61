import PswapSolver.FiniteMap

/-! # Tables with a primary key

A table of a relational database is a list of rows with distinct keys that all pass the CHECK
constraint of the table.  Both are fields, so that no statement can break them: a statement that
would do so skips the row or is refused, as SQL has it.

A table *represents* a finite map if its keys are the encoded keys of the map and each row codes
the value under its key (`Represents`).  The statements are then the operations of the map:
`Represents.insertOrIgnore`, `Represents.update`, and `Represents.joined` for what a join on the
keys lists.
-/
namespace Tables
variable {Row Row' Key : Type}

/-- A primary key and a CHECK constraint. -/
structure Schema (Row Key : Type) where
  key : Row → Key
  check : Row → Bool

/-- **A table**: distinct keys, and the constraint holds. -/
structure Table (σ : Schema Row Key) where
  rows : List Row
  nodup : (rows.map σ.key).Nodup
  checked : ∀ row ∈ rows, σ.check row = true

namespace Table
variable {σ : Schema Row Key} {σ' : Schema Row' Key}

/-- The table after `CREATE TABLE`. -/
def empty (σ : Schema Row Key) : Table σ := ⟨[], List.nodup_nil, nofun⟩

/-- The row violates no constraint of the table. -/
def Fits (t : Table σ) (row : Row) : Prop := σ.check row = true ∧ σ.key row ∉ t.rows.map σ.key

instance [DecidableEq Key] (t : Table σ) (row : Row) : Decidable (t.Fits row) :=
  inferInstanceAs (Decidable (_ ∧ _))

/-- A row more. -/
def append (t : Table σ) (row : Row) (h : t.Fits row) : Table σ where
  rows := t.rows ++ [row]
  nodup := by
    rw [List.map_append]
    refine List.nodup_append.mpr ⟨t.nodup, List.nodup_singleton _, ?_⟩
    rintro k hk k' hk' rfl
    exact h.2 (List.mem_singleton.mp hk' ▸ hk)
  checked := by
    intro r hr
    rcases List.mem_append.mp hr with hold | hnew
    · exact t.checked r hold
    · exact List.mem_singleton.mp hnew ▸ h.1

/-- `INSERT`, which is refused if the row violates a constraint. -/
def insert [DecidableEq Key] (t : Table σ) (row : Row) : Option (Table σ) :=
  if h : t.Fits row then some (t.append row h) else none

/-- `INSERT OR IGNORE`, which skips such a row; returns whether the row was inserted. -/
def insertOrIgnore [DecidableEq Key] (t : Table σ) (row : Row) : Bool × Table σ :=
  if h : t.Fits row then (true, t.append row h) else (false, t)

/-- A row after an update. -/
def rewrite (filter : Row → Bool) (set : Row → Row) (row : Row) : Row :=
  if filter row then set row else row

theorem key_rewrite {filter : Row → Bool} {set : Row → Row}
    (hkey : ∀ row, σ.key (set row) = σ.key row) (row : Row) :
    σ.key (rewrite filter set row) = σ.key row := by
  unfold rewrite
  split
  · exact hkey row
  · rfl

/-- `UPDATE .. SET .. WHERE ..` that leaves the key alone; it is refused as a whole if a row would
violate the constraint.  Returns the number of rows that it touches. -/
def update (t : Table σ) (filter : Row → Bool) (set : Row → Row)
    (hkey : ∀ row, σ.key (set row) = σ.key row) : Option (Nat × Table σ) :=
  if h : ∀ row ∈ t.rows, σ.check (rewrite filter set row) = true then
    some ((t.rows.filter filter).length,
      { rows := t.rows.map (rewrite filter set)
        nodup := by
          have hkeys : (t.rows.map (rewrite filter set)).map σ.key = t.rows.map σ.key := by
            rw [List.map_map]
            exact List.map_congr_left fun row _ => key_rewrite hkey row
          rw [hkeys]
          exact t.nodup
        checked := by
          intro row hrow
          obtain ⟨old, hold, rfl⟩ := List.mem_map.mp hrow
          exact h old hold })
  else none

/-- `INSERT INTO .. SELECT * FROM ..`, for rows that are selected already. -/
def insertAll [DecidableEq Key] (t : Table σ) (rows : List Row) : Option (Table σ) :=
  rows.foldlM insert t

/-- **Copying a table** into an empty one whose constraint is weaker succeeds, and all rows are
kept. -/
theorem insertAll_rows [DecidableEq Key] {t : Table σ} {rows : List Row}
    (hnodup : ((t.rows ++ rows).map σ.key).Nodup) (hcheck : ∀ row ∈ rows, σ.check row = true) :
    ∃ t', t.insertAll rows = some t' ∧ t'.rows = t.rows ++ rows := by
  induction rows generalizing t with
  | nil => exact ⟨t, rfl, (List.append_nil _).symm⟩
  | cons row rows ih =>
    have hfits : t.Fits row := by
      refine ⟨hcheck row (List.mem_cons_self ..), fun hmem => ?_⟩
      rw [List.map_append, List.map_cons] at hnodup
      exact (List.nodup_append.mp hnodup).2.2 _ hmem _ (List.mem_cons_self ..) rfl
    have hrows : (t.append row hfits).rows ++ rows = t.rows ++ row :: rows := by
      simp [append]
    obtain ⟨t', hall, hkept⟩ := ih (t := t.append row hfits) (hrows ▸ hnodup)
      fun r hr => hcheck r (List.mem_cons_of_mem _ hr)
    refine ⟨t', ?_, hkept.trans hrows⟩
    rw [insertAll, List.foldlM_cons, insert, dif_pos hfits]
    exact hall

/-- The inner join on the primary keys. -/
def joined [DecidableEq Key] (t : Table σ) (u : Table σ') : List (Row × Row') :=
  t.rows.flatMap fun row =>
    (u.rows.filter fun row' => decide (σ'.key row' = σ.key row)).map (Prod.mk row)

theorem mem_joined [DecidableEq Key] {t : Table σ} {u : Table σ'} {row : Row} {row' : Row'} :
    (row, row') ∈ t.joined u ↔ row ∈ t.rows ∧ row' ∈ u.rows ∧ σ'.key row' = σ.key row := by
  simp only [joined, List.mem_flatMap, List.mem_map, List.mem_filter, decide_eq_true_eq]
  constructor
  · rintro ⟨r, hr, r', ⟨hr', hkey⟩, heq⟩
    cases heq
    exact ⟨hr, hr', hkey⟩
  · rintro ⟨hr, hr', hkey⟩
    exact ⟨row, hr, row', ⟨hr', hkey⟩, rfl⟩

/-- Rows with the same key are the same row. -/
theorem eq_of_key (t : Table σ) {row row' : Row} (h : row ∈ t.rows) (h' : row' ∈ t.rows)
    (hkey : σ.key row = σ.key row') : row = row' :=
  List.inj_on_of_nodup_map t.nodup h h' hkey

/-- A key is listed at most once by a join. -/
theorem nodup_joined [DecidableEq Key] (t : Table σ) (u : Table σ') :
    ((t.joined u).map fun pair => σ.key pair.1).Nodup := by
  -- what a row is joined with, and the keys this lists
  have hkeys : ((t.joined u).map fun pair => σ.key pair.1) = t.rows.flatMap fun row =>
      (u.rows.filter fun row' => decide (σ'.key row' = σ.key row)).map fun _ => σ.key row := by
    rw [joined, List.map_flatMap]
    exact List.flatMap_congr fun row _ => List.map_map ..
  rw [hkeys, List.nodup_flatMap]
  constructor
  · intro row _
    have hdistinct : (u.rows.filter fun row' => decide (σ'.key row' = σ.key row)).Nodup :=
      (List.Nodup.of_map _ u.nodup).filter _
    refine hdistinct.map_on fun r hr r' hr' _ => ?_
    rw [List.mem_filter, decide_eq_true_eq] at hr hr'
    exact u.eq_of_key hr.1 hr'.1 (hr.2.trans hr'.2.symm)
  · have hpairs := List.pairwise_map.mp t.nodup
    refine hpairs.imp fun {row row'} hne => ?_
    intro k hk hk'
    obtain ⟨_, -, rfl⟩ := List.mem_map.mp hk
    obtain ⟨_, -, heq⟩ := List.mem_map.mp hk'
    exact hne heq.symm

end Table

/-! ## What a table represents -/

open Table

section Represents
variable {σ : Schema Row Key} {K V : Type} [DecidableEq K]

/-- **The table represents the map**: the keys are the encoded ones, and a row codes the value. -/
structure Represents (enc : K → Key) (Codes : Row → V → Prop) (t : Table σ) (m : FiniteMap K V) :
    Prop where
  of_row : ∀ row ∈ t.rows, ∃ k v, σ.key row = enc k ∧ m.lookup k = some v ∧ Codes row v
  of_entry : ∀ k v, m.lookup k = some v → ∃ row ∈ t.rows, σ.key row = enc k ∧ Codes row v

variable {enc : K → Key} {Codes : Row → V → Prop} {t : Table σ} {m : FiniteMap K V}

theorem represents_empty : Represents enc Codes (Table.empty σ) ∅ := by
  refine ⟨nofun, fun k v h => ?_⟩
  cases (Finmap.lookup_empty k).symm.trans h

/-- The row under a key codes the value under it. -/
theorem Represents.value (h : Represents enc Codes t m) (henc : Function.Injective enc) {row : Row}
    (hrow : row ∈ t.rows) {k : K} (hkey : σ.key row = enc k) :
    ∃ v, m.lookup k = some v ∧ Codes row v := by
  obtain ⟨k', v, hk', hv, hcodes⟩ := h.of_row row hrow
  cases henc (hk'.symm.trans hkey)
  exact ⟨v, hv, hcodes⟩

/-- A key is in the table iff it is in the map. -/
theorem Represents.mem_iff (h : Represents enc Codes t m) (henc : Function.Injective enc) (k : K) :
    enc k ∈ t.rows.map σ.key ↔ k ∈ m := by
  constructor
  · intro hmem
    obtain ⟨row, hrow, hkey⟩ := List.mem_map.mp hmem
    obtain ⟨v, hv, -⟩ := h.value henc hrow hkey
    exact FiniteMap.mem_of_lookup hv
  · intro hmem
    obtain ⟨v, hv⟩ := Option.isSome_iff_exists.mp (Finmap.lookup_isSome.mpr hmem)
    obtain ⟨row, hrow, hkey, -⟩ := h.of_entry k v hv
    exact List.mem_map.mpr ⟨row, hrow, hkey⟩

/-- **Inserting or ignoring a row.** -/
theorem Represents.insertOrIgnore [DecidableEq Key] (h : Represents enc Codes t m)
    (henc : Function.Injective enc) {row : Row} {k : K} {v : V} (hkey : σ.key row = enc k)
    (hcodes : Codes row v) (hcheck : σ.check row = true) :
    ((t.insertOrIgnore row).1 = true ↔ k ∉ m) ∧
    Represents enc Codes (t.insertOrIgnore row).2 (if k ∈ m then m else m.insert k v) := by
  have hfits : t.Fits row ↔ k ∉ m := by
    rw [Fits, hkey, h.mem_iff henc]
    exact and_iff_right hcheck
  unfold Table.insertOrIgnore
  by_cases hk : k ∈ m
  · rw [dif_neg fun hfit => hfits.mp hfit hk, if_pos hk]
    exact ⟨⟨nofun, fun hnot => absurd hk hnot⟩, h⟩
  · rw [dif_pos (hfits.mpr hk), if_neg hk]
    refine ⟨⟨fun _ => hk, fun _ => rfl⟩, fun r hr => ?_, fun k' v' hv' => ?_⟩
    · rcases List.mem_append.mp hr with hold | hnew
      · obtain ⟨k', v', hkey', hv', hcodes'⟩ := h.of_row r hold
        refine ⟨k', v', hkey', ?_, hcodes'⟩
        rw [Finmap.lookup_insert_of_ne _ ?_]
        · exact hv'
        · rintro rfl
          exact hk (FiniteMap.mem_of_lookup hv')
      · obtain rfl := List.mem_singleton.mp hnew
        exact ⟨k, v, hkey, Finmap.lookup_insert _, hcodes⟩
    · rw [FiniteMap.lookup_insert_if] at hv'
      by_cases heq : k' = k
      · rw [if_pos heq] at hv'
        cases hv'
        exact ⟨row, List.mem_append_right _ (List.mem_singleton_self row), heq ▸ hkey, hcodes⟩
      · rw [if_neg heq] at hv'
        obtain ⟨r, hr, hkey', hcodes'⟩ := h.of_entry k' v' hv'
        exact ⟨r, List.mem_append_left _ hr, hkey', hcodes'⟩

/-- **Updating rows**: if a rewritten row codes the rewritten value and passes the constraint, the
update succeeds, and it rewrites the map. -/
theorem Represents.update (h : Represents enc Codes t m) {filter : Row → Bool} {set : Row → Row}
    (hkey : ∀ row, σ.key (set row) = σ.key row) {f : K → V → V}
    (hset : ∀ row k v, σ.key row = enc k → Codes row v →
      σ.check (rewrite filter set row) = true ∧ Codes (rewrite filter set row) (f k v)) :
    ∃ n t', t.update filter set hkey = some (n, t') ∧
      Represents enc Codes t' (m.mapWithKey f) := by
  have hcheck : ∀ row ∈ t.rows, σ.check (rewrite filter set row) = true := by
    intro row hrow
    obtain ⟨k, v, hk, -, hcodes⟩ := h.of_row row hrow
    exact (hset row k v hk hcodes).1
  refine ⟨_, _, dif_pos hcheck, fun row hrow => ?_, fun k v hv => ?_⟩
  · obtain ⟨old, hold, rfl⟩ := List.mem_map.mp hrow
    obtain ⟨k, v, hk, hv, hcodes⟩ := h.of_row old hold
    refine ⟨k, f k v, (key_rewrite hkey old).trans hk, ?_, (hset old k v hk hcodes).2⟩
    rw [FiniteMap.lookup_mapWithKey, hv]
    rfl
  · rw [FiniteMap.lookup_mapWithKey] at hv
    obtain ⟨v₀, hv₀, rfl⟩ := Option.map_eq_some_iff.mp hv
    obtain ⟨old, hold, hk, hcodes⟩ := h.of_entry k v₀ hv₀
    exact ⟨_, List.mem_map.mpr ⟨old, hold, rfl⟩, (key_rewrite hkey old).trans hk,
      (hset old k v₀ hk hcodes).2⟩

/-- **What a join lists**: the keys of both maps, each with its two values. -/
theorem Represents.joined [DecidableEq Key] {σ' : Schema Row' Key} {V' : Type}
    {Codes' : Row' → V' → Prop} {u : Table σ'} {m' : FiniteMap K V'}
    (h : Represents enc Codes t m) (h' : Represents enc Codes' u m')
    (henc : Function.Injective enc) :
    (∀ pair ∈ t.joined u, ∃ k v v', σ.key pair.1 = enc k ∧ m.lookup k = some v ∧
      m'.lookup k = some v' ∧ Codes pair.1 v ∧ Codes' pair.2 v') ∧
    ∀ k v v', m.lookup k = some v → m'.lookup k = some v' →
      ∃ pair ∈ t.joined u, σ.key pair.1 = enc k ∧ Codes pair.1 v ∧ Codes' pair.2 v' := by
  constructor
  · rintro ⟨row, row'⟩ hpair
    obtain ⟨hrow, hrow', hkey⟩ := mem_joined.mp hpair
    obtain ⟨k, v, hk, hv, hcodes⟩ := h.of_row row hrow
    obtain ⟨v', hv', hcodes'⟩ := h'.value henc hrow' (hkey.trans hk)
    exact ⟨k, v, v', hk, hv, hv', hcodes, hcodes'⟩
  · intro k v v' hv hv'
    obtain ⟨row, hrow, hk, hcodes⟩ := h.of_entry k v hv
    obtain ⟨row', hrow', hk', hcodes'⟩ := h'.of_entry k v' hv'
    exact ⟨(row, row'), mem_joined.mpr ⟨hrow, hrow', hk'.trans hk.symm⟩, hk, hcodes, hcodes'⟩

/-- A table with the same rows, under another constraint, represents the same map. -/
theorem Represents.of_rows_eq {τ : Schema Row Key} (h : Represents enc Codes t m) {u : Table τ}
    (hkey : τ.key = σ.key) (hrows : u.rows = t.rows) : Represents enc Codes u m := by
  refine ⟨fun row hrow => ?_, fun k v hv => ?_⟩
  · rw [hkey]
    exact h.of_row row (hrows ▸ hrow)
  · obtain ⟨row, hrow, hk, hcodes⟩ := h.of_entry k v hv
    exact ⟨row, hrows ▸ hrow, hkey ▸ hk, hcodes⟩

end Represents

end Tables
