import PswapSolver.FiniteMap
import PswapSolver.Codec
import PswapSolver.Notes

/-! # The registered tokens

The table `registered_tokens` of `db/db.rs` and its queries.  A row is kept under the bytes of
its token, and every query compares bytes.  So the table is *canonical* if each of its keys is
what the codec of the tokens writes: only then a token has at most one row, and the bytes that
read as a token and are the key of some row are the key of its row (`Canonical.key_eq`).

A `SELECT` without an order may list the rows in any order (`Selects`).
-/
namespace PswapSolver
open Codecs
variable {ε : Type} (codec : Codec ε TokenId)

/-- A row of the table, next to its key. -/
structure TokenRow where
  externalSymbol : Option String
  decimals : Option Int
  ticker : Option String
deriving DecidableEq

/-- The table of the registered tokens. -/
abbrev TokenTable := FiniteMap Bytes TokenRow

/-- The in-memory cache of the external symbols. -/
abbrev TokenMap := FiniteMap TokenId String

/-! ## The queries -/

/-- `INSERT OR IGNORE` of a token without metadata; tells whether it was inserted. -/
def registerToken (table : TokenTable) (tokenId : Bytes) (externalSymbol : Option String) :
    Bool × TokenTable :=
  if tokenId ∈ table then (false, table)
  else (true, table.insert tokenId ⟨externalSymbol, none, none⟩)

/-- Sets the external symbol; tells whether there is such a row. -/
def updateTokenSymbol (table : TokenTable) (tokenId : Bytes) (symbol : Option String) :
    Bool × TokenTable :=
  (decide (tokenId ∈ table), table.modify tokenId fun row => { row with externalSymbol := symbol })

/-- Persists the on-chain metadata; tells whether there is such a row. -/
def setTokenMetadata (table : TokenTable) (tokenId : Bytes) (decimals : Option Int)
    (ticker : Option String) : Bool × TokenTable :=
  (decide (tokenId ∈ table),
    table.modify tokenId fun row => { row with decimals := decimals, ticker := ticker })

/-- Deletes a row; tells whether there was one. -/
def unregisterToken (table : TokenTable) (tokenId : Bytes) : Bool × TokenTable :=
  (decide (tokenId ∈ table), table.erase tokenId)

/-- `rows` are the rows of the table, in some order. -/
structure Selects (table : TokenTable) (rows : List (Bytes × TokenRow)) : Prop where
  nodup : (rows.map Prod.fst).Nodup
  mem : ∀ key row, (key, row) ∈ rows ↔ table.lookup key = some row

/-- Reads a token; bytes that follow it are ignored. -/
def readToken (bytes : Bytes) : Except ε TokenId := readAll codec.read bytes

/-- The tokens of the selected rows. -/
def loadRegisteredTokens (rows : List (Bytes × TokenRow)) : Except ε (List TokenId) :=
  rows.mapM fun row => readToken codec row.1

/-- One turn of the loop of `load_token_symbols`. -/
def loadTokenSymbol (out : TokenMap) (row : Bytes × TokenRow) : Except ε TokenMap :=
  match row.2.externalSymbol with
  | none => pure out
  | some symbol => do
    let token ← readToken codec row.1
    pure (out.insert token symbol)

/-- The symbols of the selected rows that have one. -/
def loadTokenSymbols (rows : List (Bytes × TokenRow)) : Except ε TokenMap :=
  rows.foldlM (loadTokenSymbol codec) ∅

/-- Seeds the tokens of the configuration, which changes no row that is there. -/
def seedTokensFromConfig (tokens : List (TokenId × Option String)) (table : TokenTable) :
    TokenTable :=
  tokens.foldl (fun table seed => (registerToken table (codec.write seed.1) seed.2).2) table

/-- `prepare_db`: seeds the table and loads the symbol map from it. -/
def PrepareDb (initialTokens : List (TokenId × Option String)) (table table' : TokenTable)
    (tokenMap : TokenMap) : Prop :=
  table' = seedTokensFromConfig codec initialTokens table ∧
    ∃ rows, Selects table' rows ∧ loadTokenSymbols codec rows = .ok tokenMap

/-! ## Canonical tables -/

/-- Every key is what is written for some token. -/
def Canonical (table : TokenTable) : Prop := ∀ key ∈ table, ∃ token, key = codec.write token

/-- The symbol in the row of a token, if it has a row with a symbol. -/
def symbolOf (table : TokenTable) (token : TokenId) : Option String :=
  (table.lookup (codec.write token)).bind TokenRow.externalSymbol

section
variable {codec} {table : TokenTable} {key : Bytes} {token : TokenId}
  {rows : List (Bytes × TokenRow)}

/-- **Whatever bytes a request gives for a token**: if they are the key of a row, they are the
key of its row. -/
theorem Canonical.key_eq (h : Canonical codec table) (hkey : key ∈ table)
    (hread : readToken codec key = .ok token) : key = codec.write token := by
  obtain ⟨token', rfl⟩ := h key hkey
  rw [readToken, codec.readAll_write] at hread
  cases hread
  rfl

theorem canonical_empty : Canonical codec ∅ := fun _ hkey => absurd hkey Finmap.notMem_empty

theorem Canonical.insert (h : Canonical codec table) (token : TokenId) (row : TokenRow) :
    Canonical codec (table.insert (codec.write token) row) := by
  intro key hkey
  rcases Finmap.mem_insert.mp hkey with rfl | hkey
  · exact ⟨token, rfl⟩
  · exact h key hkey

theorem Canonical.modify (h : Canonical codec table) (key : Bytes) (f : TokenRow → TokenRow) :
    Canonical codec (table.modify key f) := fun _ hmem => h _ (FiniteMap.mem_modify.mp hmem)

theorem Canonical.erase (h : Canonical codec table) (key : Bytes) :
    Canonical codec (table.erase key) := fun _ hmem => h _ (Finmap.mem_erase.mp hmem).2

theorem Canonical.registered (h : Canonical codec table) (token : TokenId)
    (symbol : Option String) :
    Canonical codec (registerToken table (codec.write token) symbol).2 := by
  unfold registerToken
  split
  · exact h
  · exact h.insert token _

theorem Canonical.seeded (h : Canonical codec table)
    (tokens : List (TokenId × Option String)) :
    Canonical codec (seedTokensFromConfig codec tokens table) := by
  induction tokens generalizing table with
  | nil => exact h
  | cons seed tokens ih => exact ih (h.registered seed.1 seed.2)

theorem mem_registerToken {other : Bytes} {symbol : Option String} :
    other ∈ (registerToken table key symbol).2 ↔ other = key ∨ other ∈ table := by
  unfold registerToken
  split
  · rename_i hkey
    refine ⟨Or.inr, ?_⟩
    rintro (rfl | hother)
    · exact hkey
    · exact hother
  · exact Finmap.mem_insert

theorem mem_seedTokensFromConfig {tokens : List (TokenId × Option String)} :
    key ∈ seedTokensFromConfig codec tokens table ↔
      (∃ seed ∈ tokens, key = codec.write seed.1) ∨ key ∈ table := by
  induction tokens generalizing table with
  | nil =>
    refine ⟨Or.inr, fun h => h.resolve_left ?_⟩
    rintro ⟨seed, hseed, -⟩
    exact List.not_mem_nil hseed
  | cons seed tokens ih =>
    rw [seedTokensFromConfig, List.foldl_cons]
    refine ih.trans ?_
    rw [mem_registerToken, List.exists_mem_cons_iff, or_left_comm, or_assoc]

/-! ### The symbols under each query -/

theorem symbolOf_insert (token other : TokenId) (row : TokenRow) :
    symbolOf codec (table.insert (codec.write token) row) other =
      if other = token then row.externalSymbol else symbolOf codec table other := by
  rw [symbolOf, FiniteMap.lookup_insert_if]
  by_cases h : other = token
  · rw [h, if_pos rfl, if_pos rfl]
    rfl
  · rw [if_neg (fun hkey => h (codec.write_injective hkey)), if_neg h]
    rfl

theorem symbolOf_updateTokenSymbol (hmem : codec.write token ∈ table) (symbol : Option String)
    (other : TokenId) :
    symbolOf codec (updateTokenSymbol table (codec.write token) symbol).2 other =
      if other = token then symbol else symbolOf codec table other := by
  rw [symbolOf, updateTokenSymbol, FiniteMap.lookup_modify]
  by_cases h : other = token
  · obtain ⟨row, hrow⟩ := Finmap.mem_iff.mp hmem
    rw [h, if_pos rfl, if_pos rfl, hrow]
    rfl
  · rw [if_neg (fun hkey => h (codec.write_injective hkey)), if_neg h]
    rfl

theorem symbolOf_unregisterToken (token other : TokenId) :
    symbolOf codec (unregisterToken table (codec.write token)).2 other =
      if other = token then none else symbolOf codec table other := by
  rw [symbolOf, unregisterToken, FiniteMap.lookup_erase_if]
  by_cases h : other = token
  · rw [h, if_pos rfl, if_pos rfl]
    rfl
  · rw [if_neg (fun hkey => h (codec.write_injective hkey)), if_neg h]
    rfl

/-- The metadata is not the symbol. -/
theorem symbolOf_setTokenMetadata (key : Bytes) (decimals : Option Int) (ticker : Option String)
    (other : TokenId) :
    symbolOf codec (setTokenMetadata table key decimals ticker).2 other =
      symbolOf codec table other := by
  rw [symbolOf, setTokenMetadata, FiniteMap.lookup_modify]
  split
  · rename_i hkey
    rw [← hkey, symbolOf]
    cases table.lookup (codec.write other) <;> rfl
  · rfl

/-! ### What is loaded -/

/-- A table can be listed. -/
theorem exists_selects (table : TokenTable) : ∃ rows, Selects table rows := by
  induction table using Finmap.induction_on with
  | H entries =>
    refine ⟨entries.entries.map fun e => (e.1, e.2), ?_, fun key row => ?_⟩
    · have hnodup := entries.nodupKeys
      simpa [List.NodupKeys, List.keys, Function.comp_def] using hnodup
    · rw [Finmap.lookup_toFinmap, ← Option.mem_def, AList.mem_lookup_iff, List.mem_map]
      constructor
      · rintro ⟨⟨key', row'⟩, hmem, heq⟩
        cases heq
        exact hmem
      · intro hmem
        exact ⟨⟨key, row⟩, hmem, rfl⟩

theorem Selects.written (hrows : Selects table rows) (h : Canonical codec table) :
    ∀ row ∈ rows, ∃ token, row.1 = codec.write token := fun row hrow =>
  h row.1 (FiniteMap.mem_of_lookup ((hrows.mem row.1 row.2).mp hrow))

theorem loadRegisteredTokens_written (hkeys : ∀ row ∈ rows, ∃ token, row.1 = codec.write token) :
    ∃ tokens, loadRegisteredTokens codec rows = .ok tokens ∧
      tokens.map codec.write = rows.map Prod.fst := by
  induction rows with
  | nil => exact ⟨[], rfl, rfl⟩
  | cons row rows ih =>
    obtain ⟨token, htoken⟩ := hkeys row (List.mem_cons_self ..)
    obtain ⟨tokens, hload, hmap⟩ := ih fun row hrow => hkeys row (List.mem_cons_of_mem _ hrow)
    refine ⟨token :: tokens, ?_, ?_⟩
    · unfold loadRegisteredTokens at hload ⊢
      rw [List.mapM_cons, htoken, readToken, codec.readAll_write, hload]
      rfl
    · rw [List.map_cons, List.map_cons, hmap, htoken]

/-- **The registered tokens are loaded**, each of them once. -/
theorem Selects.tokens (hrows : Selects table rows) (h : Canonical codec table) :
    ∃ tokens, loadRegisteredTokens codec rows = .ok tokens ∧ tokens.Nodup ∧
      ∀ token, token ∈ tokens ↔ codec.write token ∈ table := by
  obtain ⟨tokens, hload, hmap⟩ := loadRegisteredTokens_written (hrows.written h)
  refine ⟨tokens, hload, List.Nodup.of_map codec.write (hmap ▸ hrows.nodup), fun token => ?_⟩
  rw [← List.mem_map_of_injective codec.write_injective, hmap, List.mem_map, Finmap.mem_iff]
  constructor
  · rintro ⟨⟨key, row⟩, hrow, rfl⟩
    exact ⟨row, (hrows.mem _ row).mp hrow⟩
  · rintro ⟨row, hrow⟩
    exact ⟨(codec.write token, row), (hrows.mem _ row).mpr hrow, rfl⟩

theorem Selects.mem_tokens (hrows : Selects table rows) (h : Canonical codec table)
    {tokens : List TokenId} (hload : loadRegisteredTokens codec rows = .ok tokens)
    (token : TokenId) : token ∈ tokens ↔ codec.write token ∈ table := by
  obtain ⟨tokens', hload', -, hmem⟩ := hrows.tokens h
  cases hload.symm.trans hload'
  exact hmem token

/-- The rows are read one after the other; a row adds its symbol, if it has one. -/
theorem loadTokenSymbols_written (hkeys : ∀ row ∈ rows, ∃ token, row.1 = codec.write token)
    (hnodup : (rows.map Prod.fst).Nodup) :
    ∃ out, loadTokenSymbols codec rows = .ok out ∧ ∀ token symbol,
      out.lookup token = some symbol ↔
        ∃ row, (codec.write token, row) ∈ rows ∧ row.externalSymbol = some symbol := by
  induction rows using List.reverseRecOn with
  | nil => exact ⟨∅, rfl, by simp⟩
  | append_singleton rows last ih =>
    obtain ⟨key, row⟩ := last
    rw [List.map_append, List.map_singleton, List.nodup_append] at hnodup
    obtain ⟨hrest, -, hnew⟩ := hnodup
    obtain ⟨out, hload, hout⟩ := ih (fun r hr => hkeys r (List.mem_append_left _ hr)) hrest
    obtain ⟨token, htoken⟩ := hkeys (key, row) (List.mem_append_right _ (List.mem_singleton_self _))
    dsimp only at htoken
    subst htoken
    have hfresh : ∀ r, (codec.write token, r) ∉ rows := fun r hr =>
      hnew _ (List.mem_map_of_mem (f := Prod.fst) hr) _ (List.mem_singleton_self _) rfl
    have hlast : loadTokenSymbols codec (rows ++ [(codec.write token, row)]) =
        loadTokenSymbol codec out (codec.write token, row) := by
      unfold loadTokenSymbols at hload ⊢
      rw [List.foldlM_append, hload]
      exact bind_pure (loadTokenSymbol codec out (codec.write token, row))
    rw [hlast, loadTokenSymbol]
    cases hsymbol : row.externalSymbol with
    | none =>
      refine ⟨out, rfl, fun t s => ?_⟩
      rw [hout]
      grind
    | some symbol =>
      refine ⟨out.insert token symbol, ?_, fun t s => ?_⟩
      · dsimp only
        rw [readToken, codec.readAll_write]
        rfl
      · rw [FiniteMap.lookup_insert_if]
        split
        · rename_i heq
          subst heq
          grind
        · rename_i hne
          have hkey : codec.write t ≠ codec.write token := fun h => hne (codec.write_injective h)
          rw [hout]
          grind

/-- **The symbols are loaded.** -/
theorem Selects.symbols (hrows : Selects table rows) (h : Canonical codec table) :
    ∃ out, loadTokenSymbols codec rows = .ok out ∧
      ∀ token, out.lookup token = symbolOf codec table token := by
  obtain ⟨out, hload, hout⟩ := loadTokenSymbols_written (hrows.written h) hrows.nodup
  refine ⟨out, hload, fun token => Option.ext fun symbol => ?_⟩
  rw [hout, symbolOf, Option.bind_eq_some_iff]
  simp only [hrows.mem]

/-- **`prepare_db` succeeds on a canonical table**: the table stays canonical, and the symbol
map is that of the table. -/
theorem Canonical.prepared (h : Canonical codec table)
    (initialTokens : List (TokenId × Option String)) :
    ∃ table' tokenMap, PrepareDb codec initialTokens table table' tokenMap := by
  obtain ⟨rows, hrows⟩ := exists_selects (seedTokensFromConfig codec initialTokens table)
  obtain ⟨out, hload, -⟩ := hrows.symbols (h.seeded initialTokens)
  exact ⟨_, out, rfl, rows, hrows, hload⟩

theorem PrepareDb.spec {initialTokens : List (TokenId × Option String)} {table' : TokenTable}
    {tokenMap : TokenMap} (hprep : PrepareDb codec initialTokens table table' tokenMap)
    (h : Canonical codec table) :
    Canonical codec table' ∧ ∀ token, tokenMap.lookup token = symbolOf codec table' token := by
  obtain ⟨rfl, rows, hrows, hload⟩ := hprep
  have hcanonical := h.seeded initialTokens
  obtain ⟨out, hout, hlookup⟩ := hrows.symbols hcanonical
  cases hload.symm.trans hout
  exact ⟨hcanonical, hlookup⟩

end

end PswapSolver
