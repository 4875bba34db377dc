import SourceAtlas.Symbol

/-!
# Lookup in symbol tables

A table keeps the first symbol that is inserted under a name, so a lookup after some
insertions is a search through the inserted symbols.  The names of a table that is filled
by insertions are distinct, and what stands in a table keeps its place when more symbols
are inserted.
-/

namespace SourceAtlas
namespace SymbolTable

theorem contains_eq_isSome_get? (table : SymbolTable) (name : String) :
    table.contains name = (table.get? name).isSome := by
  rw [get?, List.isSome_find?]
  rfl

theorem contains_of_hasType {table : SymbolTable} {name : String}
    (typed : table.hasType name = true) : table.contains name = true := by
  rw [contains_eq_isSome_get?]
  cases found : table.get? name with
  | none => simp [hasType, found] at typed
  | some symbol => rfl

theorem name_of_get? {table : SymbolTable} {name : String} {symbol : Symbol}
    (found : table.get? name = some symbol) : symbol.name = name := by
  simpa using List.find?_some found

theorem mem_of_get? {table : SymbolTable} {name : String} {symbol : Symbol}
    (found : table.get? name = some symbol) : symbol ∈ table.symbols :=
  List.mem_of_find?_eq_some found

@[simp]
theorem get?_empty (name : String) : ({} : SymbolTable).get? name = none :=
  rfl

theorem insert_of_contains {table : SymbolTable} {symbol : Symbol}
    (classified : table.contains symbol.name = true) : table.insert symbol = table := by
  simp [insert, classified]

theorem get?_insert (table : SymbolTable) (symbol : Symbol) (name : String) :
    (table.insert symbol).get? name =
      (table.get? name).or ([symbol].find? (·.name == name)) := by
  by_cases classified : table.contains symbol.name = true
  · rw [insert_of_contains classified]
    by_cases same : symbol.name = name
    · subst same
      rw [contains_eq_isSome_get?] at classified
      obtain ⟨first, found⟩ := Option.isSome_iff_exists.mp classified
      simp [found]
    · simp [same]
  · simp [insert, classified, get?, List.find?_append]

theorem insertAll_append (table : SymbolTable) (first second : List Symbol) :
    table.insertAll (first ++ second) = (table.insertAll first).insertAll second := by
  simp [insertAll]

/-- After some insertions a name stands for what it stood for before, or else for the
first symbol inserted under it. -/
theorem get?_insertAll (table : SymbolTable) (symbols : List Symbol) (name : String) :
    (table.insertAll symbols).get? name =
      (table.get? name).or (symbols.find? (·.name == name)) := by
  induction symbols generalizing table with
  | nil => simp [insertAll]
  | cons symbol symbols ih =>
      have rest := ih (table.insert symbol)
      simp only [insertAll, List.foldl_cons] at rest ⊢
      rw [rest, get?_insert, Option.or_assoc, ← List.find?_append]
      rfl

theorem insert_names_nodup {table : SymbolTable} (symbol : Symbol)
    (distinct : (table.symbols.map (·.name)).Nodup) :
    ((table.insert symbol).symbols.map (·.name)).Nodup := by
  by_cases classified : table.contains symbol.name = true
  · rwa [insert_of_contains classified]
  · have fresh : symbol.name ∉ table.symbols.map (·.name) := by
      simpa [contains] using classified
    rw [insert, if_neg classified, List.map_append, List.nodup_append]
    refine ⟨distinct, by simp, fun name known other single => ?_⟩
    rintro rfl
    rw [List.map_singleton, List.mem_singleton] at single
    exact fresh (single ▸ known)

theorem insertAll_names_nodup {table : SymbolTable} (symbols : List Symbol)
    (distinct : (table.symbols.map (·.name)).Nodup) :
    ((table.insertAll symbols).symbols.map (·.name)).Nodup := by
  induction symbols generalizing table with
  | nil => exact distinct
  | cons symbol symbols ih => exact ih (insert_names_nodup symbol distinct)

/-- Insertions only extend a table, and only by inserted symbols. -/
theorem insertAll_symbols_extend (table : SymbolTable) (symbols : List Symbol) :
    ∃ added, (table.insertAll symbols).symbols = table.symbols ++ added ∧
      added.Sublist symbols := by
  induction symbols generalizing table with
  | nil => exact ⟨[], by simp [insertAll], List.Sublist.slnil⟩
  | cons symbol symbols ih =>
      obtain ⟨added, extended, inserted⟩ := ih (table.insert symbol)
      by_cases classified : table.contains symbol.name = true
      · refine ⟨added, ?_, inserted.cons symbol⟩
        simpa [insertAll, insert_of_contains classified] using extended
      · refine ⟨symbol :: added, ?_, inserted.cons_cons symbol⟩
        simpa [insertAll, insert, classified] using extended

/-- In a table with distinct names a lookup finds exactly the symbols of the table. -/
theorem get?_eq_some_iff {table : SymbolTable}
    (distinct : (table.symbols.map (·.name)).Nodup) {name : String} {symbol : Symbol} :
    table.get? name = some symbol ↔ symbol ∈ table.symbols ∧ symbol.name = name := by
  constructor
  · intro found
    exact ⟨mem_of_get? found, name_of_get? found⟩
  · rintro ⟨member, rfl⟩
    obtain ⟨before, after, split⟩ := List.append_of_mem member
    rw [split, List.map_append, List.map_cons, List.nodup_append] at distinct
    rw [get?, split, List.find?_append]
    have earlier : before.find? (·.name == symbol.name) = none := by
      rw [List.find?_eq_none]
      intro other known same
      exact distinct.2.2 other.name (List.mem_map_of_mem known) symbol.name (by simp)
        (by simpa using same)
    simp [earlier]

end SymbolTable
end SourceAtlas
