import Mathlib.Data.List.Induction
import SourceAtlas.Proofs.FirstPlaces
import SourceAtlas.Proofs.SymbolTable

/-!
# A name is classified once

A symbol table that is filled by insertions lists the first symbol of every name in the order of
the insertions, and answers every question about a name from that symbol.  A table of the places
of the names that is kept beside the symbols gives the same answers in every run.
-/

namespace SourceAtlas

namespace SymbolTable

/-- The table of some symbols that are inserted one after another. -/
def filled (inserted : List Symbol) : SymbolTable :=
  ({} : SymbolTable).insertAll inserted

def names (table : SymbolTable) : List String :=
  table.symbols.map (·.name)

end SymbolTable

/-- A symbol table with a table of the places of its names beside it. -/
structure IndexedTable where
  table : SymbolTable := {}
  places : Std.HashMap String Nat := {}

namespace IndexedTable

/-- Inserts a symbol unless its name has a place, and tells whether it did. -/
def insert (indexed : IndexedTable) (symbol : Symbol) : IndexedTable × Bool :=
  if indexed.places.contains symbol.name then (indexed, false)
  else
    ({ table := ⟨indexed.table.symbols ++ [symbol]⟩
       places := indexed.places.insert symbol.name indexed.table.symbols.length }, true)

/-- The symbol at the place of a name. -/
def get? (indexed : IndexedTable) (name : String) : Option Symbol :=
  indexed.places[name]?.bind fun place => indexed.table.symbols[place]?

def describe (indexed : IndexedTable) (name : String) : String :=
  ((indexed.get? name).map Symbol.describe).getD ""

def filled (inserted : List Symbol) : IndexedTable :=
  inserted.foldl (fun indexed symbol => (indexed.insert symbol).1) {}

/-- Whether the places of an indexed table are those of the names of its symbols. -/
def InStep (indexed : IndexedTable) : Prop :=
  Locates indexed.places indexed.table.names

end IndexedTable

namespace SymbolTable

variable {table : SymbolTable}

/-! ## One insertion -/

theorem contains_iff_mem_names {name : String} :
    table.contains name = true ↔ name ∈ table.names := by
  simp [contains, names]

theorem admits_iff {symbol : Symbol} :
    table.admits symbol = true ↔ symbol.name ∉ table.names := by
  rw [admits, Bool.not_eq_true', ← Bool.not_eq_true, contains_iff_mem_names]

theorem admits_eq_false_iff {symbol : Symbol} :
    table.admits symbol = false ↔ symbol.name ∈ table.names := by
  rw [← Bool.not_eq_true, admits_iff, not_not]

theorem insert_of_known {symbol : Symbol} (known : symbol.name ∈ table.names) :
    table.insert symbol = table :=
  insert_of_contains (contains_iff_mem_names.mpr known)

theorem insert_of_new {symbol : Symbol} (new : symbol.name ∉ table.names) :
    table.insert symbol = ⟨table.symbols ++ [symbol]⟩ := by
  rw [insert, if_neg (mt contains_iff_mem_names.mp new)]

theorem describe_eq (table : SymbolTable) (name : String) :
    table.describe name = ((table.get? name).map Symbol.describe).getD "" := by
  rw [describe]
  cases table.get? name <;> rfl

/-! ## A whole run -/

theorem filled_concat (inserted : List Symbol) (symbol : Symbol) :
    filled (inserted ++ [symbol]) = (filled inserted).insert symbol :=
  insertAll_append _ _ _

theorem filled_names_nodup (inserted : List Symbol) : (filled inserted).names.Nodup :=
  insertAll_names_nodup inserted List.nodup_nil

/-- Under every name the table has the symbol that was inserted first. -/
theorem get?_filled (inserted : List Symbol) (name : String) :
    (filled inserted).get? name = inserted.find? (·.name == name) := by
  rw [filled, get?_insertAll, get?_empty, Option.none_or]

theorem mem_filled_iff {inserted : List Symbol} {symbol : Symbol} :
    symbol ∈ (filled inserted).symbols ↔
      inserted.find? (·.name == symbol.name) = some symbol := by
  rw [← get?_filled, get?_eq_some_iff (filled_names_nodup inserted)]
  exact (and_iff_left rfl).symm

theorem filled_listsFirsts (inserted : List Symbol) :
    ListsFirsts (filled inserted).names (inserted.map (·.name)) := by
  induction inserted using List.reverseRecOn with
  | nil => exact ListsFirsts.nil
  | append_singleton inserted symbol ih =>
      rw [filled_concat, List.map_append]
      by_cases known : symbol.name ∈ (filled inserted).names
      · rw [insert_of_known known]
        exact ih.again known
      · rw [insert_of_new known, names, List.map_append]
        exact ih.concat known

end SymbolTable

namespace IndexedTable

variable {indexed : IndexedTable}

/-- In step with its places, a table changes and answers as if its symbols were searched. -/
theorem InStep.insert (inStep : indexed.InStep) (symbol : Symbol) :
    (indexed.insert symbol).1.InStep ∧
      (indexed.insert symbol).1.table = indexed.table.insert symbol ∧
      (indexed.insert symbol).2 = indexed.table.admits symbol := by
  by_cases known : symbol.name ∈ indexed.table.names
  · rw [IndexedTable.insert, if_pos (inStep.contains_iff.mpr known),
      SymbolTable.insert_of_known known, SymbolTable.admits_eq_false_iff.mpr known]
    exact ⟨inStep, rfl, rfl⟩
  · rw [IndexedTable.insert, if_neg (mt inStep.contains_iff.mp known),
      SymbolTable.insert_of_new known, SymbolTable.admits_iff.mpr known]
    refine ⟨?_, rfl, rfl⟩
    have located := Locates.insert inStep known
    rwa [SymbolTable.names, List.length_map, ← List.map_singleton (f := Symbol.name),
      ← List.map_append] at located

theorem InStep.insert_of_refused (inStep : indexed.InStep) {symbol : Symbol}
    (refused : indexed.table.admits symbol = false) : (indexed.insert symbol).1 = indexed := by
  have known := SymbolTable.admits_eq_false_iff.mp refused
  rw [IndexedTable.insert, if_pos (inStep.contains_iff.mpr known)]

theorem InStep.contains_eq (inStep : indexed.InStep) (name : String) :
    indexed.places.contains name = indexed.table.contains name := by
  rw [Bool.eq_iff_iff, inStep.contains_iff, SymbolTable.contains_iff_mem_names]

theorem InStep.get?_eq (inStep : indexed.InStep) (name : String) :
    indexed.get? name = indexed.table.get? name := by
  rw [get?]
  cases found : indexed.places[name]? with
  | none =>
      have unnamed := inStep.getElem?_eq_none_iff.mp found
      rw [← SymbolTable.contains_iff_mem_names, SymbolTable.contains_eq_isSome_get?,
        Bool.not_eq_true, Option.isSome_eq_false_iff, Option.isNone_iff_eq_none] at unnamed
      rw [unnamed, Option.bind_none]
  | some place =>
      -- The names are distinct, so the symbol at the place is the one that a search finds.
      have there := (inStep name place).mp found
      rw [SymbolTable.names, List.getElem?_map, Option.map_eq_some_iff] at there
      obtain ⟨symbol, here, rfl⟩ := there
      have listed := (SymbolTable.get?_eq_some_iff inStep.distinct).mpr
        ⟨List.mem_of_getElem? here, rfl⟩
      rw [listed, Option.bind_some, here]

theorem filled_inStep (inserted : List Symbol) :
    (filled inserted).InStep ∧ (filled inserted).table = SymbolTable.filled inserted := by
  induction inserted using List.reverseRecOn with
  | nil => exact ⟨Locates.empty, rfl⟩
  | append_singleton inserted symbol ih =>
      obtain ⟨inStep, same⟩ := ih
      have last : filled (inserted ++ [symbol]) = ((filled inserted).insert symbol).1 := by
        simp [filled]
      obtain ⟨stays, table, -⟩ := inStep.insert symbol
      rw [last, SymbolTable.filled_concat, table, same]
      exact ⟨stays, rfl⟩

end IndexedTable

namespace SymbolTable

/-- In every run the names are distinct, a symbol is added exactly if its name was never inserted,
and otherwise nothing changes.  What is found under a name comes from the first symbol inserted
under it, and these first symbols are listed in the order of their insertion.  A table of places
that is kept beside the symbols has exactly the places of the names and gives the same answers. -/
theorem filled_classifies_once (inserted : List Symbol) :
    (filled inserted).names.Nodup ∧
    (IndexedTable.filled inserted).table = filled inserted ∧
    Locates (IndexedTable.filled inserted).places (filled inserted).names ∧
    (∀ symbol,
      ((filled inserted).admits symbol = true ↔
        ∀ earlier ∈ inserted, earlier.name ≠ symbol.name) ∧
      ((filled inserted).admits symbol = true →
        (filled inserted).insert symbol = ⟨(filled inserted).symbols ++ [symbol]⟩) ∧
      ((filled inserted).admits symbol = false →
        (filled inserted).insert symbol = filled inserted ∧
          ((IndexedTable.filled inserted).insert symbol).1 = IndexedTable.filled inserted) ∧
      ((IndexedTable.filled inserted).insert symbol).2 = (filled inserted).admits symbol) ∧
    (∀ name,
      (filled inserted).get? name = inserted.find? (·.name == name) ∧
      (filled inserted).contains name = (inserted.find? (·.name == name)).isSome ∧
      (filled inserted).describe name =
        ((inserted.find? (·.name == name)).map Symbol.describe).getD "" ∧
      (IndexedTable.filled inserted).get? name = (filled inserted).get? name ∧
      (IndexedTable.filled inserted).places.contains name = (filled inserted).contains name ∧
      (IndexedTable.filled inserted).describe name = (filled inserted).describe name) ∧
    (∀ symbol, symbol ∈ (filled inserted).symbols ↔
      inserted.find? (·.name == symbol.name) = some symbol) ∧
    ListsFirsts (filled inserted).names (inserted.map (·.name)) := by
  obtain ⟨inStep, same⟩ := IndexedTable.filled_inStep inserted
  have located : Locates (IndexedTable.filled inserted).places (filled inserted).names :=
    same ▸ inStep
  have firsts := filled_listsFirsts inserted
  refine ⟨firsts.distinct, same, located, fun symbol => ⟨?_, ?_, ?_, ?_⟩,
    fun name => ⟨get?_filled inserted name, ?_, ?_, ?_, ?_, ?_⟩, fun symbol => mem_filled_iff,
    firsts⟩
  · rw [admits_iff, firsts.mem_iff, List.mem_map, not_exists]
    exact forall_congr' fun earlier => not_and
  · intro admitted
    exact insert_of_new (admits_iff.mp admitted)
  · intro refused
    exact ⟨insert_of_known (admits_eq_false_iff.mp refused),
      inStep.insert_of_refused (same ▸ refused)⟩
  · rw [(inStep.insert symbol).2.2, same]
  · rw [contains_eq_isSome_get?, get?_filled]
  · rw [describe_eq, get?_filled]
  · rw [inStep.get?_eq, same]
  · rw [inStep.contains_eq, same]
  · rw [IndexedTable.describe, inStep.get?_eq, same, describe_eq]

/-- A method, its class, and a function of the same name as the method. -/
def sharedName : List Symbol :=
  [⟨"save", .method, some "User"⟩, ⟨"User", .class, none⟩, ⟨"save", .function, none⟩]

theorem filled_sharedName :
    (filled sharedName).describe "save" = "method of User" ∧
      (IndexedTable.filled sharedName).describe "save" = "method of User" ∧
      (IndexedTable.filled sharedName).places["User"]? = some 1 ∧
      ((IndexedTable.filled sharedName).insert ⟨"User", .struct, none⟩).2 = false ∧
      (filled sharedName).insert ⟨"Users", .struct, none⟩ =
        ⟨[⟨"save", .method, some "User"⟩, ⟨"User", .class, none⟩, ⟨"Users", .struct, none⟩]⟩ := by
  obtain ⟨-, -, located, insertion, answers, -, -⟩ := filled_classifies_once sharedName
  obtain ⟨-, -, described, -, -, same⟩ := answers "save"
  refine ⟨described, same.trans described, (located "User" 1).mpr (by decide +kernel), ?_, ?_⟩
  · rw [(insertion _).2.2.2]
    decide +kernel
  · exact (insertion _).2.1 (by decide +kernel)

end SymbolTable
end SourceAtlas
