import Mathlib.Algebra.BigOperators.Group.List.Defs
import Mathlib.Data.List.Induction
import SourceAtlas.Proofs.GroupedEntries
import SourceAtlas.Proofs.OrderedTrees
import SourceAtlas.Proofs.RelationMap

/-!
# Relations stay with their symbols

In whatever order relations are pushed, a relation map has exactly the relations of a symbol under
that symbol, in the order of the pushes, and lists the symbols in the order of their first
relations.  A table of the places of the symbols that is kept beside the entries leads every
push and every lookup to the same entry.
-/

namespace SourceAtlas

namespace RelationMap

/-- The map of some relations of symbols that are pushed one after another. -/
def filled (pushes : List (String × Relation)) : RelationMap :=
  pushes.foldl (fun map push => map.push push.1 push.2) {}

/-- The relations that are pushed for a symbol, in the order of the pushes. -/
def pushedFor (pushes : List (String × Relation)) (source : String) : List Relation :=
  (pushes.filter (·.1 == source)).map (·.2)

def sources (map : RelationMap) : List String :=
  map.entries.map (·.1)

end RelationMap

/-- A relation map with a table of the places of its symbols beside it. -/
structure IndexedRelations where
  map : RelationMap := {}
  places : Std.HashMap String Nat := {}

namespace IndexedRelations

/-- The place of a symbol, and the map with an empty entry at the end for a new one. -/
def opened (indexed : IndexedRelations) (source : String) : IndexedRelations × Nat :=
  match indexed.places[source]? with
  | some place => (indexed, place)
  | none =>
      let place := indexed.map.entries.length
      ({ map := ⟨indexed.map.entries ++ [(source, [])]⟩
         places := indexed.places.insert source place }, place)

/-- Adds a relation to the entry at the place of its symbol. -/
def push (indexed : IndexedRelations) (source : String) (relation : Relation) :
    IndexedRelations :=
  let ready := (indexed.opened source).1
  let place := (indexed.opened source).2
  { ready with
    map := ⟨ready.map.entries.modify place fun entry => (entry.1, entry.2 ++ [relation])⟩ }

/-- The relations of the entry at the place of a symbol. -/
def get (indexed : IndexedRelations) (source : String) : List Relation :=
  ((indexed.places[source]?.bind fun place => indexed.map.entries[place]?).map (·.2)).getD []

def filled (pushes : List (String × Relation)) : IndexedRelations :=
  pushes.foldl (fun indexed push => indexed.push push.1 push.2) {}

/-- Whether the places of an indexed map are those of the symbols of its entries. -/
def InStep (indexed : IndexedRelations) : Prop :=
  Locates indexed.places indexed.map.sources

end IndexedRelations

namespace RelationMap

/-! ## The map -/

theorem pushEntry_eq_appendUnder (source : String) (relation : Relation)
    (entries : List (String × List Relation)) :
    pushEntry source relation entries = appendUnder source [relation] entries := by
  induction entries with
  | nil => rfl
  | cons entry entries ih => rw [pushEntry, appendUnder, ih]

theorem filled_concat (pushes : List (String × Relation)) (push : String × Relation) :
    filled (pushes ++ [push]) = (filled pushes).push push.1 push.2 := by
  simp [filled]

/-- Every push is an addition of one relation. -/
theorem filled_entries (pushes : List (String × Relation)) :
    (filled pushes).entries = (pushes.map fun push => (push.1, [push.2])).foldl
      (fun entries addition => appendUnder addition.1 addition.2 entries) [] := by
  induction pushes using List.reverseRecOn with
  | nil => rfl
  | append_singleton pushes push ih =>
      rw [filled_concat, List.map_append, List.foldl_append, ← ih]
      exact pushEntry_eq_appendUnder _ _ _

theorem valuesUnder_eq_pushedFor (source : String) (pushes : List (String × Relation)) :
    valuesUnder source (pushes.map fun push => (push.1, [push.2])) = pushedFor pushes source := by
  rw [valuesUnder, pushedFor, List.flatMap_map]
  induction pushes with
  | nil => rfl
  | cons push pushes ih =>
      rw [List.flatMap_cons, ih, List.filter_cons]
      by_cases same : push.1 = source
      · simp [same]
      · simp [same]

theorem filled_groups (pushes : List (String × Relation)) :
    Groups (pushes.map fun push => (push.1, [push.2])) (filled pushes).entries := by
  rw [filled_entries]
  exact groups_foldl _

theorem filled_listsFirsts (pushes : List (String × Relation)) :
    ListsFirsts (filled pushes).sources (pushes.map (·.1)) := by
  have firsts := (filled_groups pushes).listsFirsts
  rwa [List.map_map] at firsts

theorem eq_pushedFor_of_mem {pushes : List (String × Relation)} {entry : String × List Relation}
    (member : entry ∈ (filled pushes).entries) : entry.2 = pushedFor pushes entry.1 := by
  rw [← valuesUnder_eq_pushedFor]
  exact (filled_groups pushes).values entry member

theorem get_of_mem {map : RelationMap} (distinct : map.sources.Nodup)
    {entry : String × List Relation} (member : entry ∈ map.entries) :
    map.get entry.1 = entry.2 := by
  rw [get, (lookup_eq_some_iff_mem distinct).mpr member, Option.getD_some]

theorem get_of_unlisted {map : RelationMap} {source : String} (unlisted : source ∉ map.sources) :
    map.get source = [] := by
  have missing : map.entries.lookup source = none := by
    rw [List.lookup_eq_none_iff]
    intro entry member
    rw [bne_iff_ne]
    rintro rfl
    exact unlisted (List.mem_map_of_mem member)
  rw [get, missing, Option.getD_none]

theorem pushedFor_eq_nil_iff {pushes : List (String × Relation)} {source : String} :
    pushedFor pushes source = [] ↔ source ∉ pushes.map (·.1) := by
  rw [pushedFor, List.map_eq_nil_iff, List.filter_eq_nil_iff, List.mem_map, not_exists]
  refine forall_congr' fun push => ?_
  rw [beq_iff_eq, not_and]

/-- Under every symbol the map has what was pushed for it. -/
theorem get_filled (pushes : List (String × Relation)) (source : String) :
    (filled pushes).get source = pushedFor pushes source := by
  have firsts := filled_listsFirsts pushes
  by_cases listed : source ∈ (filled pushes).sources
  · obtain ⟨entry, member, rfl⟩ := List.mem_map.mp listed
    rw [get_of_mem firsts.distinct member, eq_pushedFor_of_mem member]
  · rw [get_of_unlisted listed, pushedFor_eq_nil_iff.mpr (mt (firsts.mem_iff source).mpr listed)]

theorem valueCount_filled (pushes : List (String × Relation)) :
    valueCount (filled pushes).entries = pushes.length := by
  rw [filled_entries, valueCount_foldl]
  simp [valueCount, Function.comp_def]

/-- Among distinct symbols a push changes the entry at the place of its symbol. -/
theorem pushEntry_eq_modify {source : String} (relation : Relation)
    {entries : List (String × List Relation)} (distinct : (entries.map (·.1)).Nodup) {place : Nat}
    (there : (entries.map (·.1))[place]? = some source) :
    pushEntry source relation entries =
      entries.modify place fun entry => (entry.1, entry.2 ++ [relation]) := by
  induction entries generalizing place with
  | nil => simp at there
  | cons entry entries ih =>
      obtain ⟨name, relations⟩ := entry
      obtain ⟨fresh, distinctRest⟩ := List.nodup_cons.mp distinct
      cases place with
      | zero =>
          obtain rfl : name = source := by simpa using there
          rw [pushEntry, if_pos rfl, List.modify_zero_cons]
      | succ place =>
          rw [List.map_cons, List.getElem?_cons_succ] at there
          have elsewhere : name ≠ source := by
            rintro rfl
            exact fresh (List.mem_of_getElem? there)
          rw [pushEntry, if_neg elsewhere, List.modify_succ_cons, ih distinctRest there]

theorem map_fst_modify (entries : List (String × List Relation)) (place : Nat)
    (change : List Relation → List Relation) :
    (entries.modify place fun entry => (entry.1, change entry.2)).map (·.1) =
      entries.map (·.1) := by
  induction entries generalizing place with
  | nil => simp
  | cons entry entries ih =>
      cases place with
      | zero => simp
      | succ place => simp [ih]

end RelationMap

namespace IndexedRelations

variable {indexed : IndexedRelations}

/-! ## The table of places -/

/-- Opening an entry gives the symbol a place and changes nothing for a push to it. -/
theorem InStep.opened (inStep : indexed.InStep) (source : String) (relation : Relation) :
    (indexed.opened source).1.InStep ∧
      (indexed.opened source).1.map.sources[(indexed.opened source).2]? = some source ∧
      RelationMap.pushEntry source relation (indexed.opened source).1.map.entries =
        RelationMap.pushEntry source relation indexed.map.entries := by
  rw [IndexedRelations.opened]
  cases found : indexed.places[source]? with
  | some place => exact ⟨inStep, (inStep source place).mp found, rfl⟩
  | none =>
      -- The new entry stands last, where a push would have opened it.
      have new := inStep.getElem?_eq_none_iff.mp found
      have length : indexed.map.sources.length = indexed.map.entries.length := List.length_map _
      have names : (⟨indexed.map.entries ++ [(source, [])]⟩ : RelationMap).sources =
          indexed.map.sources ++ [source] := List.map_append
      have located := Locates.insert inStep new
      rw [length, ← names] at located
      refine ⟨located, ?_, ?_⟩
      · simp only
        rw [names, ← length]
        exact List.getElem?_concat_length
      · exact (RelationMap.pushEntry_last relation new []).trans
          (RelationMap.pushEntry_of_fresh relation new).symm

/-- In step with its places, a map changes as if its entries were searched. -/
theorem InStep.push (inStep : indexed.InStep) (source : String) (relation : Relation) :
    (indexed.push source relation).InStep ∧
      (indexed.push source relation).map = indexed.map.push source relation := by
  obtain ⟨ready, there, same⟩ := inStep.opened source relation
  have changed := RelationMap.pushEntry_eq_modify relation ready.distinct there
  constructor
  · have names : (indexed.push source relation).map.sources =
        (indexed.opened source).1.map.sources :=
      RelationMap.map_fst_modify _ _ (· ++ [relation])
    rw [InStep, names]
    exact ready
  · rw [IndexedRelations.push, RelationMap.push, ← same, changed]

theorem InStep.get_eq (inStep : indexed.InStep) (source : String) :
    indexed.get source = indexed.map.get source := by
  rw [get]
  cases found : indexed.places[source]? with
  | none =>
      rw [RelationMap.get_of_unlisted (inStep.getElem?_eq_none_iff.mp found)]
      rfl
  | some place =>
      have there := (inStep source place).mp found
      rw [RelationMap.sources, List.getElem?_map, Option.map_eq_some_iff] at there
      obtain ⟨entry, here, rfl⟩ := there
      rw [RelationMap.get_of_mem inStep.distinct (List.mem_of_getElem? here), Option.bind_some,
        here]
      rfl

theorem filled_inStep (pushes : List (String × Relation)) :
    (filled pushes).InStep ∧ (filled pushes).map = RelationMap.filled pushes := by
  induction pushes using List.reverseRecOn with
  | nil => exact ⟨Locates.empty, rfl⟩
  | append_singleton pushes push ih =>
      obtain ⟨inStep, same⟩ := ih
      have last : filled (pushes ++ [push]) = (filled pushes).push push.1 push.2 := by
        simp [filled]
      obtain ⟨stays, map⟩ := inStep.push push.1 push.2
      rw [last, RelationMap.filled_concat, map, same]
      exact ⟨stays, rfl⟩

end IndexedRelations

namespace RelationMap

/-- In every run a symbol has exactly the relations that were pushed for it, in the order of the
pushes, the symbols are listed once and in the order of their first pushes, none of them without a
relation, and as many relations are listed as were pushed.  A table of places that is kept beside
the entries has exactly the places of the symbols and gives the same entries and answers. -/
theorem filled_lists_pushes (pushes : List (String × Relation)) :
    (∀ source, (filled pushes).get source = pushedFor pushes source) ∧
    ListsFirsts (filled pushes).sources (pushes.map (·.1)) ∧
    (∀ entry ∈ (filled pushes).entries,
      entry.2 = pushedFor pushes entry.1 ∧ entry.2 ≠ []) ∧
    ((filled pushes).entries.map (·.2.length)).sum = pushes.length ∧
    (IndexedRelations.filled pushes).map = filled pushes ∧
    Locates (IndexedRelations.filled pushes).places (filled pushes).sources ∧
    ∀ source, (IndexedRelations.filled pushes).get source = (filled pushes).get source := by
  obtain ⟨inStep, same⟩ := IndexedRelations.filled_inStep pushes
  have firsts := filled_listsFirsts pushes
  refine ⟨get_filled pushes, firsts, fun entry member => ⟨eq_pushedFor_of_mem member, ?_⟩,
    valueCount_filled pushes, same, same ▸ inStep, fun source => same ▸ inStep.get_eq source⟩
  rw [eq_pushedFor_of_mem member, Ne, pushedFor_eq_nil_iff, not_not, ← firsts.mem_iff]
  exact List.mem_map_of_mem member

/-- Pushes for two symbols that take turns, one of them the same relation twice. -/
def takingTurns : List (String × Relation) :=
  [("B", .uses "A"), ("A", .inheritsFrom "B"), ("B", .hasMethod "run"), ("A", .inheritsFrom "B")]

theorem filled_takingTurns :
    (filled takingTurns).get "A" = [.inheritsFrom "B", .inheritsFrom "B"] ∧
      (IndexedRelations.filled takingTurns).get "B" = [.uses "A", .hasMethod "run"] ∧
      (IndexedRelations.filled takingTurns).places["A"]? = some 1 ∧
      (filled takingTurns).get "C" = [] ∧
      ∀ entry ∈ (filled takingTurns).entries, entry.2 ≠ [] := by
  obtain ⟨relations, -, listed, -, -, located, same⟩ := filled_lists_pushes takingTurns
  refine ⟨(relations "A").trans (by decide +kernel), ?_,
    (located "A" 1).mpr (by decide +kernel), (relations "C").trans (by decide +kernel),
    fun entry member => (listed entry member).2⟩
  rw [same "B", relations "B"]
  decide +kernel

end RelationMap
end SourceAtlas
