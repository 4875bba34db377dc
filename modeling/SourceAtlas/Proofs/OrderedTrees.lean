import SourceAtlas.Proofs.FileNames

/-!
# Trees whose entries have names of their own

In every directory of a well-formed tree the entries have different names, which are names
of entries.  Then looking up a name finds the one entry of that name, in whatever order the
entries stand, and sorting a directory puts its names in strictly ascending order of their
bytes.
-/

namespace SourceAtlas

/-- Among entries of different names a name stands for one entry. -/
theorem lookup_eq_some_iff_mem {α β : Type} [BEq α] [LawfulBEq α] {entries : List (α × β)}
    (apart : (entries.map Prod.fst).Nodup) {name : α} {value : β} :
    entries.lookup name = some value ↔ (name, value) ∈ entries := by
  induction entries with
  | nil => simp
  | cons entry entries ih =>
      obtain ⟨key, held⟩ := entry
      obtain ⟨fresh, apart⟩ := List.nodup_cons.1 apart
      by_cases same : name = key
      · subst same
        have elsewhere : (name, value) ∉ entries := fun member =>
          fresh (List.mem_map.2 ⟨_, member, rfl⟩)
        simp [elsewhere, eq_comm]
      · have differs : (name == key) = false := by simpa using same
        simp [List.lookup_cons, differs, same, ih apart]

namespace FileTree

/-- In every directory of the tree the entries have different names, all of them names that
entries can have. -/
inductive WellFormed : FileTree → Prop where
  | file (content : ByteArray) (access : Access) : WellFormed (file content access)
  | link (target : Bytes) : WellFormed (link target)
  | directory (entries : List (Bytes × FileTree)) (access : Access)
      (apart : (entries.map Prod.fst).Nodup)
      (named : ∀ name ∈ entries.map Prod.fst, IsEntryName name)
      (below : ∀ entry ∈ entries, WellFormed entry.2) : WellFormed (directory entries access)

section Locations

variable {entries : List (Bytes × FileTree)} {access : Access} {name : Bytes}
  {others : List Bytes}

@[simp]
theorem at?_file_cons (content : ByteArray) :
    (file content access).at? (name :: others) = none :=
  rfl

@[simp]
theorem at?_link_cons (target : Bytes) : (link target).at? (name :: others) = none :=
  rfl

theorem at?_directory_cons :
    (directory entries access).at? (name :: others) =
      (entries.lookup name).bind (·.at? others) :=
  rfl

/-- A path below a directory begins with an entry and goes on below it. -/
theorem at?_directory_cons_eq_some_iff (apart : (entries.map Prod.fst).Nodup)
    {tree : FileTree} :
    (directory entries access).at? (name :: others) = some tree ↔
      ∃ child, (name, child) ∈ entries ∧ child.at? others = some tree := by
  rw [at?_directory_cons, Option.bind_eq_some_iff]
  simp only [lookup_eq_some_iff_mem apart]

theorem at?_of_mem (apart : (entries.map Prod.fst).Nodup) {child : FileTree}
    (member : (name, child) ∈ entries) :
    (directory entries access).at? (name :: others) = child.at? others := by
  rw [at?_directory_cons, (lookup_eq_some_iff_mem apart).2 member, Option.bind_some]

end Locations

theorem WellFormed.isEntryName {tree : FileTree} (wellFormed : tree.WellFormed)
    {location : List Bytes} {reached : FileTree} (leads : tree.at? location = some reached) :
    ∀ name ∈ location, IsEntryName name := by
  induction wellFormed generalizing location with
  | file | link =>
      cases location with
      | nil => simp
      | cons name others => simp at leads
  | directory entries access apart named _ ih =>
      cases location with
      | nil => simp
      | cons name others =>
          obtain ⟨child, member, leads⟩ := (at?_directory_cons_eq_some_iff apart).1 leads
          have here : IsEntryName name := named name (List.mem_map.2 ⟨_, member, rfl⟩)
          simpa [here] using ih (name, child) member leads

/-! ## Sorting -/

/-- An entry with its tree sorted. -/
def sortedEntry (entry : Bytes × FileTree) : Bytes × FileTree :=
  (entry.1, entry.2.sorted)

/-- The order in which entries are sorted. -/
def atMost (first second : Bytes × FileTree) : Bool :=
  !(second.1 < first.1)

theorem atMost_iff {first second : Bytes × FileTree} :
    atMost first second = true ↔ first.1 ≤ second.1 := by
  simp [atMost, List.not_lt]

theorem sortedEntries_eq_map (entries : List (Bytes × FileTree)) :
    sortedEntries entries = entries.map sortedEntry := by
  induction entries with
  | nil => rfl
  | cons entry entries ih => rw [sortedEntries, ih, List.map_cons, sortedEntry]

theorem sorted_directory_eq (entries : List (Bytes × FileTree)) (access : Access) :
    (directory entries access).sorted =
      directory ((entries.map sortedEntry).mergeSort atMost) access := by
  rw [sorted, sortedEntries_eq_map]
  rfl

theorem isDirectory_sorted (tree : FileTree) : tree.sorted.isDirectory = tree.isDirectory := by
  cases tree <;> rfl

theorem mergeSort_ascending (entries : List (Bytes × FileTree)) :
    (entries.mergeSort atMost).Pairwise fun first second => first.1 ≤ second.1 := by
  have ordered := List.pairwise_mergeSort
    (fun first second third (least : atMost first second = true)
        (greatest : atMost second third = true) =>
      atMost_iff.2 (List.le_trans (atMost_iff.1 least) (atMost_iff.1 greatest)))
    (fun first second => by
      rw [Bool.or_eq_true, atMost_iff, atMost_iff]
      exact List.le_total first.1 second.1) entries
  exact ordered.imp atMost_iff.1

/-- Entries that are in order already keep their places. -/
theorem sorted_of_ascending {entries : List (Bytes × FileTree)}
    (ascending : entries.Pairwise fun first second => first.1 < second.1) (access : Access) :
    (directory entries access).sorted = directory (entries.map sortedEntry) access := by
  rw [sorted_directory_eq, List.mergeSort_of_pairwise]
  exact List.pairwise_map.2 (ascending.imp fun less => atMost_iff.2 (List.le_of_lt less))

/-- The entries of a directory, each sorted itself, in strictly ascending order of their
names. -/
theorem sorted_directory {entries : List (Bytes × FileTree)}
    (apart : (entries.map Prod.fst).Nodup) (access : Access) :
    ∃ ordered, (directory entries access).sorted = directory ordered access ∧
      ordered.Perm (entries.map sortedEntry) ∧
      ordered.Pairwise (fun first second => first.1 < second.1) := by
  have perm := List.mergeSort_perm (entries.map sortedEntry) atMost
  refine ⟨_, sorted_directory_eq entries access, perm, ?_⟩
  have names : (entries.map sortedEntry).map Prod.fst = entries.map Prod.fst := by
    rw [List.map_map]
    rfl
  have different := (perm.map Prod.fst).nodup_iff.2 (names ▸ apart)
  refine ((mergeSort_ascending _).and (List.pairwise_map.1 different)).imp ?_
  rintro first second ⟨ascends, differs⟩
  exact List.not_le.1 fun descends => differs (List.le_antisymm ascends descends)

end FileTree
end SourceAtlas
