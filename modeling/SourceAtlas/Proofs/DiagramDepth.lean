import Mathlib.Data.List.Forall2
import Mathlib.Data.List.Nodup
import SourceAtlas.Proofs.DirectoryDiagram

/-!
# Directory diagrams of limited depth

A limit on the depth of a diagram is counted down while the columns grow, and the walk stops
where nothing is left of it.  The result is the full diagram with the deeper lines taken out:
every line stands for one entry of the tree, and the lines that stay are those whose entries
are not too deep, with the columns and marks that they have in the full diagram.
-/

namespace SourceAtlas
namespace FileTree

mutual

/-- Where the entries below a tree are, in the order of a walk. -/
def locations : FileTree → List (List Bytes)
  | directory entries _ => entryLocations entries
  | file _ _ => []
  | link _ => []

def entryLocations : List (Bytes × FileTree) → List (List Bytes)
  | [] => []
  | (name, tree) :: others =>
      [name] :: (tree.locations.map (name :: ·) ++ entryLocations others)

end

theorem mem_entryLocations {entries : List (Bytes × FileTree)} {location : List Bytes} :
    location ∈ entryLocations entries ↔ ∃ entry ∈ entries, ∃ below,
      location = entry.1 :: below ∧ (below = [] ∨ below ∈ entry.2.locations) := by
  induction entries with
  | nil => simp [entryLocations]
  | cons entry others ih =>
      obtain ⟨name, tree⟩ := entry
      rw [entryLocations, List.mem_cons, List.mem_append, ih, List.exists_mem_cons_iff]
      constructor
      · rintro (rfl | lower | later)
        · exact Or.inl ⟨[], rfl, Or.inl rfl⟩
        · obtain ⟨below, member, rfl⟩ := List.mem_map.mp lower
          exact Or.inl ⟨below, rfl, Or.inr member⟩
        · exact Or.inr later
      · rintro (⟨below, rfl, rfl | member⟩ | later)
        · exact Or.inl rfl
        · exact Or.inr (Or.inl (List.mem_map_of_mem member))
        · exact Or.inr (Or.inr later)

theorem mem_names_of_mem_entryLocations {entries : List (Bytes × FileTree)} {name : Bytes}
    {below : List Bytes} (member : name :: below ∈ entryLocations entries) :
    name ∈ entries.map Prod.fst := by
  obtain ⟨entry, known, _, same, -⟩ := mem_entryLocations.mp member
  rw [(List.cons.inj same).1]
  exact List.mem_map_of_mem known

theorem ne_nil_of_mem_locations {tree : FileTree} {location : List Bytes}
    (member : location ∈ tree.locations) : location ≠ [] := by
  cases tree with
  | file | link => simp [locations] at member
  | directory entries =>
      obtain ⟨entry, -, below, rfl, -⟩ := mem_entryLocations.mp member
      exact List.cons_ne_nil _ _

/-- Sorting a tree moves its entries about, but loses and adds none. -/
theorem mem_locations_sorted_iff {tree : FileTree} (wellFormed : tree.WellFormed)
    {location : List Bytes} :
    location ∈ tree.sorted.locations ↔ location ≠ [] ∧ (tree.at? location).isSome = true := by
  induction wellFormed generalizing location with
  | file | link => cases location <;> simp [sorted, locations]
  | directory entries access apart _ _ ih =>
      obtain ⟨ordered, sorted, perm, -⟩ := sorted_directory apart access
      rw [sorted, locations, mem_entryLocations]
      simp only [Option.isSome_iff_exists] at ih ⊢
      constructor
      · rintro ⟨entry, member, below, rfl, found⟩
        obtain ⟨original, known, rfl⟩ := List.mem_map.mp (perm.mem_iff.mp member)
        have leads : ∃ reached, original.2.at? below = some reached := by
          rcases found with rfl | further
          · exact ⟨original.2, rfl⟩
          · exact ((ih original known).mp further).2
        obtain ⟨reached, leads⟩ := leads
        exact ⟨List.cons_ne_nil _ _, reached,
          (at?_directory_cons_eq_some_iff apart).mpr ⟨original.2, known, leads⟩⟩
      · rintro ⟨notEmpty, reached, leads⟩
        cases location with
        | nil => exact absurd rfl notEmpty
        | cons name below =>
            obtain ⟨child, known, further⟩ := (at?_directory_cons_eq_some_iff apart).mp leads
            refine ⟨sortedEntry (name, child), perm.mem_iff.mpr (List.mem_map_of_mem known),
              below, rfl, ?_⟩
            rcases List.eq_nil_or_concat below with rfl | ⟨_, _, rfl⟩
            · exact Or.inl rfl
            · exact Or.inr ((ih (name, child) known).mpr ⟨by simp, reached, further⟩)

theorem entryLocations_nodup {entries : List (Bytes × FileTree)}
    (apart : (entries.map Prod.fst).Nodup)
    (below : ∀ entry ∈ entries, entry.2.locations.Nodup) : (entryLocations entries).Nodup := by
  induction entries with
  | nil => exact List.nodup_nil
  | cons entry others ih =>
      obtain ⟨name, tree⟩ := entry
      obtain ⟨fresh, apart⟩ := List.nodup_cons.mp apart
      obtain ⟨here, later⟩ := List.forall_mem_cons.mp below
      rw [entryLocations, List.nodup_cons, List.nodup_append]
      refine ⟨?_, here.map (List.cons_injective), ih apart later, ?_⟩
      · rw [List.mem_append, not_or]
        constructor
        · intro member
          obtain ⟨location, known, same⟩ := List.mem_map.mp member
          exact ne_nil_of_mem_locations known (List.cons.inj same).2
        · exact fun member => fresh (mem_names_of_mem_entryLocations member)
      · rintro first member second further rfl
        obtain ⟨location, -, rfl⟩ := List.mem_map.mp member
        exact fresh (mem_names_of_mem_entryLocations further)

theorem locations_sorted_nodup {tree : FileTree} (wellFormed : tree.WellFormed) :
    tree.sorted.locations.Nodup := by
  induction wellFormed with
  | file | link => exact List.nodup_nil
  | directory entries access apart _ _ ih =>
      obtain ⟨ordered, sorted, perm, ascending⟩ := sorted_directory apart access
      rw [sorted]
      apply entryLocations_nodup
      · refine List.pairwise_map.mpr (ascending.imp fun less same => ?_)
        rw [same] at less
        exact List.lt_irrefl _ less
      · intro entry member
        obtain ⟨original, known, rfl⟩ := List.mem_map.mp (perm.mem_iff.mp member)
        exact ih original known

end FileTree

namespace DirectoryReport

/-- Whether a line shows what is at a location: `width` characters and four more for every
level, then the last name of the location, or `root` where there is none. -/
def Shows (width : Nat) (root : Bytes) (location : List Bytes) (line : String) : Prop :=
  ∃ columns : String, columns.length = width + 4 * location.length ∧
    line = columns ++ (location.getLast?.getD root).shown

theorem Shows.below {width : Nat} {root name : Bytes} {line : String} {location : List Bytes}
    (shows : Shows (width + 4) name location line) : Shows width root (name :: location) line := by
  obtain ⟨columns, measured, rfl⟩ := shows
  refine ⟨columns, ?_, ?_⟩
  · rw [measured, List.length_cons]
    omega
  · rw [List.getLast?_cons, Option.getD_some]

theorem mark_length (isLast : Bool) : (mark isLast).length = 4 := by
  cases isLast <;> decide +kernel

theorem column_length (isLast : Bool) : (column isLast).length = 4 := by
  cases isLast <;> decide +kernel

mutual

theorem treeLines_shows (stem : String) (root : Bytes) (tree : FileTree) :
    List.Forall₂ (Shows stem.length root) tree.locations (treeLines none stem tree) := by
  cases tree with
  | file | link => exact .nil
  | directory entries => exact entriesLines_shows stem root entries

theorem entriesLines_shows (stem : String) (root : Bytes) (entries : List (Bytes × FileTree)) :
    List.Forall₂ (Shows stem.length root) (FileTree.entryLocations entries)
      (entriesLines none stem entries) := by
  cases entries with
  | nil => exact .nil
  | cons entry others =>
      obtain ⟨name, tree⟩ := entry
      rw [FileTree.entryLocations, entriesLines_cons]
      refine .cons ⟨stem ++ mark others.isEmpty, ?_, rfl⟩ (List.rel_append ?_ ?_)
      · rw [String.length_append, mark_length, List.length_singleton]
      · have below := treeLines_shows (stem ++ column others.isEmpty) name tree
        rw [String.length_append, column_length] at below
        rw [List.forall₂_map_left_iff]
        exact below.imp fun _ _ => Shows.below
      · exact entriesLines_shows stem root others

end

/-- Of some lines, those that stand for locations of at most `limit` names. -/
def linesWithin (limit : Nat) (locations : List (List Bytes)) (lines : List String) :
    List String :=
  ((locations.zip lines).filter fun shown => shown.1.length ≤ limit).map Prod.snd

section LinesWithin

variable {limit : Nat} {locations further : List (List Bytes)} {lines others : List String}

theorem linesWithin_append (paired : locations.length = lines.length) :
    linesWithin limit (locations ++ further) (lines ++ others) =
      linesWithin limit locations lines ++ linesWithin limit further others := by
  rw [linesWithin, List.zip_append paired, List.filter_append, List.map_append]
  rfl

theorem linesWithin_cons {location : List Bytes} {line : String}
    (shallow : location.length ≤ limit) :
    linesWithin limit (location :: locations) (line :: lines) =
      line :: linesWithin limit locations lines := by
  simp [linesWithin, shallow]

theorem linesWithin_map_cons (name : Bytes) :
    linesWithin (limit + 1) (locations.map (name :: ·)) lines =
      linesWithin limit locations lines := by
  rw [linesWithin, List.zip_map_left, List.filter_map, List.map_map]
  simp only [linesWithin, Function.comp_def, Prod.map_fst, Prod.map_snd, List.length_cons,
    Nat.add_le_add_iff_right, id_eq]

theorem linesWithin_eq_nil (deep : ∀ location ∈ locations, limit < location.length) :
    linesWithin limit locations lines = [] := by
  rw [linesWithin, List.map_eq_nil_iff, List.filter_eq_nil_iff]
  intro shown member
  have known := deep shown.1 (List.of_mem_zip member).1
  simpa using known

end LinesWithin

-- The limit and the columns both change from a directory to its entries, so the inductions run
-- over the tree for all of them.
mutual

theorem treeLines_some (limit : Nat) (stem : String) (tree : FileTree) :
    treeLines (some limit) stem tree =
      linesWithin limit tree.locations (treeLines none stem tree) := by
  cases tree with
  | file | link => rfl
  | directory entries =>
      cases limit with
      | zero =>
          rw [linesWithin_eq_nil]
          · rfl
          · intro location member
            exact List.length_pos_of_ne_nil (FileTree.ne_nil_of_mem_locations member)
      | succ limit => exact entriesLines_some limit stem entries

theorem entriesLines_some (limit : Nat) (stem : String) (entries : List (Bytes × FileTree)) :
    entriesLines (some limit) stem entries =
      linesWithin (limit + 1) (FileTree.entryLocations entries)
        (entriesLines none stem entries) := by
  cases entries with
  | nil => rfl
  | cons entry others =>
      obtain ⟨name, tree⟩ := entry
      have paired := (treeLines_shows (stem ++ column others.isEmpty) name tree).length_eq
      rw [entriesLines_cons, entriesLines_cons, FileTree.entryLocations,
        linesWithin_cons (by simp), linesWithin_append (by rw [List.length_map, paired]),
        linesWithin_map_cons, ← treeLines_some limit _ tree, ← entriesLines_some limit stem others]

end

/-! ## Directories that cannot be listed -/

mutual

/-- What a diagram of limited depth enters, the full diagram enters too. -/
theorem lists_some_of_none (limit : Nat) (tree : FileTree) (listed : lists none tree = true) :
    lists (some limit) tree = true := by
  cases tree with
  | file | link => rfl
  | directory entries access =>
      rw [lists] at listed ⊢
      simp only [reduceCtorEq, decide_false, Bool.false_or, Bool.and_eq_true,
        Option.map_none] at listed
      rw [Bool.or_eq_true, Bool.and_eq_true]
      exact .inr ⟨listed.1, listsEntries_some_of_none (limit - 1) access.enter entries listed.2⟩

theorem listsEntries_some_of_none (limit : Nat) (enter : Bool)
    (entries : List (Bytes × FileTree)) (listed : listsEntries none enter entries = true) :
    listsEntries (some limit) enter entries = true := by
  cases entries with
  | nil => rfl
  | cons entry others =>
      obtain ⟨name, tree⟩ := entry
      simp only [listsEntries, Bool.and_eq_true] at listed ⊢
      obtain ⟨⟨entered, below⟩, later⟩ := listed
      refine ⟨⟨?_, lists_some_of_none limit tree below⟩,
        listsEntries_some_of_none limit enter others later⟩
      simp only [reduceCtorEq, decide_false, Bool.or_false, Bool.or_eq_true] at entered ⊢
      exact entered.imp_left .inl

end

/-- The diagram of limited depth has exactly the lines of the full diagram that stand for entries
at most so many levels below the root, unchanged and in the same order.  It is made wherever the
full diagram is made, and also where directories that cannot be listed are too deep for it.  In
the full diagram every line shows one location, that of the root first, and in a well-formed tree
these are all the locations there are, each of them once. -/
theorem render_limited (system : FileSystem) (path : Bytes) (tree : FileTree)
    (leads : system.find path = .ok tree) (limit : Nat) :
    let name := system.resolvedName path
    let locations := [] :: tree.sorted.locations
    let full := lines none name.shown tree
    (lists none tree = true →
      lists (some limit) tree = true ∧ render system none path = .ok ("\n".intercalate full)) ∧
      (lists (some limit) tree = true →
        render system (some limit) path =
          .ok ("\n".intercalate (linesWithin limit locations full))) ∧
      (∀ levels, lists levels tree = false →
        render system levels path = .error (.unlistable path .permissionDenied)) ∧
      lines (some limit) name.shown tree = linesWithin limit locations full ∧
      List.Forall₂ (Shows 0 name) locations full ∧
      (tree.WellFormed → locations.Nodup ∧
        ∀ location, location ∈ locations ↔ (tree.at? location).isSome = true) := by
  intro name locations full
  have kept : lines (some limit) name.shown tree = linesWithin limit locations full := by
    rw [lines, treeLines_some]
    exact (linesWithin_cons (Nat.zero_le limit)).symm
  refine ⟨fun listed => ⟨lists_some_of_none limit tree listed, ?_⟩, fun listed => ?_,
    fun levels refused => ?_, kept, ?_, fun wellFormed => ⟨?_, fun location => ?_⟩⟩
  · simp only [render, leads, listed, if_true]
    rfl
  · simp only [render, leads, listed, if_true, ← kept]
    rfl
  · simp only [render, leads, refused, Bool.false_eq_true, if_false]
  · exact .cons ⟨"", rfl, (String.empty_append).symm⟩ (treeLines_shows "" name tree.sorted)
  · rw [List.nodup_cons]
    exact ⟨fun member => FileTree.ne_nil_of_mem_locations member rfl,
      FileTree.locations_sorted_nodup wellFormed⟩
  · rw [List.mem_cons, FileTree.mem_locations_sorted_iff wellFormed]
    cases location <;> simp [FileTree.at?]

/-- A project with a directory on its second level that is opened in some way. -/
def nestedEntries (core : Access) : List (Bytes × FileTree) :=
  [("README", .file ⟨#[]⟩),
    ("src", .directory
      [("core", .directory [("a.rs", .file ⟨#[]⟩)] core), ("main.rs", .file ⟨#[]⟩)])]

def nestedSystem (core : Access) : FileSystem :=
  { root := .directory [("project", .directory (nestedEntries core))] }

section Nested

variable (core : Access)

theorem nestedSystem_find :
    (nestedSystem core).find "project" = .ok (.directory (nestedEntries core)) :=
  rfl

theorem nestedSystem_resolvedName :
    (nestedSystem core).resolvedName "project" = Bytes.ofString "project" := by
  have found : (nestedSystem core).locate true "project" =
      .ok ⟨["project"], .directory (nestedEntries core)⟩ := rfl
  have named : (Path.fileName? (FileSystem.absolutePath ["project"])).getD
      (FileSystem.absolutePath ["project"]) = Bytes.ofString "project" := by decide +kernel
  rw [FileSystem.resolvedName, found]
  exact named

theorem nestedEntries_wellFormed : (FileTree.directory (nestedEntries core)).WellFormed := by
  have apart : [Bytes.ofString "core", Bytes.ofString "main.rs"].Nodup := by decide +kernel
  have upperApart : [Bytes.ofString "README", Bytes.ofString "src"].Nodup := by decide +kernel
  have named : ∀ name ∈ ["README", "src", "core", "main.rs", "a.rs"],
      IsEntryName (Bytes.ofString name) := by
    decide +kernel
  have single : (FileTree.directory [("a.rs", .file ⟨#[]⟩)] core).WellFormed :=
    .directory _ _ (List.nodup_singleton _) (by simp [named]) (by simp [FileTree.WellFormed.file])
  have middle : (FileTree.directory
      [("core", .directory [("a.rs", .file ⟨#[]⟩)] core), ("main.rs", .file ⟨#[]⟩)]).WellFormed :=
    .directory _ _ apart (by simp [named]) (by simp [single, FileTree.WellFormed.file])
  exact .directory _ _ upperApart (by simp [nestedEntries, named])
    (by simp [nestedEntries, middle, FileTree.WellFormed.file])

theorem nestedEntries_sorted :
    (FileTree.directory (nestedEntries core)).sorted = .directory (nestedEntries core) := by
  have lower : Bytes.ofString "core" ≤ Bytes.ofString "main.rs" := by decide +kernel
  have upper : Bytes.ofString "README" ≤ Bytes.ofString "src" := by decide +kernel
  simp [FileTree.sorted, nestedEntries, FileTree.sortedEntries, List.mergeSort_of_pairwise,
    lower, upper]

end Nested

def nestedText : String :=
  "project\n├── README\n└── src\n    ├── core\n    └── main.rs"

/-- The diagram of two levels is made although the directory below cannot be listed. -/
theorem render_limited_nestedSystem :
    (nestedSystem {}).find "project" = .ok (.directory (nestedEntries {})) ∧
      (FileTree.directory (nestedEntries {})).WellFormed ∧
      render (nestedSystem {}) none "project" = .ok
        "project\n├── README\n└── src\n    ├── core\n    │   └── a.rs\n    └── main.rs" ∧
      render (nestedSystem {}) (some 2) "project" = .ok nestedText ∧
      render (nestedSystem { read := false }) none "project" =
        .error (.unlistable "project" .permissionDenied) ∧
      render (nestedSystem { read := false }) (some 2) "project" = .ok nestedText ∧
      (([] :: (FileTree.directory (nestedEntries {})).sorted.locations).Nodup ∧
        ∀ location, location ∈ [] :: (FileTree.directory (nestedEntries {})).sorted.locations ↔
          ((FileTree.directory (nestedEntries {})).at? location).isSome = true) := by
  obtain ⟨full, limited, -, -, -, entries⟩ :=
    render_limited (nestedSystem {}) "project" _ (nestedSystem_find {}) 2
  obtain ⟨-, otherLimited, refused, -⟩ := render_limited (nestedSystem { read := false })
    "project" _ (nestedSystem_find { read := false }) 2
  rw [lines, nestedEntries_sorted, nestedSystem_resolvedName] at full limited otherLimited
  refine ⟨nestedSystem_find {}, nestedEntries_wellFormed {}, (full ?_).2.trans ?_,
    (limited ?_).trans ?_, refused none ?_, (otherLimited ?_).trans ?_,
    entries (nestedEntries_wellFormed {})⟩
  all_goals decide +kernel

end DirectoryReport
end SourceAtlas
