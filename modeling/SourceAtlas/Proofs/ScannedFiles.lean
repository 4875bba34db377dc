import Mathlib.Data.List.Nodup
import Mathlib.Data.List.Permutation
import SourceAtlas.Proofs.OrderedTrees

/-!
# What a scan collects

A scan of a well-formed directory collects exactly the files that qualify: regular files of
bounded size that are reached through directories which are open and not excluded, without
following a link, and that the report is about.  It collects each of them once, in ascending
order of their paths by component and byte.  That order is not the order of the paths as they
are shown: all that is below a directory comes where its name comes, and names that encode no
text may be shown alike.
-/

namespace SourceAtlas

theorem ScanLimits.excludes_iff {limits : ScanLimits} {name : Bytes} :
    limits.excludes name = true ↔
      ∃ text ∈ limits.excludedDirectories, name = Bytes.ofString text := by
  simp only [excludes, Option.any_eq_true, List.contains_iff_mem, Bytes.text?_eq_some_iff]
  exact exists_congr fun text => and_comm

namespace FileTree

section Collecting

variable (limits : ScanLimits) (mode : ScanMode)

/-- At a location stands a directory that can be listed and entered. -/
def Opens (tree : FileTree) (location : List Bytes) : Prop :=
  ∃ entries access, tree.at? location = some (.directory entries access) ∧
    access.read = true ∧ access.enter = true

/-- A regular file of bounded size stands at a location, no directory below the tree on the way
is excluded, and all directories on the way are open, with the tree itself.  A location leads
through directories only, since a link has no entries. -/
structure Reaches (tree : FileTree) (location : List Bytes) : Prop where
  found : ∃ content access, tree.at? location = some (.file content access) ∧
    content.size ≤ limits.maxFileSize
  entered : ∀ name ∈ location.dropLast, ∀ text ∈ limits.excludedDirectories,
    name ≠ Bytes.ofString text
  opened : ∀ front name behind, location = front ++ name :: behind → tree.Opens front

/-- The file at a location below a tree is one that a scan has to collect. -/
def Qualifies (tree : FileTree) (location : List Bytes) : Prop :=
  Reaches limits tree location ∧
    ∃ name, location.getLast? = some name ∧ mode.Admits name

/-- Whether a scan passes over an entry with all that is below it. -/
def skips (entry : Bytes × FileTree) : Bool :=
  entry.2.isDirectory && limits.excludes entry.1

theorem scan_directory (trail : List Bytes) (entries : List (Bytes × FileTree))
    (access : Access) :
    (directory entries access).scan limits mode trail =
      if access.read && access.enter then
        entries.flatMap fun entry =>
          if skips limits entry then [] else entry.2.scan limits mode (trail ++ [entry.1])
      else [] := by
  rw [scan]
  congr 1
  induction entries with
  | nil => rw [scanEntries, List.flatMap_nil]
  | cons entry entries ih => rw [scanEntries, ih, List.flatMap_cons, skips]

theorem mem_scan_directory_iff {trail path : List Bytes} {entries : List (Bytes × FileTree)}
    {access : Access} :
    path ∈ (directory entries access).scan limits mode trail ↔
      (access.read = true ∧ access.enter = true) ∧ ∃ entry ∈ entries,
        skips limits entry = false ∧ path ∈ entry.2.scan limits mode (trail ++ [entry.1]) := by
  rw [scan_directory]
  split
  next opens =>
    rw [Bool.and_eq_true] at opens
    simp only [opens, and_self, true_and, List.mem_flatMap]
    refine exists_congr fun entry => and_congr_right fun _ => ?_
    cases skips limits entry <;> simp
  next closed =>
    rw [Bool.and_eq_true] at closed
    simp [closed]

variable {limits}

theorem reaches_file_iff {content : ByteArray} {access : Access} {location : List Bytes} :
    Reaches limits (file content access) location ↔
      location = [] ∧ content.size ≤ limits.maxFileSize := by
  constructor
  · rintro ⟨⟨held, _, leads, small⟩, -, -⟩
    cases location with
    | nil =>
        cases leads
        exact ⟨rfl, small⟩
    | cons name others => simp at leads
  · rintro ⟨rfl, small⟩
    exact ⟨⟨content, access, rfl, small⟩, by simp, by simp⟩

theorem not_reaches_link {target : Bytes} {location : List Bytes} :
    ¬ Reaches limits (link target) location := by
  rintro ⟨⟨content, access, leads, -⟩, -, -⟩
  cases location with
  | nil => cases leads
  | cons name others => simp at leads

theorem not_reaches_directory_nil {entries : List (Bytes × FileTree)} {access : Access} :
    ¬ Reaches limits (directory entries access) [] := by
  rintro ⟨⟨content, _, leads, -⟩, -, -⟩
  cases leads

/-- Only below a directory is anything reached along further names. -/
theorem Reaches.isDirectory_eq {tree : FileTree} {location : List Bytes}
    (reaches : Reaches limits tree location) : tree.isDirectory = !location.isEmpty := by
  obtain ⟨content, access, leads, -⟩ := reaches.found
  cases location with
  | nil =>
      cases Option.some.inj leads
      rfl
  | cons name others =>
      cases tree with
      | file | link => simp at leads
      | directory entries => rfl

/-- Whether an entry is passed over is told by its name alone, unless it is the last one. -/
theorem Reaches.skips_iff {child : FileTree} {others : List Bytes}
    (reaches : Reaches limits child others) (name : Bytes) :
    skips limits (name, child) = false ↔
      ∀ passed ∈ (name :: others).dropLast, ∀ text ∈ limits.excludedDirectories,
        passed ≠ Bytes.ofString text := by
  have free := reaches.entered
  rw [skips, reaches.isDirectory_eq, ← Bool.not_eq_true, Bool.and_eq_true,
    ScanLimits.excludes_iff]
  cases others with
  | nil => simp
  | cons next others =>
      rw [List.dropLast_cons_cons, List.forall_mem_cons, and_iff_left free]
      simp

/-- One step down: the directory is open, and the first name is that of an entry which is not
passed over. -/
theorem reaches_directory_cons_iff {entries : List (Bytes × FileTree)} {access : Access}
    (apart : (entries.map Prod.fst).Nodup) {name : Bytes} {others : List Bytes} :
    Reaches limits (directory entries access) (name :: others) ↔
      (access.read = true ∧ access.enter = true) ∧ ∃ child, (name, child) ∈ entries ∧
        skips limits (name, child) = false ∧ Reaches limits child others := by
  constructor
  · rintro ⟨⟨content, held, leads, small⟩, free, opened⟩
    obtain ⟨child, member, below⟩ := (at?_directory_cons_eq_some_iff apart).1 leads
    have reaches : Reaches limits child others := by
      refine ⟨⟨content, held, below, small⟩, fun passed onWay => free passed ?_, ?_⟩
      · cases others with
        | nil => cases onWay
        | cons next others => exact List.mem_cons_of_mem name onWay
      · rintro front next behind rfl
        have further := opened (name :: front) next behind rfl
        rwa [Opens, at?_of_mem apart member] at further
    obtain ⟨_, _, here, readable, enterable⟩ := opened [] name others rfl
    cases here
    exact ⟨⟨readable, enterable⟩, child, member, (reaches.skips_iff name).2 free, reaches⟩
  · rintro ⟨⟨readable, enterable⟩, child, member, kept, reaches⟩
    obtain ⟨content, held, below, small⟩ := reaches.found
    refine ⟨⟨content, held, ?_, small⟩, (reaches.skips_iff name).1 kept, ?_⟩
    · rw [at?_of_mem apart member, below]
    · intro front next behind divided
      cases front with
      | nil => exact ⟨entries, access, rfl, readable, enterable⟩
      | cons first front =>
          obtain ⟨rfl, rest⟩ := List.cons.inj divided
          rw [Opens, at?_of_mem apart member]
          exact reaches.opened front next behind rest

theorem mem_scan_iff {tree : FileTree} (wellFormed : tree.WellFormed) {trail path : List Bytes} :
    path ∈ tree.scan limits mode trail ↔
      ∃ location, path = trail ++ location ∧ Reaches limits tree location ∧
        mode.keeps (path.getLast?.getD []) = true := by
  -- The trail grows on the way down, so the statement is for all trails.
  induction wellFormed generalizing trail with
  | file content access =>
      rw [scan]
      constructor
      · intro collected
        split at collected
        next passes =>
          rw [Bool.and_eq_true, decide_eq_true_eq] at passes
          obtain rfl := List.mem_singleton.1 collected
          exact ⟨[], by simp, reaches_file_iff.2 ⟨rfl, passes.1⟩, passes.2⟩
        next => cases collected
      · rintro ⟨location, rfl, reaches, passes⟩
        obtain ⟨rfl, small⟩ := reaches_file_iff.1 reaches
        rw [List.append_nil] at passes
        simp [small, passes]
  | link target => simp [scan, not_reaches_link]
  | directory entries access apart _ _ ih =>
      rw [mem_scan_directory_iff]
      constructor
      · rintro ⟨opens, ⟨name, child⟩, member, kept, collected⟩
        obtain ⟨others, rfl, reaches, passes⟩ := (ih (name, child) member).1 collected
        refine ⟨name :: others, by simp, ?_, passes⟩
        exact (reaches_directory_cons_iff apart).2 ⟨opens, child, member, kept, reaches⟩
      · rintro ⟨location, rfl, reaches, passes⟩
        cases location with
        | nil => exact absurd reaches not_reaches_directory_nil
        | cons name others =>
            obtain ⟨opens, child, member, kept, below⟩ :=
              (reaches_directory_cons_iff apart).1 reaches
            exact ⟨opens, (name, child), member, kept,
              (ih (name, child) member).2 ⟨others, by simp, below, passes⟩⟩

theorem sorted_scan_perm {tree : FileTree} (wellFormed : tree.WellFormed) (trail : List Bytes) :
    (tree.sorted.scan limits mode trail).Perm (tree.scan limits mode trail) := by
  induction wellFormed generalizing trail with
  | file | link => exact .refl _
  | directory entries access apart _ _ ih =>
      obtain ⟨ordered, sorted, reordered, -⟩ := sorted_directory apart access
      rw [sorted, scan_directory, scan_directory]
      split
      next =>
        refine (reordered.flatMap_right _).trans ?_
        rw [List.flatMap_map]
        refine List.Perm.flatMap_left entries fun entry member => ?_
        have same : skips limits (sortedEntry entry) = skips limits entry := by
          rw [skips, skips, sortedEntry, isDirectory_sorted]
        rw [same]
        split
        · exact .refl _
        · exact ih entry member (trail ++ [entry.1])
      next => exact .refl _

/-- Where two paths part, the names there decide. -/
theorem append_cons_lt {first second : Bytes} (less : first < second)
    (trail behind others : List Bytes) : trail ++ first :: behind < trail ++ second :: others :=
  List.append_left_lt (List.cons_lt_cons_iff.2 (.inl less))

variable (limits) in
theorem sorted_scan_pairwise {tree : FileTree} (wellFormed : tree.WellFormed)
    (trail : List Bytes) :
    (tree.sorted.scan limits mode trail).Pairwise fun first second => first < second := by
  induction wellFormed generalizing trail with
  | file content access =>
      rw [sorted, scan]
      split
      · exact List.pairwise_singleton _ _
      · exact .nil
  | link => exact .nil
  | directory entries access apart _ below ih =>
      obtain ⟨ordered, sorted, reordered, ascending⟩ := sorted_directory apart access
      rw [sorted, scan_directory]
      split
      next =>
        rw [List.pairwise_flatMap]
        -- What is collected below an entry has its name next, so the names decide.
        have next {entry : Bytes × FileTree} (member : entry ∈ ordered) {path : List Bytes}
            (collected : path ∈ if skips limits entry then []
              else entry.2.scan limits mode (trail ++ [entry.1])) :
            ∃ others, path = trail ++ entry.1 :: others := by
          obtain ⟨original, inDirectory, rfl⟩ := List.mem_map.1 (reordered.mem_iff.1 member)
          split at collected
          · cases collected
          · obtain ⟨others, rfl, -⟩ := (mem_scan_iff mode (below original inDirectory)).1
              ((sorted_scan_perm mode (below original inDirectory) _).mem_iff.1 collected)
            exact ⟨others, by simp [sortedEntry]⟩
        refine ⟨fun entry member => ?_, ascending.imp_of_mem ?_⟩
        · obtain ⟨original, inDirectory, rfl⟩ := List.mem_map.1 (reordered.mem_iff.1 member)
          split
          · exact .nil
          · exact ih original inDirectory (trail ++ [original.1])
        · intro first second firstMember secondMember less path collected other otherCollected
          obtain ⟨behind, rfl⟩ := next firstMember collected
          obtain ⟨others, rfl⟩ := next secondMember otherCollected
          exact append_cons_lt less trail behind others
      next => exact .nil

variable (limits) in
/-- From a directory, the scan of its sorted tree collects what qualifies. -/
theorem mem_sorted_scan_iff {entries : List (Bytes × FileTree)} {access : Access}
    (wellFormed : (directory entries access).WellFormed) {path : List Bytes} :
    path ∈ (directory entries access).sorted.scan limits mode [] ↔
      Qualifies limits mode (directory entries access) path := by
  rw [(sorted_scan_perm mode wellFormed []).mem_iff, mem_scan_iff mode wellFormed]
  simp only [List.nil_append, Qualifies, exists_eq_left']
  refine and_congr_right fun reaches => ?_
  obtain ⟨content, held, leads, -⟩ := reaches.found
  rcases List.eq_nil_or_concat path with rfl | ⟨directories, name, rfl⟩
  · cases leads
  · have named : IsEntryName name := wellFormed.isEntryName leads name (by simp)
    simp [mode.keeps_iff_admits named]

end Collecting
end FileTree

namespace FileSystem

/-- Two walks end alike, or the first stops at a link. -/
def EndsAlike (stopping following : Except PathError Located) : Prop :=
  following = stopping ∨ ∃ location target, stopping = .ok ⟨location, .link target⟩

/-- Up to the next link it makes no difference whether a link at the end is followed. -/
theorem walkPieces_endsAlike (root : FileTree) {stopping following : Walk}
    (agree : ∀ location pieces, EndsAlike (stopping location pieces) (following location pieces))
    (location pieces : List Bytes) :
    EndsAlike (walkPieces root false stopping location pieces)
      (walkPieces root true following location pieces) := by
  induction pieces generalizing location with
  | nil => exact .inl rfl
  | cons piece others ih =>
      unfold walkPieces
      split
      next entries access _ =>
        split
        · exact ih location
        · split
          · exact .inl rfl
          · split
            · exact ih location
            · split
              · exact ih location.dropLast
              · split
                · exact .inl rfl
                next target _ =>
                  -- A link: at the end the two part, before it both follow.
                  cases others with
                  | nil => exact .inr ⟨_, target, rfl⟩
                  | cons next others =>
                      simp only [List.isEmpty_cons, Bool.false_and, Bool.false_eq_true, if_false]
                      split
                      · exact .inl rfl
                      · exact agree _ _
                · exact ih _
      · exact .inl rfl
      · exact .inl rfl

theorem walk_endsAlike (root : FileTree) (links : Nat) (location pieces : List Bytes) :
    EndsAlike (walk root false links location pieces) (walk root true links location pieces) := by
  induction links generalizing location pieces with
  | zero => exact walkPieces_endsAlike root (fun _ _ => .inl rfl) location pieces
  | succ links ih => exact walkPieces_endsAlike root ih location pieces

theorem locate_endsAlike (system : FileSystem) (path : Bytes) :
    EndsAlike (system.locate false path) (system.locate true path) := by
  unfold locate
  dsimp only
  split
  · exact .inl rfl
  · exact walk_endsAlike ..

/-- A path to a directory, be it through a link, is scanned as that directory. -/
theorem scan_of_find {system : FileSystem} {root : Bytes} {entries : List (Bytes × FileTree)}
    {access : Access} (leads : system.find root = .ok (.directory entries access))
    (limits : ScanLimits) (mode : ScanMode) :
    system.scan limits mode root =
      ((FileTree.directory entries access).sorted.scan limits mode []).map
        (scannedFile root) := by
  have alike := system.locate_endsAlike root
  unfold scan
  rcases alike with same | ⟨location, target, stops⟩
  · rw [find, same] at leads
    cases found : system.locate false root with
    | error cause => rw [found] at leads; cases leads
    | ok place =>
        rw [found] at leads
        have tree : place.tree = .directory entries access := by
          simpa [Except.map] using leads
        simp only [tree]
  · simp only [stops, leads]

/-- A scan of a well-formed directory gives the files that qualify and nothing else, in
strictly ascending order of their paths, and their paths are all different.  What is shown for
the paths is different too if all names on them encode texts. -/
theorem scan_collects_qualifying (system : FileSystem) (limits : ScanLimits) (mode : ScanMode)
    (root : Bytes) (entries : List (Bytes × FileTree)) (access : Access)
    (leads : system.find root = .ok (.directory entries access))
    (wellFormed : (FileTree.directory entries access).WellFormed) :
    ∃ trails : List (List Bytes),
      system.scan limits mode root = trails.map (scannedFile root) ∧
      (∀ trail, trail ∈ trails ↔
        FileTree.Qualifies limits mode (.directory entries access) trail) ∧
      (trails.Pairwise fun first second => first < second) ∧
      ((system.scan limits mode root).map ScannedFile.path).Nodup ∧
      ((∀ trail ∈ trails, ∀ name ∈ trail, name.text?.isSome = true) →
        ((system.scan limits mode root).map ScannedFile.relative).Nodup) := by
  have scanned := scan_of_find leads limits mode
  have collects (trail : List Bytes) :
      trail ∈ (FileTree.directory entries access).sorted.scan limits mode [] ↔
        FileTree.Qualifies limits mode (.directory entries access) trail :=
    FileTree.mem_sorted_scan_iff limits mode wellFormed
  have ascending := FileTree.sorted_scan_pairwise limits mode wellFormed []
  have apart : ((FileTree.directory entries access).sorted.scan limits mode []).Nodup := by
    refine ascending.imp ?_
    rintro trail _ less rfl
    exact List.lt_irrefl trail less
  have spelled {trail : List Bytes}
      (member : trail ∈ (FileTree.directory entries access).sorted.scan limits mode []) :
      trail ≠ [] ∧ ∀ name ∈ trail, IsEntryName name := by
    obtain ⟨content, held, found, -⟩ := ((collects trail).1 member).1.found
    refine ⟨?_, wellFormed.isEntryName found⟩
    rintro rfl
    cases found
  refine ⟨_, scanned, collects, ascending, ?_, fun encode => ?_⟩
  · rw [scanned, List.map_map]
    refine List.Nodup.map_on (fun first firstMember second secondMember same => ?_) apart
    exact Path.foldl_join_inj (spelled firstMember).2 (spelled secondMember).2
      (spelled firstMember).1 (spelled secondMember).1 same
  · rw [scanned, List.map_map]
    refine List.Nodup.map_on (fun first firstMember second secondMember same => ?_) apart
    exact Path.shownPath_inj (spelled firstMember).2 (spelled secondMember).2
      (spelled firstMember).1 (spelled secondMember).1 (encode first firstMember)
      (encode second secondMember) same

/-- A directory with a nested source file, an excluded directory, one that cannot be listed, a
link and a file that is too large for `scarceLimits`. -/
def mixedEntries : List (Bytes × FileTree) :=
  [("a.py", .file ⟨#[1, 2]⟩),
    ("build", .directory [("c.py", .file ⟨#[1]⟩)]),
    ("a", .directory [("z.RS", .file ⟨#[]⟩ { read := false }), ("e.py", .file ⟨#[1, 2, 3]⟩)]),
    ("locked", .directory [("f.py", .file ⟨#[]⟩)] { read := false }),
    ("d.py", .link "a.py")]

def scarceLimits : ScanLimits :=
  { maxFileSize := 2 }

/-- The directory under a name of its own and behind a link. -/
def mixedSystem : FileSystem :=
  { root := .directory [("files", .directory mixedEntries), ("shortcut", .link "files")] }

theorem mixedSystem_find : mixedSystem.find "shortcut" = .ok (.directory mixedEntries) := by
  rfl

theorem mixedEntries_wellFormed : (FileTree.directory mixedEntries).WellFormed := by
  refine .directory _ _ (by decide +kernel) (by decide +kernel) ?_
  simp only [mixedEntries, List.forall_mem_cons]
  refine ⟨.file _ _, .directory _ _ (by decide +kernel) (by decide +kernel) ?_,
    .directory _ _ (by decide +kernel) (by decide +kernel) ?_,
    .directory _ _ (by decide +kernel) (by decide +kernel) ?_, .link _, List.forall_mem_nil _⟩
  · simpa using FileTree.WellFormed.file _ _
  · simpa using ⟨FileTree.WellFormed.file _ _, FileTree.WellFormed.file _ _⟩
  · simpa using FileTree.WellFormed.file _ _

theorem mixedEntries_sorted :
    (FileTree.directory mixedEntries).sorted = .directory
      [("a", .directory [("e.py", .file ⟨#[1, 2, 3]⟩), ("z.RS", .file ⟨#[]⟩ { read := false })]),
        ("a.py", .file ⟨#[1, 2]⟩),
        ("build", .directory [("c.py", .file ⟨#[1]⟩)]),
        ("d.py", .link "a.py"),
        ("locked", .directory [("f.py", .file ⟨#[]⟩)] { read := false })] := by
  cbv

/-- As texts the two relative paths would stand the other way round. -/
theorem scan_mixedSystem :
    mixedSystem.find "shortcut" = .ok (.directory mixedEntries) ∧
      (FileTree.directory mixedEntries).WellFormed ∧
      (mixedSystem.scan scarceLimits .code "shortcut").map ScannedFile.relative =
        ["a/z.RS", "a.py"] ∧
      ∃ trails : List (List Bytes),
        mixedSystem.scan scarceLimits .code "shortcut" =
          trails.map (scannedFile "shortcut") ∧
        (∀ trail, trail ∈ trails ↔
          FileTree.Qualifies scarceLimits .code (.directory mixedEntries) trail) ∧
        (trails.Pairwise fun first second => first < second) ∧
        ((mixedSystem.scan scarceLimits .code "shortcut").map ScannedFile.path).Nodup ∧
        ((∀ trail ∈ trails, ∀ name ∈ trail, name.text?.isSome = true) →
          ((mixedSystem.scan scarceLimits .code "shortcut").map ScannedFile.relative).Nodup) := by
  refine ⟨mixedSystem_find, mixedEntries_wellFormed, ?_,
    scan_collects_qualifying mixedSystem scarceLimits .code "shortcut" mixedEntries {}
      mixedSystem_find mixedEntries_wellFormed⟩
  rw [scan_of_find mixedSystem_find, mixedEntries_sorted]
  decide +kernel

/-- Two names that encode no text, one whose extension is `kt` only if the Kelvin sign counts as
a capital letter, and a source file in a directory that cannot be listed. -/
def oddEntries : List (Bytes × FileTree) :=
  [("a.\u212At", .file ⟨#[]⟩), ("locked", .directory [("b.py", .file ⟨#[]⟩)] { read := false }),
    (0xFE :: Bytes.ofString ".py", .file ⟨#[]⟩), (0xFF :: Bytes.ofString ".py", .file ⟨#[]⟩)]

def oddSystem : FileSystem :=
  { root := .directory [("files", .directory oddEntries)] }

theorem oddEntries_sorted :
    (FileTree.directory oddEntries).sorted = .directory oddEntries := by
  cbv

/-- Of these files only the two without a readable name are collected, and both are shown with
the same relative path. -/
theorem scan_oddSystem :
    (oddSystem.scan {} .relation "files").map ScannedFile.path =
        [Bytes.ofString "files/" ++ 0xFE :: Bytes.ofString ".py",
          Bytes.ofString "files/" ++ 0xFF :: Bytes.ofString ".py"] ∧
      (oddSystem.scan {} .relation "files").map ScannedFile.relative =
        ["\uFFFD.py", "\uFFFD.py"] ∧
      ¬ ((oddSystem.scan {} .relation "files").map ScannedFile.relative).Nodup := by
  have leads : oddSystem.find "files" = .ok (.directory oddEntries) := rfl
  have relatives : (oddSystem.scan {} .relation "files").map ScannedFile.relative =
      ["\uFFFD.py", "\uFFFD.py"] := by
    rw [scan_of_find leads, oddEntries_sorted]
    decide +kernel
  refine ⟨?_, relatives, ?_⟩
  · rw [scan_of_find leads, oddEntries_sorted]
    decide +kernel
  · rw [relatives]
    decide

end FileSystem
end SourceAtlas
