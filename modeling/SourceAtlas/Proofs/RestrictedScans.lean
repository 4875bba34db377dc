import SourceAtlas.Proofs.ScannedFiles

/-!
# One walk for all scans

A scan is a walk through a directory that is restricted to the files of a report.  The
walk is the same for both reports, so a file of the code report is a file of the relation
report unless the name is refused there, and common files stand in the same order.  One
extension of the code report is refused: that of JavaScript modules.
-/

namespace SourceAtlas
namespace Path

theorem fileName?_eq_some_iff {path name : Bytes} :
    fileName? path = some name ↔
      ((pieces path).filterMap componentOf?).getLast? = some (.entry name) := by
  have noEntry (start : List PathComponent)
      (marks : start = [] ∨ start = [.root] ∨ start = [.current])
      (named : List PathComponent) :
      (start ++ named).getLast? = some (.entry name) ↔ named.getLast? = some (.entry name) := by
    rw [List.getLast?_append]
    cases named.getLast? with
    | some last => simp
    | none => rcases marks with rfl | rfl | rfl <;> simp
  have last : fileName? path = some name ↔
      (components path).getLast? = some (.entry name) := by
    unfold fileName?
    split <;> simp_all
  rw [last, components]
  apply noEntry
  split
  · exact .inr (.inl rfl)
  · split
    · exact .inr (.inr rfl)
    · exact .inl rfl

/-- The last name on a path stays the last one behind a directory. -/
theorem fileName?_join {directory name file : Bytes} (named : fileName? name = some file) :
    fileName? (join directory name) = some file := by
  have behind (front : Bytes) :
      ((pieces (front ++ slash :: name)).filterMap componentOf?).getLast? =
        some (.entry file) := by
    have divided : pieces (front ++ slash :: name) = pieces front ++ pieces name := by
      simp only [pieces, Text.splitWhere_eq_splitOnP]
      exact List.splitOnP_append_cons _ _ (beq_self_eq_true slash)
    rw [divided, List.filterMap_append, List.getLast?_append, fileName?_eq_some_iff.mp named,
      Option.some_or]
  rw [fileName?_eq_some_iff, join]
  split
  case isTrue closed =>
    rw [Bool.or_eq_true, beq_iff_eq, beq_iff_eq] at closed
    rcases closed with ends | empty
    · obtain ⟨front, rfl⟩ := List.getLast?_eq_some_iff.mp ends
      rw [List.append_assoc]
      exact behind front
    · rw [empty, List.nil_append]
      exact fileName?_eq_some_iff.mp named
  case isFalse => exact behind directory

end Path

namespace ScanMode

theorem keeps_congr (mode : ScanMode) {path other : Bytes}
    (same : Path.fileName? path = Path.fileName? other) : mode.keeps path = mode.keeps other := by
  simp only [keeps, Path.lowerExtension, Path.fileText, same]

theorem exists_fileName?_of_keeps {mode : ScanMode} {path : Bytes}
    (kept : mode.keeps path = true) : ∃ file, Path.fileName? path = some file := by
  cases named : Path.fileName? path with
  | some file => exact ⟨file, rfl⟩
  | none =>
      have empty : mode.keeps path = mode.keeps [] := mode.keeps_congr named
      rw [kept] at empty
      cases mode <;> exact absurd empty (by decide +kernel)

/-- All extensions of the code report but one are extensions of the relation report, and no
project file has that one. -/
theorem keeps_relation_iff {path : Bytes} (kept : code.keeps path = true) :
    relation.keeps path = true ↔ Path.lowerExtension path ≠ "mjs" := by
  have listed : Path.lowerExtension path ∈ codeExtensions := by simpa [keeps] using kept
  constructor
  · intro related extension
    have otherName : ∀ name ∈ projectFileNames,
        lowerAscii (((Path.nameExtension? name).bind Bytes.text?).getD "") ≠ "mjs" := by
      decide +kernel
    obtain ⟨file, named⟩ := exists_fileName?_of_keeps kept
    have byName : Path.fileText path ∈ projectFileNames := by
      simpa [keeps, extension, relationExtensions, projectExtensions] using related
    have spelled : file = Bytes.ofString (Path.fileText path) := by
      rw [Path.fileText, named, Option.bind_some] at byName ⊢
      cases read : file.text? with
      | none =>
          rw [read] at byName
          exact absurd byName (by decide +kernel)
      | some text => exact Bytes.text?_eq_some_iff.mp read
    rw [Path.lowerExtension, named, Option.bind_some, spelled] at extension
    exact otherName _ byName extension
  · intro otherExtension
    have shared : ∀ extension ∈ codeExtensions, extension ≠ "mjs" →
        extension ∈ relationExtensions := by
      decide +kernel
    simp [keeps, shared _ listed otherExtension]

end ScanMode

namespace FileTree

mutual

/-- The files of bounded size that a scan comes by, whatever their names. -/
def walked (limits : ScanLimits) (trail : List Bytes) : FileTree → List (List Bytes)
  | file content _ => if content.size ≤ limits.maxFileSize then [trail] else []
  | link _ => []
  | directory entries access =>
      if access.read && access.enter then walkedEntries limits trail entries else []

def walkedEntries (limits : ScanLimits) (trail : List Bytes) :
    List (Bytes × FileTree) → List (List Bytes)
  | [] => []
  | (name, tree) :: others =>
      (if tree.isDirectory && limits.excludes name then []
        else walked limits (trail ++ [name]) tree) ++
        walkedEntries limits trail others

end

section Walked

variable (limits : ScanLimits) (mode : ScanMode)

mutual

theorem scan_eq_filter_walked (trail : List Bytes) (tree : FileTree) :
    tree.scan limits mode trail =
      (tree.walked limits trail).filter fun path => mode.keeps (path.getLast?.getD []) := by
  cases tree with
  | file content access =>
      rw [scan, walked]
      by_cases small : content.size ≤ limits.maxFileSize <;> simp [small, List.filter_singleton]
  | link target => rfl
  | directory entries access =>
      rw [scan, walked]
      split
      · exact scanEntries_eq_filter_walkedEntries trail entries
      · rfl

theorem scanEntries_eq_filter_walkedEntries (trail : List Bytes)
    (entries : List (Bytes × FileTree)) :
    scanEntries limits mode trail entries =
      (walkedEntries limits trail entries).filter fun path =>
        mode.keeps (path.getLast?.getD []) := by
  cases entries with
  | nil => rfl
  | cons entry others =>
      obtain ⟨name, tree⟩ := entry
      rw [scanEntries, walkedEntries, List.filter_append,
        scanEntries_eq_filter_walkedEntries trail others]
      congr 1
      split
      · rfl
      · exact scan_eq_filter_walked (trail ++ [name]) tree

end

end Walked
end FileTree

namespace FileSystem

/-- Below a directory the filter of a scan may look at whole paths. -/
theorem keeps_scannedFile {trail : List Bytes} {file : Bytes}
    (named : Path.fileName? (trail.getLast?.getD []) = some file) (root : Bytes)
    (mode : ScanMode) :
    mode.keeps (scannedFile root trail).path = mode.keeps (trail.getLast?.getD []) := by
  apply mode.keeps_congr
  rcases List.eq_nil_or_concat trail with rfl | ⟨directories, name, rfl⟩
  · cases named
  · rw [List.concat_eq_append] at named ⊢
    rw [List.getLast?_append, List.getLast?_singleton, Option.some_or, Option.getD_some] at named ⊢
    rw [scannedFile, List.foldl_append, named]
    exact Path.fileName?_join named

theorem exists_walk_of_tree (limits : ScanLimits) (root : Bytes) (tree : FileTree) :
    ∃ walk : List ScannedFile, ∀ mode : ScanMode,
      (tree.scan limits mode []).map (scannedFile root) =
        walk.filter fun file => mode.keeps file.path := by
  refine ⟨((tree.walked limits []).filter fun trail =>
    (Path.fileName? (trail.getLast?.getD [])).isSome).map (scannedFile root), fun mode => ?_⟩
  rw [FileTree.scan_eq_filter_walked, List.filter_map, List.filter_filter]
  congr 1
  refine List.filter_congr fun trail _ => ?_
  cases named : Path.fileName? (trail.getLast?.getD []) with
  | some file => simp [keeps_scannedFile named root mode]
  | none =>
      have refused : ¬ mode.keeps (trail.getLast?.getD []) = true := by
        intro kept
        obtain ⟨file, found⟩ := ScanMode.exists_fileName?_of_keeps kept
        rw [named] at found
        cases found
      simpa using refused

theorem exists_walk (system : FileSystem) (limits : ScanLimits) (root : Bytes) :
    ∃ walk : List ScannedFile, ∀ mode : ScanMode,
      system.scan limits mode root = walk.filter fun file => mode.keeps file.path := by
  unfold scan
  split
  · exact ⟨[], fun _ => rfl⟩
  case h_2 found _ =>
    split
    case h_1 content _ _ =>
      refine ⟨if content.size ≤ limits.maxFileSize then [scannedFile root []] else [],
        fun mode => ?_⟩
      have path : (scannedFile root []).path = root := rfl
      by_cases small : content.size ≤ limits.maxFileSize <;>
        simp [small, path, List.filter_singleton]
    case h_2 => exact exists_walk_of_tree limits root _
    case h_3 =>
      split
      · exact exists_walk_of_tree limits root _
      · exact ⟨[], fun _ => rfl⟩

/-- Both scans are restrictions of one walk.  A file of the code report is one of the relation
report unless it is a JavaScript module, and the order of common files is the same. -/
theorem codeScan_within_relationScan (system : FileSystem) (limits : ScanLimits)
    (root : Bytes) :
    (∃ walk : List ScannedFile, ∀ mode : ScanMode,
      system.scan limits mode root = walk.filter fun file => mode.keeps file.path) ∧
    (∀ file ∈ system.scan limits .code root,
      file ∈ system.scan limits .relation root ↔ Path.lowerExtension file.path ≠ "mjs") ∧
    ((system.scan limits .code root).filter fun file =>
      Path.lowerExtension file.path != "mjs").Sublist (system.scan limits .relation root) := by
  obtain ⟨walk, restricted⟩ := system.exists_walk limits root
  refine ⟨⟨walk, restricted⟩, ?_, ?_⟩
  · intro file listed
    rw [restricted] at listed ⊢
    obtain ⟨met, kept⟩ := List.mem_filter.mp listed
    rw [List.mem_filter, ← ScanMode.keeps_relation_iff kept]
    exact and_iff_right met
  · have common : (walk.filter fun file => ScanMode.code.keeps file.path).filter
          (fun file => Path.lowerExtension file.path != "mjs") =
        (walk.filter fun file => ScanMode.relation.keeps file.path).filter
          fun file => ScanMode.code.keeps file.path := by
      rw [List.filter_filter, List.filter_filter]
      refine List.filter_congr fun file _ => ?_
      cases kept : ScanMode.code.keeps file.path with
      | false => simp
      | true =>
          rw [Bool.eq_iff_iff]
          simpa using (ScanMode.keeps_relation_iff kept).symm
    rw [restricted, restricted, common]
    exact List.filter_sublist

/-- A directory with a script and a module. -/
def moduleEntries : List (Bytes × FileTree) :=
  [("main.js", .file ⟨#[]⟩), ("util.mjs", .file ⟨#[]⟩)]

def moduleSystem : FileSystem :=
  { root := .directory [("app", .directory moduleEntries)] }

theorem moduleEntries_sorted :
    (FileTree.directory moduleEntries).sorted = .directory moduleEntries :=
  FileTree.sorted_of_ascending (by decide +kernel) {}

/-- The module is in the code report and missing in the relation report. -/
theorem relationScan_misses_module :
    (moduleSystem.scan {} .code "app").map ScannedFile.relative = ["main.js", "util.mjs"] ∧
      (moduleSystem.scan {} .relation "app").map ScannedFile.relative = ["main.js"] ∧
      ¬ (moduleSystem.scan {} .code "app").Sublist (moduleSystem.scan {} .relation "app") := by
  have leads : moduleSystem.find "app" = .ok (.directory moduleEntries) := rfl
  have code : (moduleSystem.scan {} .code "app").map ScannedFile.relative =
      ["main.js", "util.mjs"] := by
    rw [scan_of_find leads, moduleEntries_sorted]
    decide +kernel
  have relation : (moduleSystem.scan {} .relation "app").map ScannedFile.relative =
      ["main.js"] := by
    rw [scan_of_find leads, moduleEntries_sorted]
    decide +kernel
  refine ⟨code, relation, fun within => ?_⟩
  have relatives := within.map ScannedFile.relative
  rw [code, relation] at relatives
  exact absurd relatives (by decide)

end FileSystem
end SourceAtlas
