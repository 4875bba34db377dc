import SourceAtlas.Proofs.ScannedFiles
import SourceAtlas.Survey

/-!
# Relation reports at several depths

The depth of a relation report is looked at twice: when the files are read, since symbols and
their relations are looked for only where the report shows them, and when the report is written.
The sections that a shallow report has do not depend on symbols and relations, so a deeper
report begins with the shallow one and goes on with further sections.  The report on a single
file is the same at every depth.
-/

namespace SourceAtlas

/-- A report on a file that says nothing about its symbols and their relations. -/
def FileReport.withoutAnalysis (report : FileReport) : FileReport :=
  { report with analysis := none }

theorem CrossIndex.build_withoutAnalysis (files : List FileReport) :
    build (files.map FileReport.withoutAnalysis) = build files := by
  simp only [build, FileIndex.ofReports, importGraph, List.foldl_map]
  rfl

namespace RelationReport

/-- The sections that a report at depth `deep` has behind those of a report at depth
`shallow`. -/
def addedSections (shallow deep : Nat) (files : List FileReport) : List (List String) :=
  (if shallow < 2 ∧ 2 ≤ deep then [crossUsageLines (CrossIndex.build files) files] else []) ++
    (if shallow < 3 ∧ 3 ≤ deep then [callLines (CrossIndex.build files) files] else [])

theorem ne_nil_of_mem_addedSections {shallow deep : Nat} {files : List FileReport}
    {lines : List String} (member : lines ∈ addedSections shallow deep files) : lines ≠ [] := by
  rw [addedSections, List.mem_append] at member
  rcases member with usage | calls
  · split at usage
    · rw [List.mem_singleton.mp usage]
      exact List.cons_ne_nil _ _
    · simp at usage
  · split at calls
    · rw [List.mem_singleton.mp calls]
      exact List.cons_ne_nil _ _
    · simp at calls

theorem dependencyLines_withoutAnalysis (index : CrossIndex) (files : List FileReport) :
    dependencyLines index (files.map FileReport.withoutAnalysis) = dependencyLines index files := by
  rw [dependencyLines, List.flatMap_map]
  rfl

theorem crossUsageLines_withoutAnalysis (index : CrossIndex) (files : List FileReport) :
    crossUsageLines index (files.map FileReport.withoutAnalysis) = crossUsageLines index files := by
  rw [crossUsageLines, List.flatMap_map]
  rfl

theorem filesLines_ne_nil (depth : Nat) (files : List FileReport) :
    filesLines depth files ≠ [] := by
  simp [filesLines, dependencyLines]

/-- Below depth 3 the lines on some files do not depend on their symbols and relations. -/
theorem filesLines_withoutAnalysis {depth : Nat} (shallow : depth < 3)
    (files : List FileReport) :
    filesLines depth (files.map FileReport.withoutAnalysis) = filesLines depth files := by
  have noCalls : ¬3 ≤ depth := by omega
  simp only [filesLines, CrossIndex.build_withoutAnalysis, dependencyLines_withoutAnalysis,
    crossUsageLines_withoutAnalysis, noCalls, if_false]

theorem filesLines_append_addedSections {shallow deep : Nat} (le : shallow ≤ deep)
    (files : List FileReport) :
    filesLines deep files =
      filesLines shallow files ++ (addedSections shallow deep files).flatten := by
  rcases Nat.lt_or_ge shallow 2 with noUsage | usage
  · -- Both further sections are missing so far.
    have noCalls : shallow < 3 := by omega
    simp only [filesLines, addedSections, Nat.not_le.mpr noUsage, Nat.not_le.mpr noCalls, noUsage,
      noCalls, true_and, if_false, List.append_nil, List.flatten_append, List.append_assoc]
    split <;> split <;> simp
  · have deepUsage : 2 ≤ deep := by omega
    rcases Nat.lt_or_ge shallow 3 with noCalls | calls
    · simp only [filesLines, addedSections, usage, deepUsage, Nat.not_lt.mpr usage,
        Nat.not_le.mpr noCalls, noCalls, true_and, false_and, if_true, if_false, List.append_nil,
        List.nil_append, List.append_assoc]
      split <;> simp
    · have deepCalls : 3 ≤ deep := by omega
      simp [filesLines, addedSections, usage, deepUsage, Nat.not_lt.mpr usage, calls, deepCalls,
        Nat.not_lt.mpr calls]

theorem intercalate_append_flatten (lines : List String) (sections : List (List String))
    (notEmpty : lines ≠ []) (filled : ∀ further ∈ sections, further ≠ []) :
    "\n".intercalate (lines ++ sections.flatten) =
      "\n".intercalate lines ++
        String.join (sections.map fun further => "\n" ++ "\n".intercalate further) := by
  induction sections generalizing lines with
  | nil => simp
  | cons further sections ih =>
      have here : further ≠ [] := filled further List.mem_cons_self
      rw [List.flatten_cons, ← List.append_assoc,
        ih (lines ++ further) (List.append_ne_nil_of_left_ne_nil notEmpty _)
          fun other member => filled other (List.mem_cons_of_mem _ member),
        String.intercalate_append_of_ne_nil notEmpty here, List.map_cons, String.join_cons]
      simp only [String.append_assoc]

end RelationReport

namespace FileSystem

variable {system : FileSystem} {path : Bytes}

theorem exists?_of_isDirectory (isDirectory : system.isDirectory path = true) :
    system.exists? path = true := by
  rw [FileSystem.isDirectory] at isDirectory
  rw [FileSystem.exists?]
  cases found : system.find path with
  | ok tree => rfl
  | error cause => simp [found] at isDirectory

theorem surveyRelations_of_isDirectory (isDirectory : system.isDirectory path = true)
    (settings : Settings) (depth : Nat) :
    system.surveyRelations settings depth path = .ok
      ⟨true, (system.scan settings.limits .relation path).map
        (system.fileReport settings.context (decide (3 ≤ depth)))⟩ := by
  have collected : system.collect settings.limits .relation path =
      .ok (true, system.scan settings.limits .relation path) := by
    simp [collect, exists?_of_isDirectory isDirectory, isDirectory]
  rw [surveyRelations, collected]
  rfl

theorem surveyRelations_of_file (exists? : system.exists? path = true)
    (noDirectory : system.isDirectory path = false) (settings : Settings) (depth : Nat) :
    system.surveyRelations settings depth path = .ok
      ⟨false, [system.fileReport settings.context true (singleFile path)]⟩ := by
  have collected : system.collect settings.limits .relation path =
      .ok (false, [singleFile path]) := by
    simp [collect, exists?, noDirectory]
  rw [surveyRelations, collected]
  rfl

/-- Reading the files for a deeper report does not change the lines of a shallow one. -/
theorem filesLines_fileReport {shallow deep : Nat} (le : shallow ≤ deep) (context : RuleContext)
    (files : List ScannedFile) :
    RelationReport.filesLines shallow
        (files.map (system.fileReport context (decide (3 ≤ shallow)))) =
      RelationReport.filesLines shallow
        (files.map (system.fileReport context (decide (3 ≤ deep)))) := by
  rcases Nat.lt_or_ge shallow 3 with noCalls | calls
  · rw [← RelationReport.filesLines_withoutAnalysis noCalls,
      ← RelationReport.filesLines_withoutAnalysis noCalls (files.map _), List.map_map,
      List.map_map]
    rfl
  · have deepCalls : 3 ≤ deep := by omega
    simp only [calls, deepCalls]

/-- The relation report on a directory is continued by the report at a greater depth: what
comes in addition are whole sections.  The report on a file is the same at every depth. -/
theorem relationReport_grows (system : FileSystem) (settings : Settings) (path : Bytes) :
    (system.isDirectory path = true → ∀ shallow deep, shallow ≤ deep →
      ∃ text survey,
        (system.surveyRelations settings shallow path).map (RelationReport.render shallow) =
          .ok text ∧
        system.surveyRelations settings deep path = .ok survey ∧
        RelationReport.render deep survey = text ++
          String.join ((RelationReport.addedSections shallow deep survey.files).map
            fun further => "\n" ++ "\n".intercalate further)) ∧
      (system.exists? path = true → system.isDirectory path = false →
        ∃ text, ∀ depth,
          (system.surveyRelations settings depth path).map (RelationReport.render depth) =
            .ok text) := by
  constructor
  · intro isDirectory shallow deep le
    rw [surveyRelations_of_isDirectory isDirectory, surveyRelations_of_isDirectory isDirectory]
    refine ⟨_, _, rfl, rfl, ?_⟩
    rw [RelationReport.render, RelationReport.render, RelationReport.lines, RelationReport.lines]
    simp only [RelationSurvey.isSingleFile, Bool.not_true, Bool.false_and, Bool.false_eq_true,
      if_false]
    rw [RelationReport.filesLines_append_addedSections le,
      RelationReport.intercalate_append_flatten _ _ (RelationReport.filesLines_ne_nil _ _)
        fun _ => RelationReport.ne_nil_of_mem_addedSections,
      filesLines_fileReport le]
  · intro exists? noDirectory
    refine ⟨RelationReport.render 0
      ⟨false, [system.fileReport settings.context true (singleFile path)]⟩, fun depth => ?_⟩
    rw [surveyRelations_of_file exists? noDirectory]
    rfl

/-- A directory with a single file in it. -/
def loneFileSystem : FileSystem :=
  { root := .directory
      [("project", .directory [("a.py", .file "import b\ndef f(): g()\n".toUTF8)])] }

theorem loneFileSystem_scan :
    loneFileSystem.scan {} .relation "project" = [⟨"project/a.py", "a.py", .python⟩] := by
  have leads : loneFileSystem.find "project" =
      .ok (.directory [("a.py", .file "import b\ndef f(): g()\n".toUTF8)]) := rfl
  have sorted : (FileTree.directory [("a.py", .file "import b\ndef f(): g()\n".toUTF8)]).sorted =
      .directory [("a.py", .file "import b\ndef f(): g()\n".toUTF8)] := by
    simp [FileTree.sorted, FileTree.sortedEntries]
  rw [scan_of_find leads, sorted]
  decide +kernel

def loneFileText : String :=
  "File Dependencies:\n\na.py\n  └── imports from:\n      └── b (external)"

def loneFileUsage : String :=
  "\n\n\nSymbol Usage Across Files:\n\na.py defines:\n  └── f"

theorem relationReport_loneFile :
    loneFileSystem.isDirectory "project" = true ∧
      (loneFileSystem.surveyRelations {} 1 "project").map (RelationReport.render 1) =
        .ok loneFileText ∧
      (loneFileSystem.surveyRelations {} 2 "project").map (RelationReport.render 2) =
        .ok (loneFileText ++ loneFileUsage) ∧
      loneFileSystem.exists? "project/a.py" = true ∧
      loneFileSystem.isDirectory "project/a.py" = false ∧
      ∃ text, ∀ depth, (loneFileSystem.surveyRelations {} depth "project/a.py").map
        (RelationReport.render depth) = .ok text := by
  have isDirectory : loneFileSystem.isDirectory "project" = true := rfl
  have shallow : (loneFileSystem.surveyRelations {} 1 "project").map (RelationReport.render 1) =
      .ok loneFileText := by
    rw [surveyRelations_of_isDirectory isDirectory, loneFileSystem_scan]
    decide +kernel
  obtain ⟨text, survey, shown, surveyed, continued⟩ :=
    (relationReport_grows loneFileSystem {} "project").1 isDirectory 1 2 (by omega)
  have sameText : text = loneFileText := Except.ok.inj (shown.symm.trans shallow)
  have added : String.join ((RelationReport.addedSections 1 2 survey.files).map
      fun further => "\n" ++ "\n".intercalate further) = loneFileUsage := by
    rw [surveyRelations_of_isDirectory isDirectory, loneFileSystem_scan,
      Except.ok.injEq] at surveyed
    rw [← surveyed]
    decide +kernel
  refine ⟨isDirectory, shallow, ?_, rfl, rfl,
    (relationReport_grows loneFileSystem {} "project/a.py").2 rfl rfl⟩
  rw [surveyed, ← sameText, ← added, ← continued]
  rfl

end FileSystem
end SourceAtlas
