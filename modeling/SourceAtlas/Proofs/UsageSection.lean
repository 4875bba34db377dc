import Mathlib.Data.List.Nodup
import SourceAtlas.Proofs.FileIndex
import SourceAtlas.Report.Relations

/-!
# The files behind a name

For reports on distinct files the cross index answers which files import, export or declare a
name with the files themselves, each once and in the order of the reports.  From depth 2 on the
relation report shows these answers: what stands below a declared name in the block of its file
can be read back by the indentation of the lines, and names the other files that import it.
-/

namespace SourceAtlas

/-- Whether some files are those of the reports with a property, in the order of the reports and
without repetition. -/
structure ListsFiles (reports : List FileReport) (property : FileReport → Prop)
    (files : List String) : Prop where
  nodup : files.Nodup
  ordered : files.Sublist (reports.map (·.relative))
  mem_iff : ∀ file, file ∈ files ↔ ∃ report ∈ reports, report.relative = file ∧ property report

theorem listsFiles_filesWith {reports : List FileReport}
    (distinct : (reports.map (·.relative)).Nodup) (names : FileReport → List String)
    (name : String) :
    ListsFiles reports (fun report => name ∈ names report) (filesWith reports names name) := by
  have ordered := FileIndex.filesWith_sublist reports names name
  refine ⟨distinct.sublist ordered, ordered, fun file => ?_⟩
  simp only [filesWith, List.mem_map, List.mem_filter, List.contains_iff_mem]
  constructor
  · rintro ⟨report, ⟨known, named⟩, same⟩
    exact ⟨report, known, same, named⟩
  · rintro ⟨report, known, same, named⟩
    exact ⟨report, ⟨known, named⟩, same⟩

namespace RelationReport

/-! ## Reading by indentation -/

/-- Whether a line begins with some number of spaces. -/
def isIndented (width : Nat) (line : String) : Bool :=
  (List.replicate width ' ').isPrefixOf line.toList

/-- The lines behind the first occurrence of a line, as long as they are indented. -/
def linesBelow (line : String) (width : Nat) (lines : List String) : List String :=
  (lines.dropWhile (· != line)).tail.takeWhile (isIndented width)

section Reading

variable {line : String} {width : Nat}

theorem linesBelow_append {front : List String} (absent : line ∉ front) (lines : List String) :
    linesBelow line width (front ++ lines) = linesBelow line width lines := by
  rw [linesBelow, List.dropWhile_append_of_pos]
  · rfl
  · intro other member
    rw [bne_iff_ne]
    rintro rfl
    exact absent member

theorem linesBelow_cons_append {inner rest : List String}
    (deep : ∀ other ∈ inner, isIndented width other = true)
    (ends : ∀ other ∈ rest.head?, isIndented width other = false) :
    linesBelow line width (line :: (inner ++ rest)) = inner := by
  have nothing : rest.takeWhile (isIndented width) = [] := by
    cases rest with
    | nil => rfl
    | cons other rest => simp [ends other rfl]
  have here : linesBelow line width (line :: (inner ++ rest)) =
      (inner ++ rest).takeWhile (isIndented width) := by
    simp [linesBelow]
  rw [here, List.takeWhile_append_of_pos deep, nothing, List.append_nil]

/-- Where every item has a line of its own and deeper lines below it, the lines below an item are
found by its line. -/
theorem linesBelow_flatMap {α : Type} {items : List α} (header : α → String)
    (inner : α → List String) (distinct : (items.map header).Nodup)
    (flush : ∀ item ∈ items, isIndented width (header item) = false)
    (deep : ∀ item ∈ items, ∀ other ∈ inner item, isIndented width other = true)
    {item : α} (member : item ∈ items) :
    linesBelow (header item) width (items.flatMap fun item => header item :: inner item) =
      inner item := by
  induction items with
  | nil => exact absurd member List.not_mem_nil
  | cons first others ih =>
      obtain ⟨fresh, distinct⟩ := List.nodup_cons.mp distinct
      obtain ⟨-, laterFlush⟩ := List.forall_mem_cons.mp flush
      obtain ⟨firstDeep, laterDeep⟩ := List.forall_mem_cons.mp deep
      rw [List.flatMap_cons]
      rcases List.mem_cons.mp member with rfl | later
      · apply linesBelow_cons_append firstDeep
        intro line next
        cases others with
        | nil => simp at next
        | cons second others =>
            obtain rfl : header second = line := by simpa using next
            exact laterFlush second List.mem_cons_self
      · rw [linesBelow_append, ih distinct laterFlush laterDeep later]
        rw [List.mem_cons, not_or]
        constructor
        · intro same
          exact fresh (same ▸ List.mem_map_of_mem later)
        · intro below
          have indented := firstDeep _ below
          rw [laterFlush item later] at indented
          exact absurd indented Bool.false_ne_true

end Reading

/-! ## The section on usage -/

/-- The lines below a declared name that name the files that use it. -/
def usedByLines (users : List String) : List String :=
  if users = [] then []
  else
    ("      " ++ itemMark ++ "used by:") ::
      users.map fun user => "          " ++ itemMark ++ user

theorem usageLines_eq (index : CrossIndex) (file name : String) :
    usageLines index file name =
      ("  " ++ itemMark ++ name) :: usedByLines ((index.importersOf name).filter (· != file)) := by
  rw [usageLines, usedByLines]
  simp only [List.isEmpty_iff]

theorem isIndented_usedByLines {users : List String} {line : String}
    (member : line ∈ usedByLines users) : isIndented 6 line = true := by
  rw [usedByLines] at member
  split at member
  · exact absurd member List.not_mem_nil
  · rcases List.mem_cons.mp member with rfl | listed
    · decide +kernel
    · obtain ⟨user, -, rfl⟩ := List.mem_map.mp listed
      simp [isIndented, itemMark, List.replicate, List.isPrefixOf]

theorem isIndented_two_of_six {line : String} (deep : isIndented 6 line = true) :
    isIndented 2 line = true := by
  rw [isIndented, List.isPrefixOf_iff_prefix] at deep ⊢
  exact List.IsPrefix.trans ⟨List.replicate 4 ' ', by decide⟩ deep

theorem isIndented_usageLines {index : CrossIndex} {file name line : String}
    (member : line ∈ usageLines index file name) : isIndented 2 line = true := by
  rw [usageLines_eq] at member
  rcases List.mem_cons.mp member with rfl | below
  · simp [isIndented, itemMark, List.replicate, List.isPrefixOf]
  · exact isIndented_two_of_six (isIndented_usedByLines below)

/-- Below a name in the block of a file stand the other files that import the name. -/
theorem linesBelow_symbol (index : CrossIndex) (file : String) (symbols : NameSet) {name : String}
    (declared : name ∈ symbols.toList) :
    linesBelow ("  " ++ itemMark ++ name) 6 (symbols.toList.flatMap (usageLines index file)) =
      usedByLines ((index.importersOf name).filter (· != file)) := by
  have spelled : usageLines index file = fun name => ("  " ++ itemMark ++ name) ::
      usedByLines ((index.importersOf name).filter (· != file)) :=
    funext (usageLines_eq index file)
  rw [spelled]
  apply linesBelow_flatMap (fun name => "  " ++ itemMark ++ name)
  · have distinct : symbols.toList.Nodup := symbols.ascending.imp String.ne_of_lt
    exact distinct.map fun first second same => by simpa using same
  · intro other _
    simp [isIndented, itemMark, List.replicate, List.isPrefixOf]
  · intro other _ line below
    exact isIndented_usedByLines below
  · exact declared

/-- The line at the head of the block of a file. -/
def definesLine (report : FileReport) : String :=
  "\n" ++ report.relative ++ " defines:"

theorem definesLine_ne_heading (report : FileReport) :
    definesLine report ≠ "\n\nSymbol Usage Across Files:" := by
  intro same
  have ends := congrArg (fun line => line.toList.reverse.take 4) same
  simp [definesLine] at ends

theorem flatMap_fileUsageLines (index : CrossIndex) (files : List FileReport) :
    files.flatMap (fileUsageLines index) =
      (files.filter fun report => !report.dependencies.symbols.isEmpty).flatMap fun report =>
        definesLine report ::
          report.dependencies.symbols.toList.flatMap (usageLines index report.relative) := by
  induction files with
  | nil => rfl
  | cons report files ih =>
      rw [List.flatMap_cons, ih, fileUsageLines, List.filter_cons]
      cases report.dependencies.symbols.isEmpty <;> rfl

/-- A file that declares names has one block in the section on usage. -/
theorem linesBelow_definesLine (index : CrossIndex) {files : List FileReport}
    (distinct : (files.map (·.relative)).Nodup) {report : FileReport} (known : report ∈ files)
    (declares : report.dependencies.symbols.isEmpty = false) :
    linesBelow (definesLine report) 2 (crossUsageLines index files) =
      report.dependencies.symbols.toList.flatMap (usageLines index report.relative) := by
  have notHeading : definesLine report ∉ ["\n\nSymbol Usage Across Files:"] := by
    simpa using definesLine_ne_heading report
  have behind : linesBelow (definesLine report) 2 (crossUsageLines index files) =
      linesBelow (definesLine report) 2 (files.flatMap (fileUsageLines index)) :=
    linesBelow_append notHeading _
  rw [behind, flatMap_fileUsageLines]
  apply linesBelow_flatMap definesLine
    fun report => report.dependencies.symbols.toList.flatMap (usageLines index report.relative)
  · rw [List.Nodup, List.pairwise_map] at distinct ⊢
    refine (distinct.sublist List.filter_sublist).imp fun differs same => differs ?_
    simpa [definesLine] using same
  · intro other _
    simp [isIndented, definesLine, List.replicate, List.isPrefixOf]
  · intro other _ line below
    obtain ⟨name, -, shown⟩ := List.mem_flatMap.mp below
    exact isIndented_usageLines shown
  · exact List.mem_filter.mpr ⟨known, by rw [declares]; rfl⟩

theorem lines_two (rootIsDirectory : Bool) (files : List FileReport)
    (several : RelationSurvey.isSingleFile ⟨rootIsDirectory, files⟩ = false) :
    lines 2 ⟨rootIsDirectory, files⟩ =
      lines 1 ⟨rootIsDirectory, files⟩ ++ crossUsageLines (CrossIndex.build files) files := by
  simp [lines, several, filesLines]

/-- The cross index of reports on distinct files lists for every name the files that import a name
with that last segment, that export it and that declare it, in order and without repetition.  In
the section that the report at depth 2 adds, the lines below a declared name in the block of its
file show the other files that import it, or nothing if there are none. -/
theorem build_lists_files (reports : List FileReport)
    (distinct : (reports.map (·.relative)).Nodup) :
    let index := CrossIndex.build reports
    (∀ name,
      ListsFiles reports
          (fun report => ∃ imported ∈ report.dependencies.imports.toList,
            baseSymbol imported = name)
          (index.importersOf name) ∧
        ListsFiles reports (fun report => name ∈ report.dependencies.exports.toList)
          (index.exportingFiles name) ∧
        ListsFiles reports (fun report => name ∈ report.dependencies.symbols.toList)
          (index.definingFiles name)) ∧
      ∀ rootIsDirectory,
        RelationSurvey.isSingleFile ⟨rootIsDirectory, reports⟩ = false →
        lines 2 ⟨rootIsDirectory, reports⟩ =
            lines 1 ⟨rootIsDirectory, reports⟩ ++ crossUsageLines index reports ∧
          ∀ report ∈ reports, ∀ name ∈ report.dependencies.symbols.toList,
            linesBelow ("  " ++ itemMark ++ name) 6
                (linesBelow ("\n" ++ report.relative ++ " defines:") 2
                  (crossUsageLines index reports)) =
              usedByLines ((index.importersOf name).filter (· != report.relative)) := by
  intro index
  refine ⟨fun name => ⟨?_, ?_, ?_⟩, fun rootIsDirectory several =>
    ⟨lines_two rootIsDirectory reports several, fun report known name declared => ?_⟩⟩
  · have listed := listsFiles_filesWith distinct
      (fun report => report.dependencies.imports.toList.map baseSymbol) name
    simp only [List.mem_map] at listed
    rwa [← FileIndex.get_ofReports _ distinct] at listed
  · have listed := listsFiles_filesWith distinct (·.dependencies.exports.toList) name
    rwa [← FileIndex.get_ofReports _ distinct] at listed
  · have listed := listsFiles_filesWith distinct (·.dependencies.symbols.toList) name
    rwa [← FileIndex.get_ofReports _ distinct] at listed
  · have declares : report.dependencies.symbols.isEmpty = false := by
      rw [NameSet.isEmpty, List.isEmpty_eq_false_iff]
      exact List.ne_nil_of_mem declared
    have block := linesBelow_definesLine index distinct known declares
    rw [definesLine] at block
    rw [block, linesBelow_symbol index report.relative _ declared]

/-- Files that declare and import `run` in several ways, one of them its own. -/
def runReports : List FileReport :=
  [⟨"a.py", .python,
      { imports := .ofList ["a.run", "b.run"], exports := .ofList ["run"],
        symbols := .ofList ["rest", "run"] }, none⟩,
    ⟨"b.py", .python,
      { imports := .ofList ["a.run", "b::run"], symbols := .ofList ["run"] }, none⟩,
    ⟨"c.py", .python, { imports := .ofList ["run"] }, none⟩]

theorem build_lists_runReports :
    (runReports.map (·.relative)).Nodup ∧
      (CrossIndex.build runReports).importersOf "run" = ["a.py", "b.py", "c.py"] ∧
      ((CrossIndex.build runReports).importersOf "run").Nodup ∧
      RelationSurvey.isSingleFile ⟨true, runReports⟩ = false ∧
      linesBelow "  └── run" 6 (linesBelow "\na.py defines:" 2
          (crossUsageLines (CrossIndex.build runReports) runReports)) =
        ["      └── used by:", "          └── b.py", "          └── c.py"] ∧
      linesBelow "  └── rest" 6 (linesBelow "\na.py defines:" 2
          (crossUsageLines (CrossIndex.build runReports) runReports)) = [] := by
  have distinct : (runReports.map (·.relative)).Nodup := by decide +kernel
  obtain ⟨listed, shown⟩ := build_lists_files runReports distinct
  have several : RelationSurvey.isSingleFile ⟨true, runReports⟩ = false := rfl
  have below := (shown true several).2 ⟨"a.py", .python,
    { imports := .ofList ["a.run", "b.run"], exports := .ofList ["run"],
      symbols := .ofList ["rest", "run"] }, none⟩ (by simp [runReports])
  exact ⟨distinct, by decide +kernel, (listed "run").1.nodup, several,
    (below "run" (by decide +kernel)).trans (by decide +kernel),
    (below "rest" (by decide +kernel)).trans (by decide +kernel)⟩

end RelationReport
end SourceAtlas
