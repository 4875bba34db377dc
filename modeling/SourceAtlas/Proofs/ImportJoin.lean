import SourceAtlas.Proofs.FileIndex
import SourceAtlas.Report.Relations

/-!
# Imports joined with exports

The cross index answers where an imported name comes from by way of an index of the
exported names and a graph with numbered nodes, which is read back by number.  Here it is
compared with a plain join of the reports: `joinedFiles` searches all reports for an
imported name, and `joinedImports` lists what is found for every import of every report.
-/

namespace SourceAtlas

/-- The files that export a name, in the order of the reports. -/
def exportersOf (reports : List FileReport) (name : String) : List String :=
  filesWith reports (·.dependencies.exports.toList) name

/-- The files that export an imported name or, if there are none, its last segment. -/
def joinedFiles (reports : List FileReport) (imported : String) : List String :=
  if exportersOf reports imported = [] then exportersOf reports (baseSymbol imported)
  else exportersOf reports imported

/-- An import of one file that is met by an export of another. -/
structure JoinedImport where
  /-- The file that imports the name. -/
  importer : String
  /-- The file that exports the name. -/
  exporter : String
  /-- The name as it is imported. -/
  imported : String
  deriving DecidableEq, Repr

/-- All imports with the files that they come from. -/
def joinedImports (reports : List FileReport) : List JoinedImport :=
  reports.flatMap fun report =>
    report.dependencies.imports.toList.flatMap fun imported =>
      (joinedFiles reports imported).map fun file => ⟨report.relative, file, imported⟩

/-- The lines that show where an imported name comes from. -/
def joinedLines (reports : List FileReport) (imported : String) : List String :=
  if joinedFiles reports imported = [] then
    ["      " ++ itemMark ++ imported ++ " (external)"]
  else
    (joinedFiles reports imported).map fun file =>
      "      " ++ itemMark ++ imported ++ " (from " ++ file ++ ")"

namespace ImportGraph

/-- The paths of the files that an edge connects, with its label. -/
def ends (graph : ImportGraph) (edge : ImportEdge) : Option String × Option String × String :=
  (graph.nodes[edge.importer]?.map (·.relative), graph.nodes[edge.exporter]?.map (·.relative),
    edge.symbol)

variable {graph : ImportGraph} {file : String}

theorem index?_eq_none_iff :
    graph.index? file = none ↔ file ∉ graph.nodes.map (·.relative) := by
  rw [index?, List.findIdx?_eq_none_iff]
  simp only [List.mem_map, not_exists, not_and, beq_eq_false_iff_ne]

theorem foldl_addFile_of_fresh (nodes : List FileNode) (graph : ImportGraph)
    (distinct : ((graph.nodes ++ nodes).map (·.relative)).Nodup) :
    nodes.foldl addFile graph = { graph with nodes := graph.nodes ++ nodes } := by
  induction nodes generalizing graph with
  | nil => simp
  | cons node nodes ih =>
      have fresh : graph.index? node.relative = none := by
        rw [index?_eq_none_iff]
        intro known
        rw [List.map_append, List.map_cons, List.nodup_append] at distinct
        exact distinct.2.2 node.relative known node.relative List.mem_cons_self rfl
      have added : graph.addFile node = { graph with nodes := graph.nodes ++ [node] } := by
        rw [addFile, fresh]
      rw [List.foldl_cons, added, ih _ (by simpa using distinct)]
      simp

theorem relative_of_index? {number : Nat} (found : graph.index? file = some number) :
    graph.nodes[number]?.map (·.relative) = some file := by
  rw [index?, List.findIdx?_eq_some_iff_getElem] at found
  obtain ⟨inside, same, -⟩ := found
  rw [List.getElem?_eq_getElem inside, Option.map_some]
  rw [eq_of_beq same]

/-- If the nodes are distinct files, the number of a file is the place of its node. -/
theorem index?_eq_some_iff (distinct : (graph.nodes.map (·.relative)).Nodup) {number : Nat} :
    graph.index? file = some number ↔
      graph.nodes[number]?.map (·.relative) = some file := by
  refine ⟨relative_of_index?, fun there => ?_⟩
  rw [← List.getElem?_map] at there
  cases found : graph.index? file with
  | none =>
      rw [index?_eq_none_iff] at found
      exact absurd (List.mem_of_getElem? there) found
  | some first =>
      have here := relative_of_index? found
      rw [← List.getElem?_map] at here
      obtain ⟨inside, -⟩ := List.getElem?_eq_some_iff.mp here
      rw [(List.getElem?_inj inside distinct).mp (here.trans there.symm)]

theorem addImport_eq (graph : ImportGraph) (importer exporter symbol : String) :
    graph.addImport importer exporter symbol =
      { graph with edges := graph.edges ++ (graph.edge? importer exporter symbol).toList } := by
  rw [addImport]
  cases graph.edge? importer exporter symbol <;> simp

/-- Adding imports leaves the nodes alone, so all edges can be numbered beforehand. -/
theorem foldl_addImport (imports : List JoinedImport) (graph : ImportGraph) :
    imports.foldl (fun graph joined =>
        graph.addImport joined.importer joined.exporter joined.imported) graph =
      { graph with
        edges := graph.edges ++ imports.filterMap fun joined =>
          graph.edge? joined.importer joined.exporter joined.imported } := by
  induction imports generalizing graph with
  | nil => simp
  | cons joined imports ih =>
      rw [List.foldl_cons, ih, addImport_eq, List.append_assoc, List.filterMap_cons]
      cases graph.edge? joined.importer joined.exporter joined.imported <;> rfl

theorem edge?_of_mem (graph : ImportGraph) {importer exporter : String} (symbol : String)
    (importing : importer ∈ graph.nodes.map (·.relative))
    (exporting : exporter ∈ graph.nodes.map (·.relative)) :
    ∃ edge, graph.edge? importer exporter symbol = some edge ∧
      graph.ends edge = (some importer, some exporter, symbol) := by
  obtain ⟨source, sourceEq⟩ := Option.ne_none_iff_exists'.mp
    (mt index?_eq_none_iff.mp (not_not_intro importing))
  obtain ⟨target, targetEq⟩ := Option.ne_none_iff_exists'.mp
    (mt index?_eq_none_iff.mp (not_not_intro exporting))
  refine ⟨⟨source, target, symbol⟩, ?_, ?_⟩
  · simp [edge?, sourceEq, targetEq]
  · simp only [ends, relative_of_index? sourceEq, relative_of_index? targetEq]

end ImportGraph

section Reports

variable {reports : List FileReport}

theorem exportersOf_sublist (reports : List FileReport) (name : String) :
    (exportersOf reports name).Sublist (reports.map (·.relative)) :=
  FileIndex.filesWith_sublist reports _ name

theorem joinedFiles_sublist (reports : List FileReport) (imported : String) :
    (joinedFiles reports imported).Sublist (reports.map (·.relative)) := by
  rw [joinedFiles]
  split <;> exact exportersOf_sublist reports _

theorem mem_exportersOf {name file : String} :
    file ∈ exportersOf reports name ↔
      ∃ report ∈ reports, name ∈ report.dependencies.exports.toList ∧ report.relative = file := by
  simp [exportersOf, filesWith, and_assoc]

/-- An imported name comes from nowhere exactly if no report exports it or its last
segment. -/
theorem joinedFiles_eq_nil_iff {imported : String} :
    joinedFiles reports imported = [] ↔
      ∀ report ∈ reports, imported ∉ report.dependencies.exports.toList ∧
        baseSymbol imported ∉ report.dependencies.exports.toList := by
  have noneExports (name : String) : exportersOf reports name = [] ↔
      ∀ report ∈ reports, name ∉ report.dependencies.exports.toList := by
    rw [List.eq_nil_iff_forall_not_mem]
    constructor
    · intro empty report member exported
      exact empty report.relative (mem_exportersOf.mpr ⟨report, member, exported, rfl⟩)
    · intro unexported file listed
      obtain ⟨report, member, exported, -⟩ := mem_exportersOf.mp listed
      exact unexported report member exported
  have both : joinedFiles reports imported = [] ↔
      exportersOf reports imported = [] ∧ exportersOf reports (baseSymbol imported) = [] := by
    rw [joinedFiles]
    split
    case isTrue missing => simp [missing]
    case isFalse found => simp [found]
  rw [both, noneExports, noneExports]
  exact ⟨fun missing report member => ⟨missing.1 report member, missing.2 report member⟩,
    fun missing => ⟨fun report member => (missing report member).1,
      fun report member => (missing report member).2⟩⟩

theorem mem_joinedImports {joined : JoinedImport} :
    joined ∈ joinedImports reports ↔
      ∃ report ∈ reports, report.relative = joined.importer ∧
        joined.imported ∈ report.dependencies.imports.toList ∧
        joined.exporter ∈ joinedFiles reports joined.imported := by
  obtain ⟨importer, exporter, imported⟩ := joined
  simp only [joinedImports, List.mem_flatMap, List.mem_map, JoinedImport.mk.injEq]
  constructor
  · rintro ⟨report, member, name, listed, file, found, same, rfl, rfl⟩
    exact ⟨report, member, same, listed, found⟩
  · rintro ⟨report, member, same, listed, found⟩
    exact ⟨report, member, imported, listed, exporter, found, same, rfl, rfl⟩

/-- The nodes for some reports. -/
def fileNodes (reports : List FileReport) : List FileNode :=
  reports.map fun report => ⟨report.relative, report.language⟩

theorem fileNodes_relative (reports : List FileReport) :
    (fileNodes reports).map (·.relative) = reports.map (·.relative) := by
  rw [fileNodes, List.map_map]
  rfl

theorem ends_mem_of_mem_joinedImports {joined : JoinedImport}
    (member : joined ∈ joinedImports reports) :
    joined.importer ∈ reports.map (·.relative) ∧ joined.exporter ∈ reports.map (·.relative) := by
  obtain ⟨report, known, same, -, found⟩ := mem_joinedImports.mp member
  exact ⟨List.mem_map.mpr ⟨report, known, same⟩, (joinedFiles_sublist reports _).subset found⟩

variable (distinct : (reports.map (·.relative)).Nodup)

include distinct

/-- Keeping the files of the reports that a join lists gives the join back. -/
theorem filter_mem_joinedFiles (imported : String) :
    (reports.map (·.relative)).filter (· ∈ joinedFiles reports imported) =
      joinedFiles reports imported := by
  have listed := joinedFiles_sublist reports imported
  generalize joinedFiles reports imported = files at listed
  generalize reports.map (·.relative) = all at listed distinct
  induction listed with
  | slnil => rfl
  | cons file listed ih =>
      obtain ⟨alone, rest⟩ := List.nodup_cons.mp distinct
      rw [List.filter_cons_of_neg (by simpa using fun member => alone (listed.subset member)),
        ih rest]
  | @cons_cons files all file listed ih =>
      obtain ⟨alone, rest⟩ := List.nodup_cons.mp distinct
      rw [List.filter_cons_of_pos (by simp)]
      congr 1
      refine Eq.trans ?_ (ih rest)
      apply List.filter_congr
      intro other member
      have different : other ≠ file := fun same => alone (same ▸ member)
      simp [different]

theorem joinedImports_nodup : (joinedImports reports).Nodup := by
  rw [joinedImports, List.nodup_flatMap]
  refine ⟨fun report _ => ?_, ?_⟩
  · rw [List.nodup_flatMap]
    refine ⟨fun imported _ => ?_, ?_⟩
    · refine (distinct.sublist (joinedFiles_sublist reports imported)).map ?_
      intro first second same
      exact (JoinedImport.mk.inj same).2.1
    · -- Names of a set are distinct, and so are the imports made from them.
      refine report.dependencies.imports.ascending.imp fun less joined first second => ?_
      obtain ⟨file, -, rfl⟩ := List.mem_map.mp first
      obtain ⟨other, -, same⟩ := List.mem_map.mp second
      rw [(JoinedImport.mk.inj same).2.2] at less
      exact String.lt_irrefl _ less
  · refine (List.pairwise_map.mp distinct).imp fun different joined first second => ?_
    simp only [List.mem_flatMap, List.mem_map] at first second
    obtain ⟨name, -, file, -, rfl⟩ := first
    obtain ⟨otherName, -, otherFile, -, same⟩ := second
    exact different (JoinedImport.mk.inj same).1.symm

theorem resolveImport_eq_joinedFiles (imported : String) :
    CrossIndex.resolveImport
        (FileIndex.ofReports reports (·.dependencies.exports.toList)) imported =
      joinedFiles reports imported := by
  rw [CrossIndex.resolveImport, FileIndex.get?_ofReports _ distinct,
    FileIndex.get?_ofReports _ distinct, joinedFiles, exportersOf, exportersOf]
  cases filesWith reports (·.dependencies.exports.toList) imported with
  | nil =>
      cases filesWith reports (·.dependencies.exports.toList) (baseSymbol imported) <;> rfl
  | cons file files => simp [Option.filter_some]

theorem build_graph :
    (CrossIndex.build reports).graph =
      { nodes := fileNodes reports
        edges := (joinedImports reports).filterMap fun joined =>
          ImportGraph.edge? ⟨fileNodes reports, []⟩ joined.importer joined.exporter
            joined.imported } := by
  have nodes : reports.foldl (fun graph report =>
        ImportGraph.addFile graph ⟨report.relative, report.language⟩) {} =
      ⟨fileNodes reports, []⟩ := by
    rw [← List.foldl_map (f := fun report : FileReport =>
      FileNode.mk report.relative report.language)]
    exact ImportGraph.foldl_addFile_of_fresh (fileNodes reports) {}
      (by simpa [fileNodes_relative] using distinct)
  have imports : CrossIndex.addImports
        (FileIndex.ofReports reports (·.dependencies.exports.toList)) =
      fun graph report => report.dependencies.imports.toList.foldl
        (fun graph imported => (joinedFiles reports imported).foldl
          (fun graph file => graph.addImport report.relative file imported) graph) graph := by
    funext graph report
    simp only [CrossIndex.addImports, resolveImport_eq_joinedFiles distinct]
  calc (CrossIndex.build reports).graph
      = reports.foldl (CrossIndex.addImports
          (FileIndex.ofReports reports (·.dependencies.exports.toList)))
          ⟨fileNodes reports, []⟩ := by
        rw [← nodes]
        rfl
    _ = (joinedImports reports).foldl (fun graph joined =>
          graph.addImport joined.importer joined.exporter joined.imported)
          ⟨fileNodes reports, []⟩ := by
        simp only [imports, joinedImports, List.foldl_flatMap, List.foldl_map]
    _ = _ := ImportGraph.foldl_addImport (joinedImports reports) _

theorem build_nodes_relative :
    (CrossIndex.build reports).graph.nodes.map (·.relative) = reports.map (·.relative) := by
  rw [build_graph distinct]
  exact fileNodes_relative reports

/-- The edges of the graph are the joined imports, one by one. -/
theorem build_edge_ends :
    (CrossIndex.build reports).graph.edges.map (CrossIndex.build reports).graph.ends =
      (joinedImports reports).map fun joined =>
        (some joined.importer, some joined.exporter, joined.imported) := by
  rw [build_graph distinct, List.map_filterMap, List.filterMap_eq_map_iff_forall_eq_some]
  intro joined member
  obtain ⟨importing, exporting⟩ := ends_mem_of_mem_joinedImports member
  rw [← fileNodes_relative] at importing exporting
  obtain ⟨edge, numbered, ends⟩ := ImportGraph.edge?_of_mem ⟨fileNodes reports, []⟩
    joined.imported importing exporting
  rw [numbered, Option.map_some]
  exact congrArg some ends

theorem build_edges_nodup :
    (CrossIndex.build reports).graph.edges.Nodup := by
  apply List.Nodup.of_map (CrossIndex.build reports).graph.ends
  rw [build_edge_ends distinct]
  refine (joinedImports_nodup distinct).map ?_
  rintro ⟨importer, exporter, imported⟩ ⟨otherImporter, otherExporter, otherImported⟩ same
  simpa using same

/-- An edge runs between two numbers exactly if the files with these numbers are joined. -/
theorem mem_build_edges_iff {source target : Nat} {imported : String} :
    ⟨source, target, imported⟩ ∈ (CrossIndex.build reports).graph.edges ↔
      ∃ importer exporter, (reports.map (·.relative))[source]? = some importer ∧
        (reports.map (·.relative))[target]? = some exporter ∧
        ⟨importer, exporter, imported⟩ ∈ joinedImports reports := by
  have number {file : String} {place : Nat} :
      ImportGraph.index? ⟨fileNodes reports, []⟩ file = some place ↔
        (reports.map (·.relative))[place]? = some file := by
    rw [ImportGraph.index?_eq_some_iff (by rwa [fileNodes_relative]), ← List.getElem?_map,
      fileNodes_relative]
  rw [build_graph distinct, List.mem_filterMap]
  constructor
  · rintro ⟨⟨importer, exporter, name⟩, member, numbered⟩
    simp only [ImportGraph.edge?, Option.bind_eq_bind, Option.bind_eq_some_iff, Option.pure_def,
      Option.some.injEq, ImportEdge.mk.injEq, number] at numbered
    obtain ⟨_, importing, _, exporting, rfl, rfl, rfl⟩ := numbered
    exact ⟨importer, exporter, importing, exporting, member⟩
  · rintro ⟨importer, exporter, importing, exporting, member⟩
    refine ⟨⟨importer, exporter, imported⟩, member, ?_⟩
    simp [ImportGraph.edge?, number.mpr importing, number.mpr exporting]

theorem build_relativeOf_range :
    (List.range (CrossIndex.build reports).graph.nodes.length).map
        (CrossIndex.build reports).graph.relativeOf =
      reports.map (·.relative) := by
  rw [← build_nodes_relative distinct]
  apply List.ext_getElem
  · simp
  · intro place inside _
    have within : place < (CrossIndex.build reports).graph.nodes.length := by
      simpa using inside
    simp [ImportGraph.relativeOf, within]

theorem build_targets_relative (importer : Nat) (imported : String) (files : List String)
    (joined : ∀ target file, (reports.map (·.relative))[target]? = some file →
      (⟨importer, target, imported⟩ ∈ (CrossIndex.build reports).graph.edges ↔ file ∈ files)) :
    ((CrossIndex.build reports).graph.targets importer imported).map
        (CrossIndex.build reports).graph.relativeOf =
      (reports.map (·.relative)).filter (· ∈ files) := by
  rw [← build_relativeOf_range distinct, List.filter_map, ImportGraph.targets]
  congr 1
  apply List.filter_congr
  intro target inside
  have named : (reports.map (·.relative))[target]? =
      some ((CrossIndex.build reports).graph.relativeOf target) := by
    rw [List.mem_range] at inside
    rw [← build_nodes_relative distinct]
    simp [ImportGraph.relativeOf, inside]
  rw [Bool.eq_iff_iff, List.contains_iff_mem, joined target _ named]
  simp

theorem build_index?_eq_some_iff {file : String}
    {number : Nat} :
    (CrossIndex.build reports).graph.index? file = some number ↔
      (reports.map (·.relative))[number]? = some file := by
  rw [ImportGraph.index?_eq_some_iff (by rwa [build_nodes_relative distinct]),
    ← List.getElem?_map, build_nodes_relative distinct]

/-- An import of a report is resolved to the files that the join finds for it. -/
theorem sourcesOf_imported {report : FileReport}
    (known : report ∈ reports) {imported : String}
    (listed : imported ∈ report.dependencies.imports.toList) :
    (CrossIndex.build reports).sourcesOf report.relative imported =
      joinedFiles reports imported := by
  obtain ⟨number, there⟩ := List.mem_iff_getElem?.mp
    (List.mem_map_of_mem known : report.relative ∈ reports.map (·.relative))
  rw [CrossIndex.sourcesOf, (build_index?_eq_some_iff distinct).mpr there,
    ← filter_mem_joinedFiles distinct]
  apply build_targets_relative distinct
  intro target file named
  rw [mem_build_edges_iff distinct]
  constructor
  · rintro ⟨importer, exporter, -, exporting, joined⟩
    rw [Option.some.inj (named.symm.trans exporting)]
    obtain ⟨-, -, -, -, found⟩ := mem_joinedImports.mp joined
    exact found
  · intro found
    exact ⟨report.relative, file, there, named,
      mem_joinedImports.mpr ⟨report, known, rfl, listed, found⟩⟩

theorem sourcesOf_not_imported {file imported : String}
    (unlisted : ∀ report ∈ reports, report.relative = file →
      imported ∉ report.dependencies.imports.toList) :
    (CrossIndex.build reports).sourcesOf file imported = [] := by
  rw [CrossIndex.sourcesOf]
  cases found : (CrossIndex.build reports).graph.index? file with
  | none => rfl
  | some number =>
      have there := (build_index?_eq_some_iff distinct).mp found
      have nowhere := build_targets_relative distinct number imported [] fun target other _ => by
        rw [mem_build_edges_iff distinct]
        simp only [List.not_mem_nil, iff_false]
        rintro ⟨importer, exporter, importing, -, joined⟩
        obtain ⟨report, known, same, listed, -⟩ := mem_joinedImports.mp joined
        rw [← Option.some.inj (there.symm.trans importing)] at same
        exact unlisted report known same listed
      simpa using nowhere

theorem importLines_eq_joinedLines {report : FileReport} (known : report ∈ reports)
    {imported : String} (listed : imported ∈ report.dependencies.imports.toList) :
    RelationReport.importLines (CrossIndex.build reports) report.relative imported =
      joinedLines reports imported := by
  have fromFile (file : String) : " (from " ++ file = " (" ++ ("from " ++ file) := by
    rw [← String.append_assoc]
    rfl
  rw [RelationReport.importLines, sourcesOf_imported distinct known listed, joinedLines]
  cases joinedFiles reports imported with
  | nil =>
      have external : " (external)" = " (" ++ "external" ++ ")" := rfl
      simp [external, String.append_assoc]
  | cons file files => simp [fromFile, String.append_assoc]

end Reports

/-- The cross index of reports on distinct files agrees with the plain join: the graph has
a node for every report and an edge for every joined import, both in order and without
repetition, imports lead to the files that the join finds, and the report at depth 1 shows
just these. -/
theorem build_joins_reports (reports : List FileReport)
    (distinct : (reports.map (·.relative)).Nodup) :
    let index := CrossIndex.build reports
    index.graph.nodes = reports.map (fun report => ⟨report.relative, report.language⟩) ∧
      index.graph.edges.map index.graph.ends =
        (joinedImports reports).map (fun joined =>
          (some joined.importer, some joined.exporter, joined.imported)) ∧
      index.graph.edges.Nodup ∧
      (∀ name, index.exportingFiles name = exportersOf reports name) ∧
      (∀ report ∈ reports, ∀ imported ∈ report.dependencies.imports.toList,
        index.sourcesOf report.relative imported =
          if index.exportingFiles imported = [] then
            index.exportingFiles (baseSymbol imported)
          else index.exportingFiles imported) ∧
      (∀ file imported,
        (∀ report ∈ reports, report.relative = file →
          imported ∉ report.dependencies.imports.toList) →
        index.sourcesOf file imported = []) ∧
      (∀ imported, joinedFiles reports imported = [] ↔
        ∀ report ∈ reports, imported ∉ report.dependencies.exports.toList ∧
          baseSymbol imported ∉ report.dependencies.exports.toList) ∧
      ∀ rootIsDirectory,
        RelationSurvey.isSingleFile ⟨rootIsDirectory, reports⟩ = false →
        RelationReport.lines 1 ⟨rootIsDirectory, reports⟩ =
          "File Dependencies:" :: reports.flatMap fun report =>
            if report.dependencies.imports.isEmpty then []
            else
              ["\n" ++ report.relative, "  " ++ itemMark ++ "imports from:"] ++
                report.dependencies.imports.toList.flatMap (joinedLines reports) := by
  have exporting (name : String) :
      (CrossIndex.build reports).exportingFiles name = exportersOf reports name :=
    FileIndex.get_ofReports _ distinct name
  refine ⟨?_, build_edge_ends distinct, build_edges_nodup distinct, exporting, ?_, ?_, ?_, ?_⟩
  · rw [build_graph distinct]
    rfl
  · intro report known imported listed
    rw [sourcesOf_imported distinct known listed, exporting, exporting, joinedFiles]
  · intro file imported unlisted
    exact sourcesOf_not_imported distinct unlisted
  · intro imported
    exact joinedFiles_eq_nil_iff
  · intro rootIsDirectory several
    have shallow : RelationReport.lines 1 ⟨rootIsDirectory, reports⟩ =
        RelationReport.dependencyLines (CrossIndex.build reports) reports := by
      simp [RelationReport.lines, several, RelationReport.filesLines]
    rw [shallow, RelationReport.dependencyLines]
    congr 1
    apply List.flatMap_congr
    intro report known
    rw [RelationReport.fileImportLines]
    congr 2
    apply List.flatMap_congr
    intro imported listed
    exact importLines_eq_joinedLines distinct known listed

/-- Two files that export `helper`, and one that imports it from itself and from them. -/
def helperReports : List FileReport :=
  [⟨"a/util.py", .python, { exports := .ofList ["helper", "models.Role"] }, none⟩,
    ⟨"b/util.py", .python, { exports := .ofList ["helper"] }, none⟩,
    ⟨"main.py", .python,
      { imports := .ofList ["util.helper", "os", "models.Role"]
        exports := .ofList ["helper", "Role"] }, none⟩]

theorem build_joins_helperReports :
    (helperReports.map (·.relative)).Nodup ∧
      (CrossIndex.build helperReports).sourcesOf "main.py" "util.helper" =
        ["a/util.py", "b/util.py", "main.py"] ∧
      (CrossIndex.build helperReports).sourcesOf "main.py" "models.Role" = ["a/util.py"] ∧
      (CrossIndex.build helperReports).sourcesOf "main.py" "os" = [] ∧
      (CrossIndex.build helperReports).sourcesOf "a/util.py" "os" = [] := by
  have distinct : (helperReports.map (·.relative)).Nodup := by decide +kernel
  obtain ⟨-, -, -, exporting, found, missing, -⟩ := build_joins_reports helperReports distinct
  simp only [exporting] at found
  have main := found ⟨"main.py", .python,
    { imports := .ofList ["util.helper", "os", "models.Role"]
      exports := .ofList ["helper", "Role"] }, none⟩ (by simp [helperReports])
  refine ⟨distinct, (main "util.helper" (by decide +kernel)).trans (by decide +kernel),
    (main "models.Role" (by decide +kernel)).trans (by decide +kernel),
    (main "os" (by decide +kernel)).trans (by decide +kernel),
    missing "a/util.py" "os" (by decide +kernel)⟩

end SourceAtlas
