import SourceAtlas.ImportGraph
import SourceAtlas.Text.Words

/-!
# Joining files by the names they share

The cross index of some files tells which files export, declare or import a name.  What
a file imports is resolved to the files that export the very name, and if there are none,
to those that export its last segment.
-/

namespace SourceAtlas

/-- The part of a name behind its last separator, a dot or a double colon; `candidate` is
the part behind the last separator seen so far. -/
def segmentFrom : (candidate : Text) → Text → Text
  | candidate, [] => candidate
  | candidate, c :: rest =>
      if c = '.' then segmentFrom rest rest
      else if c = ':' && rest.head? == some ':' then segmentFrom rest.tail rest
      else segmentFrom candidate rest

/-- The part of a name behind its last separator, or all of it. -/
def baseSymbol (name : String) : String :=
  String.ofList (segmentFrom name.toList name.toList)

/-- Files listed under names, each file once under a name. -/
structure FileIndex where
  /-- The names with their files. -/
  entries : List (String × List String) := []
  deriving DecidableEq, Repr, Inhabited

namespace FileIndex

def addEntry (name file : String) :
    List (String × List String) → List (String × List String)
  | [] => [(name, [file])]
  | (key, files) :: others =>
      if key = name then
        (key, if files.contains file then files else files ++ [file]) :: others
      else (key, files) :: addEntry name file others

/-- Lists a file under a name, unless it is listed there. -/
def add (index : FileIndex) (file name : String) : FileIndex :=
  ⟨addEntry name file index.entries⟩

/-- The files listed under a name, if the name occurs. -/
def get? (index : FileIndex) (name : String) : Option (List String) :=
  index.entries.lookup name

def get (index : FileIndex) (name : String) : List String :=
  (index.get? name).getD []

def ofReports (reports : List FileReport) (names : FileReport → List String) : FileIndex :=
  reports.foldl (fun index report => (names report).foldl (·.add report.relative ·) index) {}

end FileIndex

/-- The names shared between files, and the import graph that they make. -/
structure CrossIndex where
  /-- The files that export a name. -/
  exporters : FileIndex
  /-- The files that declare a name. -/
  definers : FileIndex
  /-- The files that import a name with some last segment. -/
  importers : FileIndex
  /-- The imports that lead to one of the files. -/
  graph : ImportGraph

namespace CrossIndex

/-- The files that an imported name comes from. -/
def resolveImport (exporters : FileIndex) (imported : String) : List String :=
  ((exporters.get? imported).or (exporters.get? (baseSymbol imported))).getD []

def addImports (exporters : FileIndex) (graph : ImportGraph) (report : FileReport) :
    ImportGraph :=
  report.dependencies.imports.toList.foldl
    (fun graph imported =>
      (resolveImport exporters imported).foldl
        (fun graph file => graph.addImport report.relative file imported) graph)
    graph

def importGraph (exporters : FileIndex) (reports : List FileReport) : ImportGraph :=
  let files : ImportGraph :=
    reports.foldl (fun graph report => graph.addFile ⟨report.relative, report.language⟩) {}
  reports.foldl (addImports exporters) files

def build (reports : List FileReport) : CrossIndex :=
  let exporters := FileIndex.ofReports reports (·.dependencies.exports.toList)
  { exporters := exporters
    definers := FileIndex.ofReports reports (·.dependencies.symbols.toList)
    importers := FileIndex.ofReports reports fun report =>
      report.dependencies.imports.toList.map baseSymbol
    graph := importGraph exporters reports }

/-- The files that an import of a file leads to, in the order of the files. -/
def sourcesOf (index : CrossIndex) (file imported : String) : List String :=
  match index.graph.index? file with
  | none => []
  | some importer => (index.graph.targets importer imported).map index.graph.relativeOf

def exportingFiles (index : CrossIndex) (name : String) : List String :=
  index.exporters.get name

def definingFiles (index : CrossIndex) (name : String) : List String :=
  index.definers.get name

/-- The files that import something whose last segment is `name`. -/
def importersOf (index : CrossIndex) (name : String) : List String :=
  index.importers.get name

end CrossIndex
end SourceAtlas
