import SourceAtlas.CallGraph
import SourceAtlas.CrossIndex
import SourceAtlas.Listing

/-!
# The relation report

A single file is reported by its symbols and their relations.  Several files are reported
by what they import from each other, from depth 2 on also by who uses the symbols they
declare, and from depth 3 on also by the calls between their symbols.
-/

namespace SourceAtlas

/-- The files of a relation report. -/
structure RelationSurvey where
  /-- Whether the files come from a directory. -/
  rootIsDirectory : Bool
  /-- The files in the order of the scan. -/
  files : List FileReport
  deriving DecidableEq, Repr, Inhabited

def RelationSurvey.isSingleFile (survey : RelationSurvey) : Bool :=
  !survey.rootIsDirectory && survey.files.length == 1

namespace RelationReport

/-- The line for a relation; a use says what is used. -/
def relationLine (table : SymbolTable) : Relation → String
  | .uses target => "  " ++ itemMark ++ "uses " ++ target ++ " [" ++ table.describe target ++ "]"
  | relation => "  " ++ itemMark ++ relation.label

def symbolLines (table : SymbolTable) (entry : String × List Relation) : List String :=
  if entry.2.isEmpty then []
  else
    ("\n" ++ entry.1 ++ " [" ++ table.describe entry.1 ++ "]") ::
      entry.2.map (relationLine table)

/-- The lines for the symbols of one file and their relations. -/
def internalLines (analysis : Analysis) : List String :=
  ["Internal Symbol Relationships:", "Symbol Types:"] ++
    analysis.table.symbols.map (fun symbol =>
      "  " ++ itemMark ++ symbol.name ++ " [" ++ symbol.describe ++ "]") ++
    ["\nRelationships:"] ++
    analysis.relations.entries.flatMap (symbolLines analysis.table)

/-- The lines for an imported name: one for every file it comes from. -/
def importLines (index : CrossIndex) (file imported : String) : List String :=
  let line (origin : String) := "      " ++ itemMark ++ imported ++ " (" ++ origin ++ ")"
  match index.sourcesOf file imported with
  | [] => [line "external"]
  | sources => sources.map fun source => line ("from " ++ source)

def fileImportLines (index : CrossIndex) (report : FileReport) : List String :=
  let imports := report.dependencies.imports
  if imports.isEmpty then []
  else
    ["\n" ++ report.relative, "  " ++ itemMark ++ "imports from:"] ++
      imports.toList.flatMap (importLines index report.relative)

/-- The section on what the files import. -/
def dependencyLines (index : CrossIndex) (files : List FileReport) : List String :=
  "File Dependencies:" :: files.flatMap (fileImportLines index)

/-- The lines for a declared name and the other files that import it. -/
def usageLines (index : CrossIndex) (file name : String) : List String :=
  let users := (index.importersOf name).filter (· != file)
  ("  " ++ itemMark ++ name) ::
    if users.isEmpty then []
    else
      ("      " ++ itemMark ++ "used by:") ::
        users.map fun user => "          " ++ itemMark ++ user

def fileUsageLines (index : CrossIndex) (report : FileReport) : List String :=
  let symbols := report.dependencies.symbols
  if symbols.isEmpty then []
  else
    ("\n" ++ report.relative ++ " defines:") ::
      symbols.toList.flatMap (usageLines index report.relative)

/-- The section on who uses the declared names. -/
def crossUsageLines (index : CrossIndex) (files : List FileReport) : List String :=
  "\n\nSymbol Usage Across Files:" :: files.flatMap (fileUsageLines index)

/-- Where a caller is declared. -/
def callerLocation (index : CrossIndex) (caller : String) : String :=
  match index.definingFiles caller with
  | [] => "unknown"
  | files => ", ".intercalate files

def callerLines (index : CrossIndex) (entry : String × List Call) : List String :=
  ("\n" ++ entry.1 ++ " (in " ++ callerLocation index entry.1 ++ ")") ::
    entry.2.map fun call =>
      "  " ++ itemMark ++ "calls " ++ call.callee ++ " (in " ++ call.file ++ ")"

/-- The section on the calls between symbols. -/
def callLines (index : CrossIndex) (files : List FileReport) : List String :=
  "\n\nFunction Call Graph:" :: (CallGraph.merge files).callers.flatMap (callerLines index)

def filesLines (depth : Nat) (files : List FileReport) : List String :=
  let index := CrossIndex.build files
  dependencyLines index files ++
    (if 2 ≤ depth then crossUsageLines index files else []) ++
    (if 3 ≤ depth then callLines index files else [])

def lines (depth : Nat) (survey : RelationSurvey) : List String :=
  if survey.isSingleFile then
    internalLines ((survey.files.head?.bind (·.analysis)).getD {})
  else filesLines depth survey.files

/-- The text of the report at some depth. -/
def render (depth : Nat) (survey : RelationSurvey) : String :=
  "\n".intercalate (lines depth survey)

end RelationReport
end SourceAtlas
