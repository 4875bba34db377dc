import SourceAtlas.FileReport

/-!
# Call graphs

The uses recorded in several files, merged by the symbol that makes use of others.  Every
use keeps the file in which it was recorded.
-/

namespace SourceAtlas

/-- A use of a symbol, recorded in a file. -/
structure Call where
  /-- The symbol that is used. -/
  callee : String
  /-- The file that records the use. -/
  file : String
  deriving DecidableEq, Repr, Inhabited

/-- The uses of each symbol over several files. -/
structure CallGraph where
  /-- Every symbol with relations and its uses, in the order of first appearance. -/
  slots : List (String × List Call) := []
  deriving DecidableEq, Repr, Inhabited

namespace CallGraph

/-- Adds calls to the slot of a caller, opening one at the end if there is none. -/
def addToSlot (caller : String) (calls : List Call) :
    List (String × List Call) → List (String × List Call)
  | [] => [(caller, calls)]
  | (name, known) :: others =>
      if name = caller then (name, known ++ calls) :: others
      else (name, known) :: addToSlot caller calls others

def add (graph : CallGraph) (caller : String) (calls : List Call) : CallGraph :=
  ⟨addToSlot caller calls graph.slots⟩

/-- The calls among some relations, recorded in a file. -/
def callsIn (file : String) (relations : List Relation) : List Call :=
  relations.filterMap fun relation =>
    match relation with
    | .uses callee => some ⟨callee, file⟩
    | _ => none

def addReport (graph : CallGraph) (report : FileReport) : CallGraph :=
  match report.analysis with
  | none => graph
  | some analysis =>
      analysis.relations.entries.foldl
        (fun graph (caller, relations) => graph.add caller (callsIn report.relative relations))
        graph

/-- The calls of some reports, merged by caller. -/
def merge (reports : List FileReport) : CallGraph :=
  reports.foldl addReport {}

/-- The callers that make a call, with their calls. -/
def callers (graph : CallGraph) : List (String × List Call) :=
  graph.slots.filter (!·.2.isEmpty)

end CallGraph
end SourceAtlas
