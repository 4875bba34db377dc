import SourceAtlas.FileReport

/-!
# Import graphs

The nodes of an import graph are files, and each of its edges is an imported name that
leads from the file that imports it to a file that exports it.  Nodes and edges are
numbered in the order of their addition.
-/

namespace SourceAtlas

/-- A file in an import graph. -/
structure FileNode where
  /-- The path that identifies the file. -/
  relative : String
  language : Language
  deriving DecidableEq, Repr, Inhabited

/-- An imported name between two files, given by their numbers. -/
structure ImportEdge where
  /-- The file that imports the name. -/
  importer : Nat
  /-- The file that exports the name. -/
  exporter : Nat
  /-- The name as it is imported. -/
  symbol : String
  deriving DecidableEq, Repr, Inhabited

/-- Files and the imports between them. -/
structure ImportGraph where
  /-- The files in the order of their addition. -/
  nodes : List FileNode := []
  /-- The imports in the order of their addition. -/
  edges : List ImportEdge := []
  deriving DecidableEq, Repr, Inhabited

namespace ImportGraph

/-- The number of a file. -/
def index? (graph : ImportGraph) (relative : String) : Option Nat :=
  graph.nodes.findIdx? (·.relative == relative)

def addFile (graph : ImportGraph) (node : FileNode) : ImportGraph :=
  match graph.index? node.relative with
  | some _ => graph
  | none => { graph with nodes := graph.nodes ++ [node] }

/-- The edge for an imported name between two files of the graph. -/
def edge? (graph : ImportGraph) (importer exporter symbol : String) : Option ImportEdge := do
  let source ← graph.index? importer
  let target ← graph.index? exporter
  return ⟨source, target, symbol⟩

/-- Adds an imported name between two files; nothing changes if one of them is no node
of the graph. -/
def addImport (graph : ImportGraph) (importer exporter symbol : String) : ImportGraph :=
  match graph.edge? importer exporter symbol with
  | some edge => { graph with edges := graph.edges ++ [edge] }
  | none => graph

/-- The path of the file with a number. -/
def relativeOf (graph : ImportGraph) (index : Nat) : String :=
  (graph.nodes[index]?.map (·.relative)).getD ""

/-- The numbers of the files that an import of a file leads to, in ascending order. -/
def targets (graph : ImportGraph) (importer : Nat) (symbol : String) : List Nat :=
  (List.range graph.nodes.length).filter fun exporter =>
    graph.edges.contains ⟨importer, exporter, symbol⟩

end ImportGraph
end SourceAtlas
