import Mathlib.Data.List.Induction
import Mathlib.Data.List.Infix
import Mathlib.Data.List.Nodup
import SourceAtlas.Proofs.ImportJoin

/-!
# Files keep their numbers

An import graph is built by steps that add a file, add an import or ask for the number of a file.
The number of a file is found by searching the nodes.  A table of the numbers that is kept beside
the graph gives the same answers in every run, and a number that was answered once stands for the
same file or import in everything that is built later.
-/

namespace SourceAtlas

/-- One step of building an import graph. -/
inductive GraphStep where
  | file (node : FileNode)
  | link (importer exporter symbol : String)
  | find (relative : String)
  deriving DecidableEq, Repr

namespace GraphStep

/-- The file that a step adds, whether it is known already or not. -/
def file? : GraphStep → Option FileNode
  | file node => some node
  | link _ _ _ | find _ => none

/-- Whether some step adds a file with the given path. -/
def Adds (steps : List GraphStep) (relative : String) : Prop :=
  ∃ node, file node ∈ steps ∧ node.relative = relative

end GraphStep

namespace ImportGraph

/-- What a step makes of a graph. -/
def after (graph : ImportGraph) : GraphStep → ImportGraph
  | .file node => graph.addFile node
  | .link importer exporter symbol => graph.addImport importer exporter symbol
  | .find _ => graph

/-- The number that a step answers with.  A new file and a new import get the next one. -/
def answer? (graph : ImportGraph) : GraphStep → Option Nat
  | .file node => some ((graph.index? node.relative).getD graph.nodes.length)
  | .link importer exporter symbol =>
      (graph.edge? importer exporter symbol).map fun _ => graph.edges.length
  | .find relative => graph.index? relative

/-- The graph that some steps make, one after another. -/
def built (steps : List GraphStep) : ImportGraph :=
  steps.foldl after {}

/-- What the number that a step answers with stands for. -/
def Numbers (graph : ImportGraph) (number : Nat) : GraphStep → Prop
  | .file node => graph.index? node.relative = some number
  | .link importer exporter symbol =>
      graph.edges[number]?.map graph.ends = some (some importer, some exporter, symbol)
  | .find relative => graph.index? relative = some number

end ImportGraph

/-- An import graph with a table of the numbers of its files beside it. -/
structure IndexedGraph where
  graph : ImportGraph := {}
  numbers : Std.HashMap String Nat := {}

namespace IndexedGraph

/-- A step that looks numbers up in the table only. -/
def perform (indexed : IndexedGraph) : GraphStep → IndexedGraph × Option Nat
  | .file node =>
      match indexed.numbers[node.relative]? with
      | some number => (indexed, some number)
      | none =>
          let number := indexed.graph.nodes.length
          ({ graph := { indexed.graph with nodes := indexed.graph.nodes ++ [node] }
             numbers := indexed.numbers.insert node.relative number }, some number)
  | .link importer exporter symbol =>
      match indexed.numbers[importer]?, indexed.numbers[exporter]? with
      | some source, some target =>
          let edges := indexed.graph.edges
          ({ indexed with
              graph := { indexed.graph with edges := edges ++ [⟨source, target, symbol⟩] } },
            some edges.length)
      | _, _ => (indexed, none)
  | .find relative => (indexed, indexed.numbers[relative]?)

def built (steps : List GraphStep) : IndexedGraph :=
  steps.foldl (fun indexed step => (indexed.perform step).1) {}

end IndexedGraph

namespace ImportGraph

variable {graph : ImportGraph}

/-! ## One step -/

theorem addFile_of_known {node : FileNode} {number : Nat}
    (known : graph.index? node.relative = some number) : graph.addFile node = graph := by
  rw [addFile, known]

theorem addFile_of_new {node : FileNode} (new : graph.index? node.relative = none) :
    graph.addFile node = { graph with nodes := graph.nodes ++ [node] } := by
  rw [addFile, new]

theorem nodes_prefix_after (graph : ImportGraph) (step : GraphStep) :
    graph.nodes <+: (graph.after step).nodes := by
  cases step with
  | file node =>
      rw [after]
      cases known : graph.index? node.relative with
      | none =>
          rw [addFile_of_new known]
          exact List.prefix_append _ _
      | some number => rw [addFile_of_known known]
  | link importer exporter symbol =>
      rw [after, addImport_eq]
  | find relative => exact List.prefix_rfl

theorem edges_prefix_after (graph : ImportGraph) (step : GraphStep) :
    graph.edges <+: (graph.after step).edges := by
  cases step with
  | file node =>
      rw [after]
      cases known : graph.index? node.relative with
      | none => rw [addFile_of_new known]
      | some number => rw [addFile_of_known known]
  | link importer exporter symbol =>
      rw [after, addImport_eq]
      exact List.prefix_append _ _
  | find relative => exact List.prefix_rfl

theorem nodup_after (distinct : (graph.nodes.map (·.relative)).Nodup) (step : GraphStep) :
    ((graph.after step).nodes.map (·.relative)).Nodup := by
  cases step with
  | file node =>
      rw [after]
      cases known : graph.index? node.relative with
      | none =>
          have fresh := distinct.concat (index?_eq_none_iff.mp known)
          rw [addFile_of_new known, List.map_append]
          rwa [List.concat_eq_append] at fresh
      | some number => rwa [addFile_of_known known]
  | link importer exporter symbol => rwa [after, addImport_eq]
  | find relative => exact distinct

/-- The first node with a path is the one that the graph has, or else the one that the step
adds. -/
theorem find?_nodes_after (step : GraphStep) (relative : String) :
    (graph.after step).nodes.find? (·.relative == relative) =
      (graph.nodes.find? (·.relative == relative)).or
        (step.file?.toList.find? (·.relative == relative)) := by
  cases step with
  | file node =>
      rw [after]
      cases known : graph.index? node.relative with
      | none =>
          rw [addFile_of_new known]
          exact List.find?_append
      | some number =>
          rw [addFile_of_known known]
          by_cases same : node.relative = relative
          · -- The graph has a node with this path already.
            subst same
            obtain ⟨first, there, path⟩ := Option.map_eq_some_iff.mp (relative_of_index? known)
            have found : (graph.nodes.find? (·.relative == node.relative)).isSome = true :=
              List.find?_isSome.mpr ⟨first, List.mem_of_getElem? there, beq_iff_eq.mpr path⟩
            rw [Option.or_of_isSome found]
          · have other : (node.relative == relative) = false := beq_eq_false_iff_ne.mpr same
            simp [GraphStep.file?, other]
  | link importer exporter symbol =>
      rw [after, addImport_eq]
      simp [GraphStep.file?]
  | find relative => simp [after, GraphStep.file?]

/-- A number that a step answers with stands for what the step is about. -/
theorem numbers_after {step : GraphStep} {number : Nat}
    (answered : graph.answer? step = some number) : (graph.after step).Numbers number step := by
  cases step with
  | file node =>
      rw [after, Numbers]
      rw [answer?, Option.some.injEq] at answered
      cases known : graph.index? node.relative with
      | none =>
          rw [known, Option.getD_none] at answered
          have nowhere : graph.nodes.findIdx? (·.relative == node.relative) = none := known
          rw [addFile_of_new known, index?, List.findIdx?_append, nowhere]
          simp [answered]
      | some first =>
          rw [known, Option.getD_some] at answered
          rw [addFile_of_known known, known, answered]
  | link importer exporter symbol =>
      obtain ⟨edge, joined, rfl⟩ := Option.map_eq_some_iff.mp answered
      have ends : graph.ends edge = (some importer, some exporter, symbol) := by
        simp only [edge?, Option.bind_eq_bind, Option.bind_eq_some_iff, Option.pure_def,
          Option.some.injEq] at joined
        obtain ⟨source, sourceEq, target, targetEq, rfl⟩ := joined
        rw [ends, relative_of_index? sourceEq, relative_of_index? targetEq]
      rw [after, addImport_eq, joined, Numbers]
      simp only [Option.toList_some, List.getElem?_concat_length, Option.map_some]
      exact congrArg some ends
  | find relative => exact answered

/-- What a number stands for stays when more is added. -/
theorem Numbers.of_prefix {later : ImportGraph} {number : Nat} {step : GraphStep}
    (numbers : graph.Numbers number step) (nodes : graph.nodes <+: later.nodes)
    (edges : graph.edges <+: later.edges) : later.Numbers number step := by
  obtain ⟨newNodes, allNodes⟩ := nodes
  obtain ⟨newEdges, allEdges⟩ := edges
  have index {relative : String} (found : graph.index? relative = some number) :
      later.index? relative = some number := by
    rw [index?] at found
    rw [index?, ← allNodes, List.findIdx?_append, found, Option.some_or]
  have path {place : Nat} {relative : String}
      (known : graph.nodes[place]?.map (·.relative) = some relative) :
      later.nodes[place]?.map (·.relative) = some relative := by
    obtain ⟨node, found, rfl⟩ := Option.map_eq_some_iff.mp known
    obtain ⟨inside, -⟩ := List.getElem?_eq_some_iff.mp found
    rw [← allNodes, List.getElem?_append_left inside, found, Option.map_some]
  cases step with
  | file node => exact index numbers
  | find relative => exact index numbers
  | link importer exporter symbol =>
      obtain ⟨edge, there, ends⟩ := Option.map_eq_some_iff.mp numbers
      obtain ⟨inside, -⟩ := List.getElem?_eq_some_iff.mp there
      simp only [ImportGraph.ends, Prod.mk.injEq] at ends
      rw [Numbers, ← allEdges, List.getElem?_append_left inside, there, Option.map_some,
        ImportGraph.ends, path ends.1, path ends.2.1, ends.2.2]

/-! ## A whole run -/

theorem built_concat (steps : List GraphStep) (step : GraphStep) :
    built (steps ++ [step]) = (built steps).after step := by
  simp [built]

theorem built_prefix (before rest : List GraphStep) :
    (built before).nodes <+: (built (before ++ rest)).nodes ∧
      (built before).edges <+: (built (before ++ rest)).edges := by
  induction rest using List.reverseRecOn with
  | nil => simp
  | append_singleton rest step ih =>
      rw [← List.append_assoc, built_concat]
      exact ⟨ih.1.trans (nodes_prefix_after _ step), ih.2.trans (edges_prefix_after _ step)⟩

theorem built_nodup (steps : List GraphStep) : ((built steps).nodes.map (·.relative)).Nodup := by
  induction steps using List.reverseRecOn with
  | nil => exact List.nodup_nil
  | append_singleton steps step ih =>
      rw [built_concat]
      exact nodup_after ih step

/-- Under every path the graph has the file that was added first. -/
theorem find?_nodes_built (steps : List GraphStep) (relative : String) :
    (built steps).nodes.find? (·.relative == relative) =
      (steps.filterMap GraphStep.file?).find? (·.relative == relative) := by
  induction steps using List.reverseRecOn with
  | nil => rfl
  | append_singleton steps step ih =>
      rw [built_concat, find?_nodes_after, ih, List.filterMap_append, List.find?_append]
      cases step <;> rfl

theorem adds_iff_exists_index? (steps : List GraphStep) (relative : String) :
    GraphStep.Adds steps relative ↔ ∃ number, (built steps).index? relative = some number := by
  have added : GraphStep.Adds steps relative ↔
      ((steps.filterMap GraphStep.file?).find? (·.relative == relative)).isSome = true := by
    rw [List.find?_isSome]
    constructor
    · rintro ⟨node, member, path⟩
      exact ⟨node, List.mem_filterMap.mpr ⟨_, member, rfl⟩, beq_iff_eq.mpr path⟩
    · rintro ⟨node, member, path⟩
      obtain ⟨step, known, made⟩ := List.mem_filterMap.mp member
      cases step with
      | file other =>
          obtain rfl := Option.some.inj made
          exact ⟨other, known, beq_iff_eq.mp path⟩
      | link | find => cases made
  rw [added, ← find?_nodes_built, List.find?_isSome, ← Option.isSome_iff_exists, index?,
    List.findIdx?_isSome, List.any_eq_true]

theorem index?_eq_none_of_not_adds {steps : List GraphStep} {relative : String}
    (never : ¬GraphStep.Adds steps relative) : (built steps).index? relative = none := by
  rw [adds_iff_exists_index?, ← Option.ne_none_iff_exists', not_not] at never
  exact never

theorem exists_edge?_of_adds {steps : List GraphStep} {importer exporter : String}
    (importing : GraphStep.Adds steps importer) (exporting : GraphStep.Adds steps exporter)
    (symbol : String) :
    ∃ source target, (built steps).index? importer = some source ∧
      (built steps).index? exporter = some target ∧
      (built steps).edge? importer exporter symbol = some ⟨source, target, symbol⟩ := by
  obtain ⟨source, importing⟩ := (adds_iff_exists_index? steps importer).mp importing
  obtain ⟨target, exporting⟩ := (adds_iff_exists_index? steps exporter).mp exporting
  refine ⟨source, target, importing, exporting, ?_⟩
  simp [edge?, importing, exporting]

/-- There is no edge exactly if one of its two files was never added. -/
theorem edge?_built_eq_none_iff {steps : List GraphStep} {importer exporter symbol : String} :
    (built steps).edge? importer exporter symbol = none ↔
      ¬GraphStep.Adds steps importer ∨ ¬GraphStep.Adds steps exporter := by
  constructor
  · intro nothing
    by_contra both
    rw [not_or, not_not, not_not] at both
    obtain ⟨source, target, -, -, joined⟩ := exists_edge?_of_adds both.1 both.2 symbol
    rw [joined] at nothing
    cases nothing
  · rintro (never | never)
    · simp [edge?, index?_eq_none_of_not_adds never]
    · simp [edge?, index?_eq_none_of_not_adds never]

end ImportGraph

namespace IndexedGraph

/-- Whether the table of an indexed graph has the numbers that its nodes have. -/
def InStep (indexed : IndexedGraph) : Prop :=
  ∀ relative : String, indexed.numbers[relative]? = indexed.graph.index? relative

/-- In step with its table, a graph is changed and answers as if its nodes were searched. -/
theorem InStep.perform {indexed : IndexedGraph} (inStep : indexed.InStep) (step : GraphStep) :
    (indexed.perform step).1.InStep ∧
      (indexed.perform step).1.graph = indexed.graph.after step ∧
      (indexed.perform step).2 = indexed.graph.answer? step := by
  cases step with
  | file node =>
      rw [IndexedGraph.perform, inStep, ImportGraph.after, ImportGraph.answer?]
      cases known : indexed.graph.index? node.relative with
      | some number =>
          rw [ImportGraph.addFile_of_known known]
          exact ⟨inStep, rfl, rfl⟩
      | none =>
          rw [ImportGraph.addFile_of_new known]
          refine ⟨fun relative => ?_, rfl, rfl⟩
          rw [Std.HashMap.getElem?_insert, inStep, ImportGraph.index?, ImportGraph.index?,
            List.findIdx?_append]
          by_cases same : node.relative = relative
          · subst same
            have nowhere : indexed.graph.nodes.findIdx? (·.relative == node.relative) = none :=
              known
            simp [nowhere]
          · have other : (node.relative == relative) = false := beq_eq_false_iff_ne.mpr same
            simp [other]
  | link importer exporter symbol =>
      rw [IndexedGraph.perform, inStep, inStep, ImportGraph.after, ImportGraph.answer?,
        ImportGraph.addImport, ImportGraph.edge?]
      cases indexed.graph.index? importer with
      | none => exact ⟨inStep, rfl, rfl⟩
      | some source =>
          cases indexed.graph.index? exporter with
          | none => exact ⟨inStep, rfl, rfl⟩
          | some target => exact ⟨inStep, rfl, rfl⟩
  | find relative => exact ⟨inStep, rfl, inStep relative⟩

theorem built_inStep (steps : List GraphStep) :
    (built steps).InStep ∧ (built steps).graph = ImportGraph.built steps := by
  induction steps using List.reverseRecOn with
  | nil => exact ⟨fun relative => Std.HashMap.getElem?_empty, rfl⟩
  | append_singleton steps step ih =>
      obtain ⟨inStep, same⟩ := ih
      have last : built (steps ++ [step]) = ((built steps).perform step).1 := by
        simp [built]
      obtain ⟨stays, graph, -⟩ := inStep.perform step
      rw [last, ImportGraph.built_concat, graph, same]
      exact ⟨stays, rfl⟩

end IndexedGraph

namespace ImportGraph

/-- In every run the nodes are distinct files with the numbers of their places, a known file keeps
its number and its first language, an import is an edge between the numbers of two added files, and
a number that was answered once stands for the same at the end.  A table of the numbers that is
kept beside the graph gives the same graph and the same answers. -/
theorem built_numbers_files (steps : List GraphStep) :
    ((built steps).nodes.map (·.relative)).Nodup ∧
    (∀ relative number, (built steps).index? relative = some number ↔
      ∃ node, (built steps).nodes[number]? = some node ∧ node.relative = relative) ∧
    (∀ node number, (built steps).index? node.relative = some number →
      (built steps).answer? (.file node) = some number ∧
        (built steps).after (.file node) = built steps ∧
        (built steps).nodes[number]? =
          (steps.filterMap GraphStep.file?).find? (·.relative == node.relative)) ∧
    (∀ node, ¬GraphStep.Adds steps node.relative →
      (built steps).answer? (.file node) = some (built steps).nodes.length ∧
        (built steps).after (.file node) =
          { built steps with nodes := (built steps).nodes ++ [node] }) ∧
    (∀ importer exporter symbol,
      ((built steps).answer? (.link importer exporter symbol) = none ∧
          (built steps).after (.link importer exporter symbol) = built steps ↔
        ¬GraphStep.Adds steps importer ∨ ¬GraphStep.Adds steps exporter) ∧
      (GraphStep.Adds steps importer → GraphStep.Adds steps exporter →
        ∃ source target, (built steps).index? importer = some source ∧
          (built steps).index? exporter = some target ∧
          (built steps).answer? (.link importer exporter symbol) =
            some (built steps).edges.length ∧
          (built steps).after (.link importer exporter symbol) =
            { built steps with
              edges := (built steps).edges ++ [⟨source, target, symbol⟩] })) ∧
    (∀ before step rest number, steps = before ++ step :: rest →
      (built before).answer? step = some number → (built steps).Numbers number step) ∧
    (IndexedGraph.built steps).graph = built steps ∧
    (∀ relative : String,
      (IndexedGraph.built steps).numbers[relative]? = (built steps).index? relative) ∧
    ∀ step, ((IndexedGraph.built steps).perform step).2 = (built steps).answer? step := by
  obtain ⟨inStep, same⟩ := IndexedGraph.built_inStep steps
  refine ⟨built_nodup steps, fun relative number => ?_, fun node number known => ?_,
    fun node never => ?_, fun importer exporter symbol => ⟨?_, fun importing exporting => ?_⟩, ?_,
    same, fun relative => same ▸ inStep relative, fun step => same ▸ (inStep.perform step).2.2⟩
  · rw [index?_eq_some_iff (built_nodup steps), Option.map_eq_some_iff]
  · refine ⟨?_, addFile_of_known known, ?_⟩
    · rw [answer?, known, Option.getD_some]
    · rw [← find?_nodes_built, List.find?_eq_bind_findIdx?_getElem?]
      rw [index?] at known
      rw [known, Option.bind_some]
  · have missing := index?_eq_none_of_not_adds never
    refine ⟨?_, addFile_of_new missing⟩
    rw [answer?, missing, Option.getD_none]
  · rw [← @edge?_built_eq_none_iff _ _ _ symbol, answer?, Option.map_eq_none_iff, after, addImport]
    constructor
    · exact And.left
    · intro nothing
      rw [nothing]
      exact ⟨rfl, rfl⟩
  · obtain ⟨source, target, importing, exporting, joined⟩ :=
      exists_edge?_of_adds importing exporting symbol
    refine ⟨source, target, importing, exporting, ?_, ?_⟩
    · rw [answer?, joined, Option.map_some]
    · rw [after, addImport, joined]
  · rintro before step rest number rfl answered
    have here := numbers_after answered
    rw [← built_concat] at here
    obtain ⟨nodes, edges⟩ := built_prefix (before ++ [step]) rest
    rw [List.append_assoc, List.singleton_append] at nodes edges
    exact here.of_prefix nodes edges

/-- A file that is added twice in different languages, between imports of which one has no
exporter. -/
def repeatedFile : List GraphStep :=
  [.file ⟨"b", .python⟩, .link "b" "a" "x", .file ⟨"a", .rust⟩, .file ⟨"b", .java⟩,
    .link "a" "b" "y"]

theorem built_numbers_repeatedFile :
    built repeatedFile = ⟨[⟨"b", .python⟩, ⟨"a", .rust⟩], [⟨1, 0, "y"⟩]⟩ ∧
      (built repeatedFile).Numbers 0 (.file ⟨"b", .java⟩) ∧
      (built repeatedFile).Numbers 0 (.link "a" "b" "y") ∧
      ∀ symbol, (built repeatedFile).answer? (.link "b" "c" symbol) = none := by
  obtain ⟨-, -, -, -, links, valid, -⟩ := built_numbers_files repeatedFile
  refine ⟨by decide +kernel, ?_, ?_, fun symbol => ?_⟩
  · exact valid [.file ⟨"b", .python⟩, .link "b" "a" "x", .file ⟨"a", .rust⟩] _ _ 0 rfl
      (by decide +kernel)
  · exact valid [.file ⟨"b", .python⟩, .link "b" "a" "x", .file ⟨"a", .rust⟩, .file ⟨"b", .java⟩]
      _ [] 0 rfl (by decide +kernel)
  · refine ((links "b" "c" symbol).1.mpr (.inr ?_)).1
    rintro ⟨node, member, path⟩
    have known : node = ⟨"b", .python⟩ ∨ node = ⟨"a", .rust⟩ ∨ node = ⟨"b", .java⟩ := by
      simpa [repeatedFile] using member
    rcases known with rfl | rfl | rfl
    all_goals exact absurd path (by decide)

end ImportGraph
end SourceAtlas
