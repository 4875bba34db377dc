import Mathlib.Data.List.Induction
import SourceAtlas.Proofs.GroupedEntries
import SourceAtlas.Report.Relations

/-!
# Merging the calls of several files

The call graph goes over the relations of all files once and files the uses under the symbol that
makes them.  Read back by symbol it gives the uses that the files record for it, file by file, and
read as a whole it has as many calls as there are uses recorded anywhere.
-/

namespace SourceAtlas

/-- What a use is a use of; the other relations use nothing. -/
def Relation.used? : Relation → Option String
  | .uses target => some target
  | .inheritsFrom _ | .hasMethod _ => none

theorem Relation.used?_eq_some_iff {relation : Relation} {target : String} :
    relation.used? = some target ↔ relation = .uses target := by
  cases relation <;> simp [used?]

namespace FileReport

/-- The relations that a report has for each symbol. -/
def recorded (report : FileReport) : List (String × List Relation) :=
  match report.analysis with
  | none => []
  | some analysis => analysis.relations.entries

/-- The relations that a report has for one symbol. -/
def relationsOf (report : FileReport) (source : String) : List Relation :=
  valuesUnder source report.recorded

/-- What a report says that a symbol uses. -/
def callsOf (report : FileReport) (caller : String) : List Call :=
  (report.relationsOf caller).filterMap fun relation =>
    relation.used?.map fun target => ⟨target, report.relative⟩

/-- The number of uses in a report. -/
def useCount (report : FileReport) : Nat :=
  (report.recorded.flatMap Prod.snd).countP (·.used?.isSome)

end FileReport

/-- The symbols that have relations, as often as they come up in the reports. -/
def relationSources (reports : List FileReport) : List String :=
  reports.flatMap fun report => report.recorded.map Prod.fst

namespace CallGraph

theorem addToSlot_eq_appendUnder (caller : String) (calls : List Call)
    (slots : List (String × List Call)) :
    addToSlot caller calls slots = appendUnder caller calls slots := by
  induction slots with
  | nil => rfl
  | cons slot others ih => rw [addToSlot, appendUnder, ih]

theorem callsIn_eq_filterMap (file : String) (relations : List Relation) :
    callsIn file relations =
      relations.filterMap fun relation => relation.used?.map fun target => ⟨target, file⟩ := by
  apply List.filterMap_congr
  intro relation _
  cases relation <;> rfl

/-- What a report adds to a call graph. -/
def additions (report : FileReport) : List (String × List Call) :=
  report.recorded.map fun entry => (entry.1, callsIn report.relative entry.2)

theorem addReport_slots (graph : CallGraph) (report : FileReport) :
    (graph.addReport report).slots =
      (additions report).foldl (fun slots addition => appendUnder addition.1 addition.2 slots)
        graph.slots := by
  rw [addReport, additions, FileReport.recorded]
  cases report.analysis with
  | none => rfl
  | some analysis =>
      dsimp only
      induction analysis.relations.entries generalizing graph with
      | nil => rfl
      | cons entry entries ih =>
          rw [List.foldl_cons, ih, List.map_cons, List.foldl_cons, add,
            addToSlot_eq_appendUnder]

theorem merge_slots (reports : List FileReport) :
    (merge reports).slots =
      (reports.flatMap additions).foldl
        (fun slots addition => appendUnder addition.1 addition.2 slots) [] := by
  induction reports using List.reverseRecOn with
  | nil => rfl
  | append_singleton reports report ih =>
      rw [List.flatMap_append, List.foldl_append, ← ih, List.flatMap_singleton,
        ← addReport_slots, merge, List.foldl_append]
      rfl

theorem additions_names (reports : List FileReport) :
    (reports.flatMap additions).map Prod.fst = relationSources reports := by
  rw [List.map_flatMap, relationSources]
  apply List.flatMap_congr
  intro report _
  rw [additions, List.map_map]
  rfl

theorem valuesUnder_additions (reports : List FileReport) (caller : String) :
    valuesUnder caller (reports.flatMap additions) = reports.flatMap (·.callsOf caller) := by
  rw [valuesUnder, List.flatMap_assoc]
  apply List.flatMap_congr
  intro report _
  rw [additions, List.flatMap_map, FileReport.callsOf, FileReport.relationsOf, valuesUnder,
    List.filterMap_flatMap]
  apply List.flatMap_congr
  intro entry _
  rw [callsIn_eq_filterMap]
  split <;> rfl

theorem valueCount_additions (report : FileReport) :
    valueCount (additions report) = report.useCount := by
  rw [valueCount, additions, FileReport.useCount, List.countP_flatMap, List.map_map]
  congr 1
  apply List.map_congr_left
  intro entry _
  rw [Function.comp_apply, Function.comp_apply, callsIn_eq_filterMap,
    List.length_filterMap_eq_countP]
  simp

theorem valueCount_flatMap_additions (reports : List FileReport) :
    valueCount (reports.flatMap additions) = (reports.map (·.useCount)).sum := by
  induction reports with
  | nil => rfl
  | cons report reports ih =>
      rw [List.flatMap_cons, valueCount, List.map_append, List.sum_append, List.map_cons,
        List.sum_cons, ← ih, ← valueCount_additions]
      rfl

theorem valueCount_callers (reports : List FileReport) :
    valueCount (merge reports).callers = (reports.map (·.useCount)).sum := by
  rw [callers, valueCount_filter, merge_slots, valueCount_foldl, valueCount_flatMap_additions]

theorem merge_groups (reports : List FileReport) :
    Groups (reports.flatMap additions) (merge reports).slots := by
  rw [merge_slots]
  exact groups_foldl _

theorem calls_of_mem_slots {reports : List FileReport} {slot : String × List Call}
    (member : slot ∈ (merge reports).slots) :
    slot.2 = reports.flatMap (·.callsOf slot.1) := by
  rw [(merge_groups reports).values slot member, valuesUnder_additions]

theorem callsOf_ne_nil_iff {report : FileReport} {caller : String} :
    report.callsOf caller ≠ [] ↔ ∃ target, .uses target ∈ report.relationsOf caller := by
  rw [FileReport.callsOf]
  constructor
  · intro filled
    obtain ⟨call, member⟩ := List.exists_mem_of_ne_nil _ filled
    obtain ⟨relation, known, found⟩ := List.mem_filterMap.mp member
    obtain ⟨target, used, -⟩ := Option.map_eq_some_iff.mp found
    exact ⟨target, Relation.used?_eq_some_iff.mp used ▸ known⟩
  · rintro ⟨target, known⟩
    exact List.ne_nil_of_mem (List.mem_filterMap.mpr ⟨_, known, rfl⟩)

/-- A symbol without calls of its own in any report has a slot at most, and is no caller. -/
theorem mem_callers_iff {reports : List FileReport} {caller : String} :
    caller ∈ (merge reports).callers.map Prod.fst ↔
      ∃ report ∈ reports, ∃ target, .uses target ∈ report.relationsOf caller := by
  simp only [← callsOf_ne_nil_iff]
  constructor
  · intro member
    obtain ⟨slot, kept, rfl⟩ := List.mem_map.mp member
    obtain ⟨known, filled⟩ := List.mem_filter.mp kept
    rw [calls_of_mem_slots known] at filled
    simpa using filled
  · rintro ⟨report, known, filled⟩
    have listed : caller ∈ (merge reports).slots.map Prod.fst := by
      rw [(merge_groups reports).mem_iff]
      by_contra absent
      have nothing := valuesUnder_eq_nil absent
      rw [valuesUnder_additions, List.flatMap_eq_nil_iff] at nothing
      exact filled (nothing report known)
    obtain ⟨slot, member, rfl⟩ := List.mem_map.mp listed
    refine List.mem_map_of_mem (List.mem_filter.mpr ⟨member, ?_⟩)
    rw [calls_of_mem_slots member]
    simpa using ⟨report, known, filled⟩

end CallGraph

namespace RelationReport

/-- Whether a line of the report shows a call. -/
def isCallLine (line : String) : Bool :=
  ("  " ++ itemMark ++ "calls ").toList.isPrefixOf line.toList

theorem countP_callerLines (index : CrossIndex) (entry : String × List Call) :
    (callerLines index entry).countP isCallLine = entry.2.length := by
  have header : isCallLine ("\n" ++ entry.1 ++ " (in " ++ callerLocation index entry.1 ++ ")") =
      false := by
    simp [isCallLine, itemMark, List.isPrefixOf]
  have shown (call : Call) : isCallLine
      ("  " ++ itemMark ++ "calls " ++ call.callee ++ " (in " ++ call.file ++ ")") = true := by
    rw [isCallLine, List.isPrefixOf_iff_prefix]
    simp only [String.toList_append, List.append_assoc, List.prefix_append_right_inj,
      List.prefix_append]
  rw [callerLines, List.countP_cons_of_neg (by rw [header]; decide), List.countP_map,
    List.countP_eq_length]
  intro call _
  exact shown call

theorem countP_callLines (index : CrossIndex) (reports : List FileReport) :
    (callLines index reports).countP isCallLine = valueCount (CallGraph.merge reports).callers := by
  have heading : isCallLine "\n\nFunction Call Graph:" = false := by decide +kernel
  rw [callLines, List.countP_cons_of_neg (by rw [heading]; decide), List.countP_flatMap]
  congr 1
  apply List.map_congr_left
  intro entry _
  exact countP_callerLines index entry

end RelationReport

namespace CallGraph

/-- The merged call graph lists the symbols for which some file records a use, each once, in the
order in which the symbols first have a relation of any kind.  The calls of a symbol are the uses
that the files record for it, file by file and in their order, each with its file.  So there are
as many calls, and as many lines that show one, as there are uses in the reports. -/
theorem merge_keeps_uses (reports : List FileReport) :
    let callers := (merge reports).callers
    (∀ caller, caller ∈ callers.map Prod.fst ↔
        ∃ report ∈ reports, ∃ target, .uses target ∈ report.relationsOf caller) ∧
      (callers.map Prod.fst).Pairwise (fun first second =>
        (relationSources reports).idxOf first < (relationSources reports).idxOf second) ∧
      (∀ entry ∈ callers, entry.2 = reports.flatMap (·.callsOf entry.1)) ∧
      (callers.map (·.2.length)).sum = (reports.map (·.useCount)).sum ∧
      ∀ index, (RelationReport.callLines index reports).countP RelationReport.isCallLine =
        (reports.map (·.useCount)).sum := by
  refine ⟨fun caller => mem_callers_iff, ?_, ?_, valueCount_callers reports, fun index => ?_⟩
  · have ordered := (merge_groups reports).ordered
    rw [additions_names] at ordered
    exact ordered.sublist (List.filter_sublist.map _)
  · intro entry member
    exact calls_of_mem_slots (List.mem_filter.mp member).1
  · rw [RelationReport.countP_callLines, valueCount_callers]

/-- Reports that share symbols and even a path, one of them without an analysis. -/
def overlappingReports : List FileReport :=
  [⟨"a.py", .python, {}, some
      { relations := ⟨[("A", [.hasMethod "run"]), ("main", [.uses "helper", .uses "A"])]⟩ }⟩,
    ⟨"b.py", .python, {}, none⟩,
    ⟨"a.py", .python, {}, some
      { relations := ⟨[("helper", [.uses "main"]), ("A", [.uses "helper"]),
        ("main", [.inheritsFrom "Base", .uses "helper"])]⟩ }⟩]

theorem merge_overlappingReports :
    (merge overlappingReports).callers.map Prod.fst = ["A", "main", "helper"] ∧
      ("main", [⟨"helper", "a.py"⟩, ⟨"A", "a.py"⟩, ⟨"helper", "a.py"⟩]) ∈
        (merge overlappingReports).callers ∧
      [⟨"helper", "a.py"⟩, ⟨"A", "a.py"⟩, ⟨"helper", "a.py"⟩] =
        overlappingReports.flatMap (·.callsOf "main") ∧
      (RelationReport.callLines (CrossIndex.build overlappingReports) overlappingReports).countP
        RelationReport.isCallLine = 5 := by
  obtain ⟨-, -, calls, -, shown⟩ := merge_keeps_uses overlappingReports
  have listed : ("main", [⟨"helper", "a.py"⟩, ⟨"A", "a.py"⟩, ⟨"helper", "a.py"⟩]) ∈
      (merge overlappingReports).callers := by
    decide +kernel
  exact ⟨by decide +kernel, listed, calls _ listed, (shown _).trans (by decide +kernel)⟩

end CallGraph
end SourceAtlas
