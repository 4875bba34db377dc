import Mathlib.Data.List.Induction
import Mathlib.Data.List.Nodup
import SourceAtlas.CrossIndex

/-!
# What a file index lists

A file index is filled report by report and name by name.  If the reports are on distinct
files, it lists under a name exactly the files whose names include it, in the order of the
reports.
-/

namespace SourceAtlas

/-- The files of some reports whose names include a name, in the order of the reports. -/
def filesWith (reports : List FileReport) (names : FileReport → List String)
    (name : String) : List String :=
  (reports.filter fun report => (names report).contains name).map (·.relative)

namespace FileIndex

/-- Adds a file at the end of a list, unless it is there. -/
def addOnce (file : String) (files : List String) : List String :=
  if files.contains file then files else files ++ [file]

theorem addOnce_addOnce (file : String) (files : List String) :
    addOnce file (addOnce file files) = addOnce file files := by
  by_cases listed : file ∈ files <;> simp [addOnce, listed]

theorem lookup_addEntry (name file key : String) (entries : List (String × List String)) :
    (addEntry name file entries).lookup key =
      if key = name then some (addOnce file ((entries.lookup key).getD []))
      else entries.lookup key := by
  induction entries with
  | nil =>
      by_cases same : key = name
      · simp [addEntry, addOnce, same]
      · simp [addEntry, List.lookup_cons, beq_eq_false_iff_ne.mpr same, same]
  | cons entry entries ih =>
      obtain ⟨first, files⟩ := entry
      rw [addEntry]
      by_cases here : first = name
      · rw [if_pos here, List.lookup_cons, List.lookup_cons]
        subst here
        by_cases same : key = first
        · simp [same, addOnce]
        · simp [beq_eq_false_iff_ne.mpr same, same]
      · rw [if_neg here, List.lookup_cons, List.lookup_cons]
        by_cases same : key = first
        · simp [same, here]
        · rw [beq_eq_false_iff_ne.mpr same]
          exact ih

theorem get?_add (index : FileIndex) (file name key : String) :
    (index.add file name).get? key =
      if key = name then some (addOnce file (index.get key)) else index.get? key :=
  lookup_addEntry name file key index.entries

theorem get?_foldl_add (index : FileIndex) (file : String) (names : List String)
    (key : String) :
    (names.foldl (·.add file ·) index).get? key =
      if key ∈ names then some (addOnce file (index.get key)) else index.get? key := by
  induction names generalizing index with
  | nil => simp
  | cons name names ih =>
      rw [List.foldl_cons, ih, get, get?_add]
      by_cases here : key = name
      · by_cases later : key ∈ names
        · rw [if_pos later, if_pos here, if_pos (List.mem_cons_of_mem _ later),
            Option.getD_some, addOnce_addOnce]
        · rw [if_neg later, if_pos here, if_pos (here ▸ List.mem_cons_self)]
      · rw [if_neg here]
        simp [here, get]

theorem filesWith_concat (reports : List FileReport) (report : FileReport)
    (names : FileReport → List String) (name : String) :
    filesWith (reports ++ [report]) names name =
      filesWith reports names name ++
        if name ∈ names report then [report.relative] else [] := by
  unfold filesWith
  rw [List.filter_append, List.map_append]
  by_cases named : name ∈ names report <;> simp [named]

theorem filesWith_sublist (reports : List FileReport) (names : FileReport → List String)
    (name : String) :
    (filesWith reports names name).Sublist (reports.map (·.relative)) :=
  List.filter_sublist.map _

/-- An index of reports on distinct files knows a name if some report has it, and lists
the files of all that have it. -/
theorem get?_ofReports {reports : List FileReport} (names : FileReport → List String)
    (distinct : (reports.map (·.relative)).Nodup) (name : String) :
    (ofReports reports names).get? name =
      (some (filesWith reports names name)).filter (!·.isEmpty) := by
  induction reports using List.reverseRecOn with
  | nil => rfl
  | append_singleton reports report ih =>
      rw [List.map_append, List.nodup_append] at distinct
      have fresh : report.relative ∉ filesWith reports names name := by
        intro listed
        exact distinct.2.2 report.relative
          ((filesWith_sublist reports names name).subset listed) report.relative (by simp) rfl
      have before := ih distinct.1
      have collected : (ofReports reports names).get name = filesWith reports names name := by
        rw [get, before]
        cases filesWith reports names name <;> rfl
      have step : ofReports (reports ++ [report]) names =
          (names report).foldl (·.add report.relative ·) (ofReports reports names) := by
        simp [ofReports]
      rw [step, get?_foldl_add, filesWith_concat, collected, before]
      by_cases named : name ∈ names report
      · simp [named, addOnce, fresh, Option.filter_some]
      · simp [named]

theorem get_ofReports {reports : List FileReport} (names : FileReport → List String)
    (distinct : (reports.map (·.relative)).Nodup) (name : String) :
    (ofReports reports names).get name = filesWith reports names name := by
  rw [get, get?_ofReports names distinct]
  cases filesWith reports names name <;> rfl

end FileIndex
end SourceAtlas
