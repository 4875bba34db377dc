import Mathlib.Algebra.GroupWithZero.Nat
import Mathlib.Data.List.Induction
import Mathlib.Data.List.Nodup
import SourceAtlas.Proofs.FirstPlaces

/-!
# Values grouped by key

A list of entries that is filled key by key holds one entry for every key, in the order in which
the keys first came up, and each entry holds the values of all additions under its key, one
addition after the other.  Nothing is lost and nothing is counted twice.
-/

namespace SourceAtlas

variable {β : Type}

/-- Adds values to the entry of a key, opening one at the end if there is none. -/
def appendUnder (key : String) (values : List β) :
    List (String × List β) → List (String × List β)
  | [] => [(key, values)]
  | (name, known) :: others =>
      if name = key then (name, known ++ values) :: others
      else (name, known) :: appendUnder key values others

/-- The values of all additions under a key. -/
def valuesUnder (key : String) (added : List (String × List β)) : List β :=
  added.flatMap fun addition => if addition.1 = key then addition.2 else []

theorem valuesUnder_append (key : String) (added further : List (String × List β)) :
    valuesUnder key (added ++ further) = valuesUnder key added ++ valuesUnder key further :=
  List.flatMap_append

theorem valuesUnder_eq_nil {key : String} {added : List (String × List β)}
    (fresh : key ∉ added.map Prod.fst) : valuesUnder key added = [] := by
  rw [valuesUnder, List.flatMap_eq_nil_iff]
  intro addition member
  rw [if_neg]
  rintro rfl
  exact fresh (List.mem_map_of_mem member)

/-- An addition changes one entry, the first of its key, or opens one at the end. -/
theorem appendUnder_cases (key : String) (values : List β) (entries : List (String × List β)) :
    (key ∉ entries.map Prod.fst ∧ appendUnder key values entries = entries ++ [(key, values)]) ∨
      ∃ front known back, entries = front ++ (key, known) :: back ∧
        appendUnder key values entries = front ++ (key, known ++ values) :: back := by
  induction entries with
  | nil => exact Or.inl ⟨List.not_mem_nil, rfl⟩
  | cons entry others ih =>
      obtain ⟨name, known⟩ := entry
      by_cases here : name = key
      · subst here
        exact Or.inr ⟨[], known, others, rfl, if_pos rfl⟩
      · rw [appendUnder, if_neg here]
        rcases ih with ⟨fresh, opened⟩ | ⟨front, earlier, back, rfl, changed⟩
        · refine Or.inl ⟨?_, by rw [opened, List.cons_append]⟩
          rw [List.map_cons, List.mem_cons, not_or]
          exact ⟨Ne.symm here, fresh⟩
        · exact Or.inr ⟨(name, known) :: front, earlier, back, rfl, by rw [changed]; rfl⟩

/-- Whether entries hold some additions grouped by key. -/
structure Groups (added entries : List (String × List β)) : Prop where
  mem_iff : ∀ key, key ∈ entries.map Prod.fst ↔ key ∈ added.map Prod.fst
  ordered : (entries.map Prod.fst).Pairwise fun first second =>
    (added.map Prod.fst).idxOf first < (added.map Prod.fst).idxOf second
  values : ∀ entry ∈ entries, entry.2 = valuesUnder entry.1 added

namespace Groups

variable {added entries : List (String × List β)}

theorem nodup (groups : Groups added entries) : (entries.map Prod.fst).Nodup :=
  groups.ordered.imp fun before same => absurd before (by rw [same]; exact Nat.lt_irrefl _)

theorem listsFirsts (groups : Groups added entries) :
    ListsFirsts (entries.map Prod.fst) (added.map Prod.fst) :=
  ⟨groups.nodup, groups.mem_iff, groups.ordered⟩

theorem values_of_ne (groups : Groups added entries) {key : String} (values : List β)
    {entry : String × List β} (member : entry ∈ entries) (differs : entry.1 ≠ key) :
    entry.2 = valuesUnder entry.1 (added ++ [(key, values)]) := by
  rw [valuesUnder_append, groups.values entry member]
  simp [valuesUnder, Ne.symm differs]

theorem names_concat (key : String) (values : List β) :
    (added ++ [(key, values)]).map Prod.fst = added.map Prod.fst ++ [key] :=
  List.map_append

theorem valuesUnder_concat (key : String) (values : List β) :
    valuesUnder key (added ++ [(key, values)]) = valuesUnder key added ++ values := by
  rw [valuesUnder_append]
  simp [valuesUnder]

/-- A key that was not there gets an entry at the end. -/
theorem open_entry (groups : Groups added entries) {key : String}
    (fresh : key ∉ entries.map Prod.fst) (values : List β) :
    Groups (added ++ [(key, values)]) (entries ++ [(key, values)]) := by
  have unseen : key ∉ added.map Prod.fst := mt (groups.mem_iff key).mpr fresh
  have firsts := groups.listsFirsts.concat fresh
  rw [← names_concat key values, ← names_concat key values] at firsts
  refine ⟨firsts.mem_iff, firsts.ordered, fun entry member => ?_⟩
  rcases List.mem_append.mp member with old | new
  · apply groups.values_of_ne values old
    rintro rfl
    exact fresh (List.mem_map_of_mem old)
  · obtain rfl := List.mem_singleton.mp new
    rw [valuesUnder_concat, valuesUnder_eq_nil unseen, List.nil_append]

/-- A key that was there keeps the place of its entry. -/
theorem extend_entry {front back : List (String × List β)} {key : String} {known : List β}
    (groups : Groups added (front ++ (key, known) :: back)) (values : List β) :
    Groups (added ++ [(key, values)]) (front ++ (key, known ++ values) :: back) := by
  have unchanged : (front ++ (key, known ++ values) :: back).map Prod.fst =
      (front ++ (key, known) :: back).map Prod.fst := by
    simp
  have distinct := groups.nodup
  rw [List.map_append, List.map_cons, List.nodup_middle, List.nodup_cons,
    ← List.map_append] at distinct
  have present : key ∈ (front ++ (key, known) :: back).map Prod.fst := by simp
  have firsts := groups.listsFirsts.again present
  rw [← unchanged, ← names_concat key values] at firsts
  refine ⟨firsts.mem_iff, firsts.ordered, fun entry member => ?_⟩
  rw [List.mem_append, List.mem_cons, or_left_comm, ← List.mem_append] at member
  rcases member with rfl | old
  · rw [valuesUnder_concat, ← groups.values (key, known) (by simp)]
  · apply groups.values_of_ne values
    · rw [List.mem_append, List.mem_cons, or_left_comm, ← List.mem_append]
      exact Or.inr old
    · rintro rfl
      have listed : entry.1 ∈ (front ++ back).map Prod.fst := List.mem_map_of_mem old
      exact distinct.1 listed

/-- One more addition keeps the entries grouped. -/
theorem append (groups : Groups added entries) (key : String) (values : List β) :
    Groups (added ++ [(key, values)]) (appendUnder key values entries) := by
  rcases appendUnder_cases key values entries with
    ⟨fresh, opened⟩ | ⟨front, known, back, rfl, changed⟩
  · rw [opened]
    exact groups.open_entry fresh values
  · rw [changed]
    exact groups.extend_entry values

end Groups

theorem groups_foldl (added : List (String × List β)) :
    Groups added
      (added.foldl (fun entries addition => appendUnder addition.1 addition.2 entries) []) := by
  induction added using List.reverseRecOn with
  | nil => exact ⟨fun _ => Iff.rfl, List.Pairwise.nil, fun _ member => absurd member (by simp)⟩
  | append_singleton added addition ih =>
      rw [List.foldl_append]
      exact ih.append addition.1 addition.2

/-- How many values some entries hold. -/
def valueCount (entries : List (String × List β)) : Nat :=
  (entries.map fun entry => entry.2.length).sum

theorem valueCount_appendUnder (key : String) (values : List β)
    (entries : List (String × List β)) :
    valueCount (appendUnder key values entries) = valueCount entries + values.length := by
  rcases appendUnder_cases key values entries with
    ⟨-, opened⟩ | ⟨front, known, back, rfl, changed⟩
  · simp [opened, valueCount]
  · simp only [changed, valueCount, List.map_append, List.map_cons, List.sum_append, List.sum_cons,
      List.length_append]
    omega

theorem valueCount_foldl (added : List (String × List β)) :
    valueCount
        (added.foldl (fun entries addition => appendUnder addition.1 addition.2 entries) []) =
      valueCount added := by
  induction added using List.reverseRecOn with
  | nil => rfl
  | append_singleton added addition ih =>
      rw [List.foldl_append, List.foldl_cons, List.foldl_nil, valueCount_appendUnder, ih]
      simp [valueCount]

/-- Entries without values do not count. -/
theorem valueCount_filter (entries : List (String × List β)) :
    valueCount (entries.filter (!·.2.isEmpty)) = valueCount entries := by
  induction entries with
  | nil => rfl
  | cons entry others ih =>
      obtain ⟨name, values⟩ := entry
      cases values with
      | nil => simpa [valueCount] using ih
      | cons value values => simpa [valueCount] using ih

end SourceAtlas
