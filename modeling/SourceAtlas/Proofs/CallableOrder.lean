import Mathlib.Data.List.Nodup
import SourceAtlas.Proofs.FirstLeast

/-!
# The order in which callables are reported

The rules of a language report callables pattern by pattern and not by position.
Before anything is decided the callables are sorted by position, so where all
positions are different nothing is left of the order in which they were reported.
Nor does it matter how they are mixed with the other declarations, which keep
their own order.
-/

namespace SourceAtlas

section Sorting

variable {α : Type} {key : α → Nat}

theorem mem_iff_of_filter_key {first second : List α}
    (level : ∀ value, first.filter (key · == value) = second.filter (key · == value))
    (item : α) : item ∈ first ↔ item ∈ second := by
  have listed : item ∈ first.filter (key · == key item) ↔
      item ∈ second.filter (key · == key item) := by
    rw [level]
  simpa using listed

theorem key_le_of_mem_cons {first other : α} {items : List α}
    (ascends : (first :: items).Pairwise fun item next => key item ≤ key next)
    (member : other ∈ first :: items) : key first ≤ key other := by
  rcases List.mem_cons.mp member with rfl | later
  · exact Nat.le_refl _
  · exact List.rel_of_pairwise_cons ascends later

/-- A list that ascends by a key is given by its items of each key. -/
theorem eq_of_filter_key {first second : List α}
    (firstAscends : first.Pairwise fun item next => key item ≤ key next)
    (secondAscends : second.Pairwise fun item next => key item ≤ key next)
    (level : ∀ value, first.filter (key · == value) = second.filter (key · == value)) :
    first = second := by
  have members := mem_iff_of_filter_key level
  induction first generalizing second with
  | nil =>
      cases second with
      | nil => rfl
      | cons item items => exact absurd ((members item).mpr List.mem_cons_self) List.not_mem_nil
  | cons item items ih =>
      cases second with
      | nil => exact absurd ((members item).mp List.mem_cons_self) List.not_mem_nil
      | cons other others =>
          have sameKey : key item = key other := Nat.le_antisymm
            (key_le_of_mem_cons firstAscends ((members other).mpr List.mem_cons_self))
            (key_le_of_mem_cons secondAscends ((members item).mp List.mem_cons_self))
          have heads := level (key item)
          rw [List.filter_cons_of_pos (by simp),
            List.filter_cons_of_pos (by simp [sameKey])] at heads
          obtain ⟨rfl, sameLevel⟩ := List.cons.inj heads
          have tails (value : Nat) :
              items.filter (key · == value) = others.filter (key · == value) := by
            by_cases same : key item = value
            · rwa [← same]
            · have rest := level value
              rwa [List.filter_cons_of_neg (by simpa using same),
                List.filter_cons_of_neg (by simpa using same)] at rest
          rw [ih firstAscends.of_cons secondAscends.of_cons tails (mem_iff_of_filter_key tails)]

/-- Sorting sorts what is below a key and what is above it, and leaves the items of the key
between them in their order. -/
theorem mergeSort_key_eq_append (key : α → Nat) (pivot : Nat) (items : List α) :
    (items.mergeSort fun item next => key item ≤ key next) =
      ((items.filter (key · < pivot)).mergeSort fun item next => key item ≤ key next) ++
        (items.filter (key · == pivot) ++
          (items.filter (pivot < key ·)).mergeSort fun item next => key item ≤ key next) := by
  apply eq_of_filter_key (pairwise_key_mergeSort key items)
  · have below : ∀ item ∈ (items.filter (key · < pivot)).mergeSort
        (fun item next => key item ≤ key next), key item < pivot := by
      intro item listed
      simpa using (List.mem_filter.mp (List.mem_mergeSort.mp listed)).2
    have level : ∀ item ∈ items.filter (key · == pivot), key item = pivot := by
      intro item listed
      simpa using (List.mem_filter.mp listed).2
    have above : ∀ item ∈ (items.filter (pivot < key ·)).mergeSort
        (fun item next => key item ≤ key next), pivot < key item := by
      intro item listed
      simpa using (List.mem_filter.mp (List.mem_mergeSort.mp listed)).2
    have levelAscends : (items.filter (key · == pivot)).Pairwise
        fun item next => key item ≤ key next :=
      List.pairwise_of_forall_mem_list fun item listed next nextListed =>
        Nat.le_of_eq ((level item listed).trans (level next nextListed).symm)
    rw [List.pairwise_append, List.pairwise_append]
    refine ⟨pairwise_key_mergeSort key _, ⟨levelAscends, pairwise_key_mergeSort key _, ?_⟩, ?_⟩
    · intro item listed next nextListed
      have := above next nextListed
      have := level item listed
      omega
    · intro item listed next nextListed
      have := below item listed
      rcases List.mem_append.mp nextListed with levelListed | aboveListed
      · have := level next levelListed
        omega
      · have := above next aboveListed
        omega
  · intro value
    rw [filter_key_mergeSort, List.filter_append, List.filter_append, filter_key_mergeSort,
      filter_key_mergeSort, List.filter_filter, List.filter_filter, List.filter_filter]
    -- Only the part in which the value lies has items of that key.
    have all {test : α → Bool} (holds : ∀ item, key item = value → test item = true) :
        items.filter (fun item => key item == value && test item) =
          items.filter (key · == value) :=
      List.filter_congr fun item _ => by
        by_cases same : key item = value <;> simp [same, holds]
    have none {test : α → Bool} (fails : ∀ item, key item = value → test item = false) :
        items.filter (fun item => key item == value && test item) = [] :=
      List.filter_eq_nil_iff.mpr fun item _ => by
        by_cases same : key item = value <;> simp [same, fails]
    rcases Nat.lt_trichotomy value pivot with less | rfl | greater
    · rw [all (by simp; omega), none (by simp; omega), none (by simp; omega)]
      simp
    · rw [none (by simp; omega), all (by simp), none (by simp; omega)]
      simp
    · rw [none (by simp; omega), none (by simp; omega), all (by simp; omega)]
      simp

/-- Items of one key stand in the middle of a sorted list, and what is around them there does
not depend on them. -/
theorem exists_mergeSort_around (key : α → Nat) (pivot : Nat) (before after : List α) :
    ∃ lower upper : List α,
      (∀ middle : List α, (∀ item ∈ middle, key item = pivot) →
        ((before ++ (middle ++ after)).mergeSort fun item next => key item ≤ key next) =
          lower ++ (middle ++ upper)) ∧
      ∀ item, item ∈ before ∧ key item ≤ pivot ∨ item ∈ after ∧ key item < pivot →
        item ∈ lower := by
  refine ⟨((before ++ after).filter (key · < pivot)).mergeSort
      (fun item next => key item ≤ key next) ++ before.filter (key · == pivot),
    after.filter (key · == pivot) ++ ((before ++ after).filter (pivot < key ·)).mergeSort
      (fun item next => key item ≤ key next), ?_, ?_⟩
  · intro middle level
    have below : middle.filter (key · < pivot) = [] :=
      List.filter_eq_nil_iff.mpr fun item listed => by simp [level item listed]
    have all : middle.filter (key · == pivot) = middle :=
      List.filter_eq_self.mpr fun item listed => by simp [level item listed]
    have above : middle.filter (pivot < key ·) = [] :=
      List.filter_eq_nil_iff.mpr fun item listed => by simp [level item listed]
    rw [mergeSort_key_eq_append key pivot]
    simp only [List.filter_append, below, all, above, List.nil_append, List.append_assoc]
  · intro item place
    simp only [List.mem_append, List.mem_mergeSort, List.mem_filter, decide_eq_true_eq,
      beq_iff_eq]
    rcases place with ⟨member, notAbove⟩ | ⟨member, less⟩
    · rcases Nat.lt_or_eq_of_le notAbove with less | same
      · exact Or.inl ⟨Or.inl member, less⟩
      · exact Or.inr ⟨member, same⟩
    · exact Or.inl ⟨Or.inr member, less⟩

theorem mergeSort_key_eq_of_perm (key : α → Nat) {first second : List α}
    (reordered : first.Perm second) (apart : (first.map key).Nodup) :
    (first.mergeSort fun item other => key item ≤ key other) =
      second.mergeSort fun item other => key item ≤ key other := by
  refine List.Perm.eq_of_pairwise ?_ (pairwise_key_mergeSort key first)
    (pairwise_key_mergeSort key second)
    (((List.mergeSort_perm first _).trans reordered).trans (List.mergeSort_perm second _).symm)
  intro item other itemListed otherListed le ge
  have itemMember : item ∈ first := List.mem_mergeSort.mp itemListed
  have otherMember : other ∈ first := reordered.mem_iff.mpr (List.mem_mergeSort.mp otherListed)
  exact List.inj_on_of_nodup_map apart itemMember otherMember (Nat.le_antisymm le ge)

theorem mergeSort_key_of_perm (key : α → Nat) {items ordered : List α}
    (perm : ordered.Perm items) (ascending : (ordered.map key).Pairwise (· < ·)) :
    (items.mergeSort fun item other => key item ≤ key other) = ordered := by
  rw [← mergeSort_key_eq_of_perm key perm (ascending.imp Nat.ne_of_lt), List.mergeSort_of_pairwise]
  exact (List.pairwise_map.mp ascending).imp fun less => decide_eq_true (Nat.le_of_lt less)

end Sorting

theorem callablesByPosition_of_perm {declarations : List Declaration} {ordered : List Callable}
    (perm : ordered.Perm (declarations.filterMap Declaration.callable?))
    (ascending : (ordered.map Callable.position).Pairwise (· < ·)) :
    callablesByPosition declarations = ordered :=
  mergeSort_key_of_perm Callable.position perm ascending

/-- Callables that are declared in the order of their positions stay as they are. -/
theorem callablesByPosition_of_ascending {declarations : List Declaration}
    (ascending : ((declarations.filterMap Declaration.callable?).map Callable.position).Pairwise
      (· < ·)) :
    callablesByPosition declarations = declarations.filterMap Declaration.callable? :=
  callablesByPosition_of_perm (.refl _) ascending

namespace Declaration

def isCallable : Declaration → Bool
  | callable _ => true
  | _ => false

/-- A part of the declarations to which callables contribute nothing. -/
theorem filterMap_eq_of_sameRest {β : Type} {part : Declaration → Option β}
    (silent : ∀ declared, part (.callable declared) = none) {first second : List Declaration}
    (sameRest : first.filter (!·.isCallable) = second.filter (!·.isCallable)) :
    first.filterMap part = second.filterMap part := by
  have ofRest (declarations : List Declaration) :
      declarations.filterMap part =
        (declarations.filter (!·.isCallable)).filterMap part := by
    rw [List.filterMap_filter]
    congr 1
    funext declaration
    cases declaration with
    | callable declared => simp [isCallable, silent]
    | type | scope | base | symbol => rfl
  rw [ofRest first, ofRest second, sameRest]

end Declaration

section SameRest

variable {first second : List Declaration}
  (sameRest : first.filter (!·.isCallable) = second.filter (!·.isCallable))

include sameRest

theorem typeTable_eq_of_sameRest : typeTable first = typeTable second := by
  have symbols : first.filterMap Declaration.typeSymbol? =
      second.filterMap Declaration.typeSymbol? :=
    Declaration.filterMap_eq_of_sameRest (fun _ => rfl) sameRest
  rw [typeTable, typeTable, symbols]

theorem scopes_eq_of_sameRest :
    first.filterMap Declaration.scope? = second.filterMap Declaration.scope? :=
  Declaration.filterMap_eq_of_sameRest (fun _ => rfl) sameRest

theorem relationsOf_eq_of_sameRest (known : Classification) (source : Text) (symbol : Symbol) :
    known.relationsOf first source symbol = known.relationsOf second source symbol := by
  have bases : first.filterMap (Declaration.baseOf? symbol.name) =
      second.filterMap (Declaration.baseOf? symbol.name) :=
    Declaration.filterMap_eq_of_sameRest (fun _ => rfl) sameRest
  rw [Classification.relationsOf, Classification.relationsOf, bases]

variable (sameOrder : callablesByPosition first = callablesByPosition second)

include sameOrder

theorem classifyNames_eq_of_sameOrder : classifyNames first = classifyNames second := by
  have types := typeTable_eq_of_sameRest sameRest
  have owned : ownedCallables first = ownedCallables second := by
    rw [ownedCallables, ownedCallables, types, scopes_eq_of_sameRest sameRest, sameOrder]
  have bodies : first.filterMap Declaration.body? = second.filterMap Declaration.body? :=
    Declaration.filterMap_eq_of_sameRest (fun _ => rfl) sameRest
  have plain : first.filterMap Declaration.plainSymbol? =
      second.filterMap Declaration.plainSymbol? :=
    Declaration.filterMap_eq_of_sameRest (fun _ => rfl) sameRest
  rw [classifyNames, classifyNames, owned, types, bodies, plain]

/-- Of the callables only their order by position counts. -/
theorem resolve_eq_of_sameOrder (source : Text) (deadline : Deadline) :
    resolve first source deadline = resolve second source deadline := by
  have known := classifyNames_eq_of_sameOrder sameRest sameOrder
  have relations : (classifyNames second).relationsOf first source =
      (classifyNames second).relationsOf second source := by
    funext symbol
    exact relationsOf_eq_of_sameRest sameRest (classifyNames second) source symbol
  rw [resolve, resolve, known, relations]

end SameRest

/-- Callables at different positions may be reported in any order and anywhere between the
other declarations. -/
theorem resolve_ignores_report_order (first second : List Declaration) (source : Text)
    (deadline : Deadline)
    (sameRest : first.filter (!·.isCallable) = second.filter (!·.isCallable))
    (reordered : (first.filterMap Declaration.callable?).Perm
      (second.filterMap Declaration.callable?))
    (apart : ((first.filterMap Declaration.callable?).map (·.position)).Nodup) :
    resolve first source deadline = resolve second source deadline := by
  have sameOrder : callablesByPosition first = callablesByPosition second :=
    mergeSort_key_eq_of_perm (fun callable : Callable => callable.position) reordered apart
  exact resolve_eq_of_sameOrder sameRest sameOrder source deadline

/-- A class and a function that share a method name, reported kind by kind. -/
def reportedByKind : List Declaration :=
  [.type "Store" .class (some ⟨0, 20⟩), .base "Store" "Base", .symbol "limit" .variable none,
    .function "save" 30 (some ⟨0, 5⟩), .function "load" 25 (some ⟨0, 5⟩), .function "load" 26 none,
    .function "save" 10 none, .member "size" .property 5 none, .methodOf "Store" "load" 40 none]

/-- The same, reported from the end of the file. -/
def reportedBackwards : List Declaration :=
  [.methodOf "Store" "load" 40 none, .function "save" 30 (some ⟨0, 5⟩),
    .type "Store" .class (some ⟨0, 20⟩), .function "load" 26 none, .base "Store" "Base",
    .function "load" 25 (some ⟨0, 5⟩), .function "save" 10 none,
    .symbol "limit" .variable none, .member "size" .property 5 none]

theorem resolve_reportedBackwards :
    reportedByKind.filter (!·.isCallable) = reportedBackwards.filter (!·.isCallable) ∧
      (reportedByKind.filterMap Declaration.callable?).Perm
        (reportedBackwards.filterMap Declaration.callable?) ∧
      ((reportedByKind.filterMap Declaration.callable?).map (·.position)).Nodup ∧
      resolve reportedByKind "limit".toList .unbounded =
        resolve reportedBackwards "limit".toList .unbounded := by
  have sameRest : reportedByKind.filter (!·.isCallable) =
      reportedBackwards.filter (!·.isCallable) := by
    decide
  have reordered : (reportedByKind.filterMap Declaration.callable?).Perm
      (reportedBackwards.filterMap Declaration.callable?) := by
    decide
  have apart : ((reportedByKind.filterMap Declaration.callable?).map (·.position)).Nodup := by
    decide
  exact ⟨sameRest, reordered, apart, resolve_ignores_report_order reportedByKind
    reportedBackwards "limit".toList .unbounded sameRest reordered apart⟩

end SourceAtlas
