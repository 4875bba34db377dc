import Mathlib.Data.List.Induction
import SourceAtlas.Declaration

/-!
# The first of the least

Two searches of the library choose among the items of a list that pass a test the one
with the least key, and the first one of several: the search for the innermost scope,
which keeps the shortest scope met so far, and every search through callables that are
sorted by position.  Both give the item that `firstLeast?` describes without folding or
sorting.
-/

namespace SourceAtlas

variable {α : Type} {key : α → Nat} {test : α → Bool} {items : List α}

/-- The first item that passes the test and whose key is least among the items that pass
it. -/
def firstLeast? (key : α → Nat) (test : α → Bool) (items : List α) : Option α :=
  items.find? fun item =>
    test item && items.all fun other => !test other || decide (key item ≤ key other)

theorem mem_and_test_of_firstLeast? {chosen : α}
    (found : firstLeast? key test items = some chosen) :
    chosen ∈ items ∧ test chosen = true := by
  have accepted := List.find?_some found
  rw [Bool.and_eq_true] at accepted
  exact ⟨List.mem_of_find?_eq_some found, accepted.1⟩

/-- What an answer says about the items: all fail the test, or one passes it, is below
the earlier ones that pass and not above the later ones. -/
def Selects (key : α → Nat) (test : α → Bool) (items : List α) : Option α → Prop
  | none => ∀ item ∈ items, test item = false
  | some chosen =>
      test chosen = true ∧
        ∃ before after, items = before ++ chosen :: after ∧
          (∀ other ∈ before, test other = true → key chosen < key other) ∧
          ∀ other ∈ after, test other = true → key chosen ≤ key other

theorem Selects.le_key {chosen : α} (selects : Selects key test items (some chosen))
    {other : α} (member : other ∈ items) (tested : test other = true) :
    key chosen ≤ key other := by
  obtain ⟨-, before, after, rfl, above, notBelow⟩ := selects
  rcases List.mem_append.mp member with earlier | later
  · exact Nat.le_of_lt (above other earlier tested)
  · rcases List.mem_cons.mp later with rfl | later
    · exact Nat.le_refl _
    · exact notBelow other later tested

theorem firstLeast?_eq_of_selects {answer : Option α}
    (selects : Selects key test items answer) : firstLeast? key test items = answer := by
  cases answer with
  | none =>
      rw [firstLeast?, List.find?_eq_none]
      intro item member
      simp [selects item member]
  | some chosen =>
      have least := @selects.le_key
      obtain ⟨passes, before, after, rfl, above, -⟩ := selects
      rw [firstLeast?, List.find?_append]
      have earlierFail : before.find? (fun item => test item &&
          (before ++ chosen :: after).all fun other =>
            !test other || decide (key item ≤ key other)) = none := by
        rw [List.find?_eq_none]
        intro other member accepted
        simp only [Bool.and_eq_true, List.all_eq_true] at accepted
        have notAbove : key other ≤ key chosen := by
          simpa [passes] using accepted.2 chosen (by simp)
        exact absurd (above other member accepted.1) (by omega)
      have chosenLeast : (before ++ chosen :: after).all (fun other =>
          !test other || decide (key chosen ≤ key other)) = true := by
        rw [List.all_eq_true]
        intro other member
        cases tested : test other with
        | false => rfl
        | true => simpa using least member tested
      rw [earlierFail, Option.none_or, List.find?_cons_of_pos]
      rw [passes, Bool.true_and]
      exact chosenLeast

/-- Keeps the best item so far unless the next one has a lesser key. -/
def keepLeast (key : α → Nat) (best : Option α) (item : α) : Option α :=
  match best with
  | none => some item
  | some least => if key item < key least then some item else some least

theorem Selects.concat_of_fails {best : Option α} (selects : Selects key test items best)
    {last : α} (fails : test last = false) : Selects key test (items ++ [last]) best := by
  cases best with
  | none =>
      intro item member
      rcases List.mem_append.mp member with earlier | single
      · exact selects item earlier
      · rwa [List.mem_singleton.mp single]
  | some chosen =>
      obtain ⟨passes, before, after, rfl, above, notBelow⟩ := selects
      refine ⟨passes, before, after ++ [last], by simp, above, ?_⟩
      intro other member tested
      rcases List.mem_append.mp member with later | single
      · exact notBelow other later tested
      · rw [List.mem_singleton.mp single, fails] at tested
        exact absurd tested (by simp)

theorem Selects.concat_of_passes {best : Option α} (selects : Selects key test items best)
    {last : α} (passes : test last = true) :
    Selects key test (items ++ [last]) (keepLeast key best last) := by
  cases best with
  | none =>
      refine ⟨passes, items, [], rfl, ?_, by simp⟩
      intro other member tested
      rw [selects other member] at tested
      exact absurd tested (by simp)
  | some chosen =>
      have least := @selects.le_key
      obtain ⟨chosenPasses, before, after, rfl, above, notBelow⟩ := selects
      by_cases less : key last < key chosen
      · rw [keepLeast, if_pos less]
        refine ⟨passes, before ++ chosen :: after, [], by simp, ?_, by simp⟩
        intro other member tested
        exact Nat.lt_of_lt_of_le less (least member tested)
      · rw [keepLeast, if_neg less]
        refine ⟨chosenPasses, before, after ++ [last], by simp, above, ?_⟩
        intro other member tested
        rcases List.mem_append.mp member with later | single
        · exact notBelow other later tested
        · rw [List.mem_singleton.mp single]
          exact Nat.le_of_not_lt less

theorem selects_foldl_keepLeast (key : α → Nat) (test : α → Bool) (items : List α) :
    Selects key test items ((items.filter test).foldl (keepLeast key) none) := by
  -- The fold runs from the left, so the induction takes the last item off.
  induction items using List.reverseRecOn with
  | nil => simp [Selects]
  | append_singleton items last ih =>
      rw [List.filter_append, List.foldl_append]
      cases tested : test last with
      | false => simpa [tested] using ih.concat_of_fails tested
      | true => simpa [tested] using ih.concat_of_passes tested

/-- Sorting by a key is stable: items of one key stay in their order. -/
theorem filter_key_mergeSort (key : α → Nat) (items : List α) (value : Nat) :
    (items.mergeSort fun first second => key first ≤ key second).filter
        (key · == value) =
      items.filter (key · == value) := by
  let notAbove : α → α → Bool := fun first second => key first ≤ key second
  have trans : ∀ first second third, notAbove first second → notAbove second third →
      notAbove first third := by
    simp only [notAbove, decide_eq_true_eq]
    omega
  have total : ∀ first second, notAbove first second || notAbove second first := by
    simp only [notAbove, Bool.or_eq_true, decide_eq_true_eq]
    omega
  have level : (items.filter (key · == value)).Pairwise (notAbove · ·) := by
    rw [List.pairwise_iff_forall_sublist]
    intro first second pair
    have firstKey : key first = value := by
      simpa using (List.mem_filter.mp (pair.subset (by simp : first ∈ [first, second]))).2
    have secondKey : key second = value := by
      simpa using (List.mem_filter.mp (pair.subset (by simp : second ∈ [first, second]))).2
    simp [notAbove, firstKey, secondKey]
  have kept := (List.sublist_mergeSort trans total level List.filter_sublist).filter
    (key · == value)
  rw [List.filter_filter] at kept
  simp only [Bool.and_self] at kept
  refine (kept.eq_of_length ?_).symm
  exact ((List.mergeSort_perm items notAbove).filter _).length_eq.symm

theorem pairwise_key_mergeSort (key : α → Nat) (items : List α) :
    (items.mergeSort fun first second => key first ≤ key second).Pairwise
      fun first second => key first ≤ key second := by
  have sorted : (items.mergeSort fun first second => key first ≤ key second).Pairwise
      fun first second => decide (key first ≤ key second) = true :=
    List.pairwise_mergeSort (by simp only [decide_eq_true_eq]; omega)
      (by simp only [Bool.or_eq_true, decide_eq_true_eq]; omega) items
  simpa using sorted

theorem selects_find?_mergeSort (key : α → Nat) (test : α → Bool) (items : List α) :
    Selects key test items
      ((items.mergeSort fun first second => key first ≤ key second).find? test) := by
  have sorted := pairwise_key_mergeSort key items
  have stable := filter_key_mergeSort key items
  have members (item : α) :
      item ∈ items.mergeSort (fun first second => key first ≤ key second) ↔ item ∈ items :=
    List.mem_mergeSort
  generalize items.mergeSort (fun first second => key first ≤ key second) = ordered at *
  cases found : ordered.find? test with
  | none =>
      intro item member
      simpa using List.find?_eq_none.mp found item ((members item).mpr member)
  | some chosen =>
      obtain ⟨passes, lower, upper, rfl, lowerFail⟩ := List.find?_eq_some_iff_append.mp found
      have least : ∀ other ∈ items, test other = true → key chosen ≤ key other := by
        intro other member tested
        rcases List.mem_append.mp ((members other).mpr member) with low | high
        · exact absurd tested (by simpa using lowerFail other low)
        · rcases List.mem_cons.mp high with rfl | high
          · exact Nat.le_refl _
          · exact (List.pairwise_cons.mp (List.pairwise_append.mp sorted).2.1).1 other high
      -- Among the items with the key of the chosen one, sorting has changed nothing.
      have level := (stable (key chosen)).symm
      rw [List.filter_append, List.filter_eq_append_iff] at level
      obtain ⟨front, back, rfl, frontLevel, backLevel⟩ := level
      rw [List.filter_cons_of_pos (by simp), List.filter_eq_cons_iff] at backLevel
      obtain ⟨skipped, after, rfl, skippedLevel, -, -⟩ := backLevel
      refine ⟨passes, front ++ skipped, after, by simp, ?_, ?_⟩
      · intro other member tested
        have known : other ∈ front ++ (skipped ++ chosen :: after) := by
          rw [← List.append_assoc]
          exact List.mem_append_left _ member
        refine Nat.lt_of_le_of_ne (least other known tested) fun same => ?_
        rcases List.mem_append.mp member with early | late
        · have low : other ∈ lower.filter (key · == key chosen) := by
            rw [← frontLevel]
            exact List.mem_filter.mpr ⟨early, by simp [same]⟩
          simpa [tested] using lowerFail other (List.mem_filter.mp low).1
        · exact skippedLevel other late (by simp [same])
      · intro other member tested
        exact least other (by simp [member]) tested

theorem foldl_keepLeast_eq_firstLeast? (key : α → Nat) (test : α → Bool) (items : List α) :
    (items.filter test).foldl (keepLeast key) none = firstLeast? key test items :=
  (firstLeast?_eq_of_selects (selects_foldl_keepLeast key test items)).symm

theorem selects_firstLeast? (key : α → Nat) (test : α → Bool) (items : List α) :
    Selects key test items (firstLeast? key test items) := by
  rw [← foldl_keepLeast_eq_firstLeast?]
  exact selects_foldl_keepLeast key test items

/-- Choosing among images is choosing among the items themselves. -/
theorem firstLeast?_map {β : Type} (image : β → α) (items : List β) :
    firstLeast? key test (items.map image) =
      (firstLeast? (key ∘ image) (test ∘ image) items).map image := by
  rw [firstLeast?, List.find?_map, firstLeast?]
  congr 2
  funext item
  simp only [Function.comp_apply, List.all_map]
  rfl

theorem find?_mergeSort_eq_firstLeast? (key : α → Nat) (test : α → Bool) (items : List α) :
    (items.mergeSort fun first second => key first ≤ key second).find? test =
      firstLeast? key test items :=
  (firstLeast?_eq_of_selects (selects_find?_mergeSort key test items)).symm

/-- The innermost scope around a position is the first of the shortest scopes around
it. -/
theorem enclosingScope?_eq_firstLeast? (scopes : List Scope) (position : Nat) :
    enclosingScope? scopes position =
      firstLeast? (·.body.length) (·.body.contains position) scopes := by
  rw [← foldl_keepLeast_eq_firstLeast?, enclosingScope?]
  congr 1
  funext best scope
  cases best <;> rfl

/-- The first callable by position that passes a test. -/
theorem find?_callablesByPosition (declarations : List Declaration) (test : Callable → Bool) :
    (callablesByPosition declarations).find? test =
      firstLeast? (·.position) test (declarations.filterMap Declaration.callable?) :=
  find?_mergeSort_eq_firstLeast? (fun callable : Callable => callable.position) test _

end SourceAtlas
