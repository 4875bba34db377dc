import Mathlib.Data.List.Nodup

/-!
# Names in the order of their first occurrence

A container that is filled step by step and lists every name once, where it came up first, may
keep a table of the places of the names beside the list.  This file says what such a list and such
a table have to do with the names that came up, and that one more name keeps both in order.
-/

namespace SourceAtlas

/-- Whether a list has exactly the names of a history, each once and in the order in which they
came up first. -/
structure ListsFirsts (listed history : List String) : Prop where
  distinct : listed.Nodup
  mem_iff : ∀ name, name ∈ listed ↔ name ∈ history
  ordered : listed.Pairwise fun first second => history.idxOf first < history.idxOf second

namespace ListsFirsts

variable {listed history : List String}

theorem nil : ListsFirsts [] [] :=
  ⟨List.nodup_nil, fun _ => Iff.rfl, List.Pairwise.nil⟩

theorem ordered_append (firsts : ListsFirsts listed history) (later : List String) :
    listed.Pairwise fun first second =>
      (history ++ later).idxOf first < (history ++ later).idxOf second := by
  refine firsts.ordered.imp_of_mem ?_
  intro first second firstListed secondListed before
  rwa [List.idxOf_append_of_mem ((firsts.mem_iff first).mp firstListed),
    List.idxOf_append_of_mem ((firsts.mem_iff second).mp secondListed)]

/-- A name that is listed may come up again. -/
theorem again (firsts : ListsFirsts listed history) {name : String} (known : name ∈ listed) :
    ListsFirsts listed (history ++ [name]) := by
  refine ⟨firsts.distinct, fun other => ?_, firsts.ordered_append [name]⟩
  rw [List.mem_append, List.mem_singleton, firsts.mem_iff]
  constructor
  · exact Or.inl
  · rintro (old | rfl)
    · exact old
    · exact (firsts.mem_iff _).mp known

/-- A name that comes up for the first time is listed at the end. -/
theorem concat (firsts : ListsFirsts listed history) {name : String} (new : name ∉ listed) :
    ListsFirsts (listed ++ [name]) (history ++ [name]) := by
  have unheard : name ∉ history := fun heard => new ((firsts.mem_iff name).mpr heard)
  have last : (history ++ [name]).idxOf name = history.length := by
    rw [List.idxOf_append_of_notMem unheard]
    simp
  refine ⟨?_, fun other => ?_, List.pairwise_append.mpr
    ⟨firsts.ordered_append [name], List.pairwise_singleton _ _, ?_⟩⟩
  · rw [← List.concat_eq_append]
    exact firsts.distinct.concat new
  · rw [List.mem_append, List.mem_append, firsts.mem_iff]
  · intro other known newest single
    obtain rfl := List.mem_singleton.mp single
    have heard := (firsts.mem_iff other).mp known
    rw [last, List.idxOf_append_of_mem heard]
    exact List.idxOf_lt_length_of_mem heard

end ListsFirsts

/-- Whether a table gives exactly the names of a list, and gives them their places in it. -/
def Locates (places : Std.HashMap String Nat) (names : List String) : Prop :=
  ∀ (name : String) (place : Nat), places[name]? = some place ↔ names[place]? = some name

namespace Locates

variable {places : Std.HashMap String Nat} {names : List String}

theorem empty : Locates {} [] := by
  intro name place
  simp

theorem distinct (located : Locates places names) : names.Nodup := by
  rw [List.nodup_iff_getElem?_ne_getElem?]
  intro first second before inside same
  obtain ⟨name, here⟩ : ∃ name, names[second]? = some name :=
    ⟨_, List.getElem?_eq_getElem inside⟩
  have there := (located name second).mpr here
  rw [(located name first).mpr (same.trans here), Option.some.injEq] at there
  omega

theorem getElem?_eq_none_iff (located : Locates places names) {name : String} :
    places[name]? = none ↔ name ∉ names := by
  rw [Option.eq_none_iff_forall_ne_some, List.mem_iff_getElem?, not_exists]
  exact forall_congr' fun place => not_congr (located name place)

theorem contains_iff (located : Locates places names) {name : String} :
    places.contains name = true ↔ name ∈ names := by
  rw [Std.HashMap.contains_eq_isSome_getElem?, ← Option.ne_none_iff_isSome, Ne,
    located.getElem?_eq_none_iff, not_not]

/-- A new name gets the place behind the others. -/
theorem insert (located : Locates places names) {name : String} (new : name ∉ names) :
    Locates (places.insert name names.length) (names ++ [name]) := by
  intro other place
  rw [Std.HashMap.getElem?_insert]
  by_cases same : name = other
  · subst same
    rw [beq_self_eq_true, if_pos rfl, Option.some.injEq]
    constructor
    · rintro rfl
      exact List.getElem?_concat_length
    · intro there
      by_contra elsewhere
      have old : names[place]? = some name := by
        rcases Nat.lt_or_gt_of_ne elsewhere with behind | before
        · rw [List.getElem?_eq_none (by simpa using Nat.succ_le_of_lt behind)] at there
          cases there
        · rwa [List.getElem?_append_left before] at there
      exact new (List.mem_of_getElem? old)
  · rw [beq_eq_false_iff_ne.mpr same, if_neg Bool.false_ne_true, located]
    constructor
    · intro there
      obtain ⟨inside, -⟩ := List.getElem?_eq_some_iff.mp there
      rwa [List.getElem?_append_left inside]
    · intro there
      rcases Nat.lt_or_ge place names.length with inside | outside
      · rwa [List.getElem?_append_left inside] at there
      · rw [List.getElem?_append_right outside] at there
        exact absurd (List.mem_singleton.mp (List.mem_of_getElem? there)).symm same

end Locates
end SourceAtlas
