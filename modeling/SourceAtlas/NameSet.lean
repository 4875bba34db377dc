/-!
# Sets of names

A set of names is kept as the ascending list of its members, so that equal sets are equal
values and listing a set needs no sorting.  The order is that of the code points, which
is also the order of the UTF-8 bytes.
-/

namespace SourceAtlas

/-- A finite set of names, listed in ascending order without repetition. -/
structure NameSet where
  /-- The members in ascending order. -/
  names : List String
  /-- Every member is less than all that follow it. -/
  ascending : names.Pairwise (· < ·)
  deriving DecidableEq, Repr

namespace NameSet

/-- The set without members. -/
def empty : NameSet := ⟨[], List.Pairwise.nil⟩

instance : Inhabited NameSet := ⟨empty⟩

/-- Puts a name at its place in an ascending list, unless it is there already. -/
def insertSorted (name : String) : List String → List String
  | [] => [name]
  | first :: others =>
      if name < first then name :: first :: others
      else if name = first then first :: others
      else first :: insertSorted name others

theorem mem_insertSorted {name member : String} {names : List String} :
    member ∈ insertSorted name names ↔ member = name ∨ member ∈ names := by
  induction names with
  | nil => simp [insertSorted]
  | cons first others ih =>
      simp only [insertSorted]
      split
      · simp
      · split
        case isTrue same => simp [same]
        case isFalse => simp [ih, or_left_comm]

theorem insertSorted_pairwise (name : String) {names : List String}
    (ascending : names.Pairwise (· < ·)) :
    (insertSorted name names).Pairwise (· < ·) := by
  induction names with
  | nil => simp [insertSorted]
  | cons first others ih =>
      obtain ⟨least, rest⟩ := List.pairwise_cons.mp ascending
      simp only [insertSorted]
      split
      case isTrue less =>
        refine List.pairwise_cons.mpr ⟨fun member found => ?_, ascending⟩
        rcases List.mem_cons.mp found with rfl | later
        · exact less
        · exact String.lt_trans less (least member later)
      case isFalse notLess =>
        split
        · exact ascending
        case isFalse different =>
          refine List.pairwise_cons.mpr ⟨fun member found => ?_, ih rest⟩
          rcases mem_insertSorted.mp found with rfl | later
          · -- The order is total, so the name lies above the first member.
            exact String.not_le.mp fun above =>
              different (String.le_antisymm above (String.not_lt.mp notLess))
          · exact least member later

def insert (set : NameSet) (name : String) : NameSet :=
  ⟨insertSorted name set.names, insertSorted_pairwise name set.ascending⟩

def insertAll (set : NameSet) (names : List String) : NameSet :=
  names.foldl insert set

def ofList (names : List String) : NameSet :=
  empty.insertAll names

/-- The members in ascending order. -/
def toList (set : NameSet) : List String := set.names

theorem mem_insertAll {set : NameSet} {names : List String} {member : String} :
    member ∈ (set.insertAll names).toList ↔ member ∈ names ∨ member ∈ set.toList := by
  induction names generalizing set with
  | nil => simp [insertAll]
  | cons name names ih =>
      have rest := @ih (set.insert name)
      simp only [insertAll, List.foldl_cons] at rest ⊢
      rw [rest, List.mem_cons, or_assoc, or_left_comm]
      simp [toList, insert, mem_insertSorted]

theorem mem_ofList {names : List String} {member : String} :
    member ∈ (ofList names).toList ↔ member ∈ names := by
  rw [ofList, mem_insertAll]
  simp [toList, empty]

def contains (set : NameSet) (name : String) : Bool :=
  set.names.contains name

def isEmpty (set : NameSet) : Bool :=
  set.names.isEmpty

end NameSet
end SourceAtlas
