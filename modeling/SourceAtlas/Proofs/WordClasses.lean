import SourceAtlas.Text.CharClass

/-!
# Identifier characters and word characters

Identifiers and words of running text are made of two classes of characters.  Both hold the
alphabetic characters, the decimal digits and the underscore.  Of the others, an identifier may have
marks, joiners and connectors, which divide words, and a word may have number signs, which no
identifier has.  The tables of the classes are compared as ranges.
-/

namespace SourceAtlas
namespace Text

/-- Marks that are not alphabetic, joiners, and connectors other than the underscore. -/
def dividesWords (c : Char) : Bool :=
  inRanges markRanges c.toNat && !inRanges alphabeticRanges c.toNat || isJoiner c ||
    isConnector c && c != '_'

/-- Numbers that are neither decimal digits nor alphabetic. -/
def isNumberSign (c : Char) : Bool :=
  inRanges otherNumberRanges c.toNat && !inRanges alphabeticRanges c.toNat

/-! ## Tables of ranges -/

theorem exists_range_of_searchRanges {ranges : Array (Nat × Nat)} {code steps low high : Nat}
    (found : searchRanges ranges code steps low high = true) :
    ∃ range ∈ ranges.toList, range.1 ≤ code ∧ code ≤ range.2 := by
  induction steps generalizing low high with
  | zero => cases found
  | succ steps ih =>
      rw [searchRanges] at found
      split at found
      case isFalse => cases found
      case isTrue =>
        split at found
        case h_1 => cases found
        case h_2 first last middle =>
          split at found
          case isTrue => exact ih found
          case isFalse notBelow =>
            split at found
            case isTrue => exact ih found
            case isFalse notAbove =>
              have member : (first, last) ∈ ranges.toList :=
                Array.mem_toList_iff.mpr (Array.mem_of_getElem? middle)
              exact ⟨(first, last), member, Nat.le_of_not_lt notBelow, Nat.le_of_not_lt notAbove⟩

theorem exists_range_of_inRanges {ranges : Array (Nat × Nat)} {code : Nat}
    (found : inRanges ranges code = true) :
    ∃ range ∈ ranges.toList, range.1 ≤ code ∧ code ≤ range.2 :=
  exists_range_of_searchRanges found

/-- Whether no range of one table meets a range of another. -/
def areApart (first second : Array (Nat × Nat)) : Bool :=
  first.toList.all fun range => second.toList.all fun other =>
    Nat.blt range.2 other.1 || Nat.blt other.2 range.1

theorem inRanges_of_areApart {first second : Array (Nat × Nat)}
    (apart : areApart first second = true) {code : Nat} (known : inRanges first code = true) :
    inRanges second code = false := by
  rw [Bool.eq_false_iff]
  intro alsoKnown
  obtain ⟨range, member, above, below⟩ := exists_range_of_inRanges known
  obtain ⟨other, alsoMember, alsoAbove, alsoBelow⟩ := exists_range_of_inRanges alsoKnown
  have separate := List.all_eq_true.mp (List.all_eq_true.mp apart range member) other alsoMember
  rw [Bool.or_eq_true, Nat.blt_eq, Nat.blt_eq] at separate
  omega

theorem marks_areApart_digits : areApart markRanges decimalDigitRanges = true := by
  decide +kernel

theorem marks_areApart_numbers : areApart markRanges otherNumberRanges = true := by
  decide +kernel

theorem numbers_areApart_digits : areApart otherNumberRanges decimalDigitRanges = true := by
  decide +kernel

theorem inRanges_of_below {ranges : Array (Nat × Nat)} {bound : Nat}
    (above : (ranges.toList.all fun range => Nat.ble bound range.1) = true) {code : Nat}
    (below : code < bound) : inRanges ranges code = false := by
  rw [Bool.eq_false_iff]
  intro known
  obtain ⟨range, member, begins, -⟩ := exists_range_of_inRanges known
  have behind := Nat.ble_eq.mp (List.all_eq_true.mp above range member)
  omega

theorem inRanges_marks_of_ascii {code : Nat} (ascii : code < 0x80) :
    inRanges markRanges code = false :=
  inRanges_of_below (by decide +kernel) ascii

theorem inRanges_numbers_of_ascii {code : Nat} (ascii : code < 0x80) :
    inRanges otherNumberRanges code = false :=
  inRanges_of_below (by decide +kernel) ascii

/-- The joiners, and the connectors other than the underscore. -/
def joiningCodes : List Nat :=
  [0x200C, 0x200D, 0x203F, 0x2040, 0x2054, 0xFE33, 0xFE34, 0xFE4D, 0xFE4E, 0xFE4F, 0xFF3F]

theorem inRanges_of_mem_joiningCodes :
    ∀ code ∈ joiningCodes, inRanges alphabeticRanges code = false ∧
      inRanges decimalDigitRanges code = false ∧ inRanges otherNumberRanges code = false := by
  decide +kernel

/-! ## Characters of both classes -/

section Characters

variable {c : Char}

theorem eq_underscore_of_toNat (code : c.toNat = 0x5F) : c = '_' :=
  Char.toNat_inj.mp code

theorem mem_joiningCodes (joins : (isJoiner c || isConnector c && c != '_') = true) :
    c.toNat ∈ joiningCodes := by
  have notUnderscore (connects : (isConnector c && c != '_') = true) : c.toNat ≠ 0x5F := by
    intro code
    rw [eq_underscore_of_toNat code] at connects
    cases connects
  rw [Bool.or_eq_true] at joins
  rcases joins with joiner | connector
  · simp only [isJoiner, Bool.or_eq_true, beq_iff_eq] at joiner
    simp only [joiningCodes, List.mem_cons]
    omega
  · have other := notUnderscore connector
    simp only [isConnector, Bool.and_eq_true, Bool.or_eq_true, beq_iff_eq,
      decide_eq_true_eq] at connector
    simp only [joiningCodes, List.mem_cons]
    omega

theorem not_joining_of_ascii (ascii : c.toNat < 0x80) :
    (isJoiner c || isConnector c && c != '_') = false := by
  rw [Bool.eq_false_iff]
  intro joins
  have listed := mem_joiningCodes joins
  simp only [joiningCodes, List.mem_cons, List.not_mem_nil, or_false] at listed
  omega

/-- A word character is an identifier character that divides no words, or else a number sign. -/
theorem isWordChar_iff :
    isWordChar c = true ↔
      isIdentifierChar c = true ∧ dividesWords c = false ∨ isNumberSign c = true := by
  by_cases ascii : c.toNat < 0x80
  · have notMark := inRanges_marks_of_ascii ascii
    have notNumber := inRanges_numbers_of_ascii ascii
    have notJoining := not_joining_of_ascii ascii
    simp only [isWordChar, isAlphanumeric, isIdentifierChar, dividesWords, isNumberSign, notMark,
      notNumber, Bool.or_assoc, notJoining, if_pos ascii]
    simp
  · have notUnderscore : (c == '_') = false := by
      rw [beq_eq_false_iff_ne]
      rintro rfl
      exact ascii (by decide)
    have mark (known : inRanges markRanges c.toNat = true) :=
      And.intro (inRanges_of_areApart marks_areApart_digits known)
        (inRanges_of_areApart marks_areApart_numbers known)
    have joining (known : (isJoiner c || isConnector c && c != '_') = true) :=
      inRanges_of_mem_joiningCodes _ (mem_joiningCodes known)
    simp only [isWordChar, isAlphanumeric, isIdentifierChar, dividesWords, isNumberSign,
      if_neg ascii, notUnderscore, bne, Bool.not_false, Bool.and_true, Bool.or_false] at joining ⊢
    generalize inRanges alphabeticRanges c.toNat = alphabetic at *
    generalize inRanges markRanges c.toNat = isMark at *
    generalize inRanges decimalDigitRanges c.toNat = digit at *
    generalize inRanges otherNumberRanges c.toNat = number at *
    generalize isJoiner c = joiner at *
    generalize isConnector c = connector at *
    revert alphabetic isMark digit number joiner connector
    decide

theorem isIdentifierChar_of_isNumberSign (sign : isNumberSign c = true) :
    isIdentifierChar c = false := by
  rw [isNumberSign, Bool.and_eq_true, Bool.not_eq_true'] at sign
  obtain ⟨number, notAlphabetic⟩ := sign
  have foreign : ¬c.toNat < 0x80 := by
    intro ascii
    rw [inRanges_numbers_of_ascii ascii] at number
    cases number
  have notDigit := inRanges_of_areApart numbers_areApart_digits number
  have notMark : inRanges markRanges c.toNat = false := by
    rw [Bool.eq_false_iff]
    intro mark
    rw [inRanges_of_areApart marks_areApart_numbers mark] at number
    cases number
  have notJoining : (isJoiner c || isConnector c && c != '_') = false := by
    rw [Bool.eq_false_iff]
    intro joins
    rw [(inRanges_of_mem_joiningCodes _ (mem_joiningCodes joins)).2.2] at number
    cases number
  have notUnderscore : (c != '_') = true := by
    rw [bne_iff_ne]
    rintro rfl
    exact foreign (by decide)
  rw [notUnderscore, Bool.and_true, Bool.or_eq_false_iff] at notJoining
  rw [isIdentifierChar, if_neg foreign, notAlphabetic, notMark, notDigit, notJoining.1,
    notJoining.2]
  rfl

end Characters

end Text
end SourceAtlas
