import Mathlib.Data.List.DropRight
import SourceAtlas.Proofs.WordSplitting
import SourceAtlas.Rules.Python

/-!
# Names in import lists

An import list is split at its commas, and every piece gives its first field.  Blanks around a
piece do not matter, so neither do blanks around the list; what stands behind the first field of
a piece does not matter either, as long as it is divided from it by a blank.
-/

namespace SourceAtlas
namespace Text

theorem rdropWhile_append {p : Char → Bool} {front : Text} {c : Char}
    (last : front.getLast? = some c) (stays : p c = false) (back : Text) :
    (front ++ back).rdropWhile p = front ++ back.rdropWhile p := by
  induction back using List.reverseRecOn with
  | nil =>
      rw [List.append_nil, List.rdropWhile_nil, List.append_nil, List.rdropWhile_eq_self_iff]
      intro notEmpty
      rw [List.getLast?_eq_some_getLast notEmpty, Option.some.injEq] at last
      rw [last, stays]
      exact Bool.false_ne_true
  | append_singleton back d ih =>
      rw [← List.append_assoc, List.rdropWhile_concat, List.rdropWhile_concat, ih]
      split
      · rfl
      · rw [List.append_assoc]

theorem trimEnd_eq_rdropWhile (text : Text) : trimEnd text = text.rdropWhile isBlank :=
  rfl

theorem trimEndings_eq_rdropWhile (c : Char) (text : Text) :
    trimEndings [c] text = text.rdropWhile (· == c) := by
  have drops (steps : Nat) (enough : text.length ≤ steps) :
      dropEndings [c] steps text = text.rdropWhile (· == c) := by
    induction steps generalizing text with
    | zero =>
        obtain rfl := List.eq_nil_of_length_eq_zero (Nat.le_zero.mp enough)
        rfl
    | succ steps ih =>
        rcases List.eq_nil_or_concat text with rfl | ⟨front, d, rfl⟩
        · rfl
        · rw [List.concat_eq_append] at enough ⊢
          rw [dropEndings, List.rdropWhile_concat]
          have ends : [c].isSuffixOf (front ++ [d]) = (d == c) := by
            simp [List.isSuffixOf, List.isPrefixOf, eq_comm]
          rw [ends]
          split
          · have shorter : (front ++ [d]).take ((front ++ [d]).length - [c].length) = front := by
              simp
            rw [shorter]
            apply ih
            simpa using enough
          · rfl
  exact drops text.length (Nat.le_refl _)

theorem trim_trimStart (text : Text) : trim (trimStart text) = trim text :=
  congrArg trimEnd (List.dropWhile_idempotent isBlank text)

theorem trim_concat {c : Char} (blank : isBlank c = true) (front : Text) :
    trim (front ++ [c]) = trim front := by
  rw [trim, trim, trimStart, trimStart, List.dropWhile_append]
  split
  case isTrue nothing =>
    rw [List.isEmpty_iff.mp nothing]
    simp [blank]
  case isFalse => exact List.rdropWhile_concat_pos isBlank _ c blank

theorem trim_trimEnd (text : Text) : trim (trimEnd text) = trim text := by
  induction text using List.reverseRecOn with
  | nil => rfl
  | append_singleton front c ih =>
      rw [trimEnd_eq_rdropWhile] at ih ⊢
      rw [List.rdropWhile_concat]
      split
      case isTrue blank => rw [ih, trim_concat blank]
      case isFalse => rfl

/-- The first field of a text that begins with one. -/
theorem head?_fields {c : Char} {rest : Text} (solid : isBlank c = false) :
    (fields (c :: rest)).head? = some ((c :: rest).takeWhile fun c => !isBlank c) := by
  let field := (c :: rest).takeWhile fun c => !isBlank c
  have notEmpty : field ≠ [] := by
    simp [field, solid]
  have solidField : field.splitOnP isBlank = [field] := by
    apply List.splitOnP_eq_singleton
    intro d member
    simpa using List.mem_takeWhile_imp member
  have divided : c :: rest = field ++ (c :: rest).dropWhile fun c => !isBlank c :=
    List.takeWhile_append_dropWhile.symm
  rw [fields, splitWhere_eq_splitOnP]
  cases behind : (c :: rest).dropWhile fun c => !isBlank c with
  | nil =>
      rw [behind, List.append_nil] at divided
      rw [divided, solidField]
      simp [← divided, field]
  | cons d back =>
      have blank : isBlank d = true := by
        have first := List.head?_dropWhile_not (fun c => !isBlank c) (c :: rest)
        simpa [behind] using first
      rw [behind] at divided
      rw [divided, List.splitOnP_append_cons _ _ blank, solidField]
      simp [notEmpty, ← divided, field]

end Text

namespace Python

open Text

section Entry

variable {margin word rest : Text}

/-- A field at the beginning of an entry is its name, up to what continues the field.  Only the
end of an entry is cut off. -/
theorem importedName?_append (blank : ∀ c ∈ margin, isBlank c = true)
    (solid : ∀ c ∈ word, isBlank c = false) {last : Char} (ends : word.getLast? = some last)
    (notCut : last ≠ '\\') (rest : Text) :
    ∃ further, further <+: rest ∧
      importedName? (margin ++ (word ++ rest)) =
        if word ++ further.takeWhile (fun c => !isBlank c) = ['*'] then none
        else some (word ++ further.takeWhile fun c => !isBlank c) := by
  have lastSolid : isBlank last = false := solid last (List.mem_of_getLast? ends)
  have trimmed : trim (margin ++ (word ++ rest)) = word ++ trimEnd rest := by
    rw [trim, trimStart, List.dropWhile_append_of_pos blank]
    cases word with
    | nil => simp at ends
    | cons c word =>
        have begins : isBlank c = false := solid c List.mem_cons_self
        rw [List.cons_append, List.dropWhile_cons_of_neg (by rw [begins]; exact Bool.false_ne_true),
          ← List.cons_append, trimEnd_eq_rdropWhile, rdropWhile_append ends lastSolid]
        rfl
  have cut : trimEndings ['\\'] (word ++ trimEnd rest) =
      word ++ (trimEnd rest).rdropWhile (· == '\\') := by
    rw [trimEndings_eq_rdropWhile, rdropWhile_append ends (by simpa using notCut)]
  refine ⟨(trimEnd rest).rdropWhile (· == '\\'), ?_, ?_⟩
  · exact (List.rdropWhile_prefix _ _).trans (List.rdropWhile_prefix _ _)
  · rw [importedName?, trimmed, cut]
    cases word with
    | nil => simp at ends
    | cons c word =>
        rw [List.cons_append, head?_fields (solid c List.mem_cons_self), ← List.cons_append,
          List.takeWhile_append_of_pos]
        · simp only [Option.bind_eq_bind, Option.bind_some, beq_iff_eq]
        · intro d member
          rw [solid d member]
          rfl

/-- The name of an entry is its first field, if a blank or nothing follows it. -/
theorem importedName?_of_field (blank : ∀ c ∈ margin, isBlank c = true)
    (solid : ∀ c ∈ word, isBlank c = false) {last : Char} (ends : word.getLast? = some last)
    (notCut : last ≠ '\\') (notAll : word ≠ ['*'])
    (divided : ∀ c ∈ rest.head?, isBlank c = true) :
    importedName? (margin ++ (word ++ rest)) = some word := by
  obtain ⟨further, begins, named⟩ := importedName?_append blank solid ends notCut rest
  have nothing : further.takeWhile (fun c => !isBlank c) = [] := by
    cases further with
    | nil => rfl
    | cons c further =>
        obtain ⟨behind, rfl⟩ := begins
        have blank := divided c rfl
        simp [blank]
  rw [named, nothing, List.append_nil, if_neg notAll]

/-- A comment mark in the first field of an entry becomes a part of the name. -/
theorem importedName?_of_mark (blank : ∀ c ∈ margin, isBlank c = true)
    (solid : ∀ c ∈ word, isBlank c = false) (rest : Text) :
    ∃ name, importedName? (margin ++ (word ++ '#' :: rest)) = some name ∧ '#' ∈ name := by
  have marked : ∀ c ∈ word ++ ['#'], isBlank c = false := by
    simpa [or_imp, forall_and] using ⟨solid, by decide⟩
  obtain ⟨further, -, named⟩ :=
    importedName?_append blank marked List.getLast?_concat (by decide) rest
  rw [List.append_assoc, List.singleton_append] at named
  refine ⟨_, named.trans (if_neg ?_), by simp⟩
  intro same
  have mark : '#' ∈ ['*'] := by
    rw [← same]
    simp
  simp at mark

theorem importedName?_of_blank (blank : ∀ c ∈ margin, isBlank c = true) :
    importedName? margin = none := by
  have nothing : trim margin = [] := by
    rw [trim, trimStart, List.dropWhile_eq_nil_iff.mpr blank]
    rfl
  rw [importedName?, nothing]
  rfl

/-- Blanks around an entry do not matter. -/
theorem importedName?_congr {entry other : Text} (same : trim entry = trim other) :
    importedName? entry = importedName? other := by
  rw [importedName?, importedName?, same]

end Entry

/-! ## Lists -/

theorem importedNames_append_cons (front back : Text) :
    importedNames (front ++ ',' :: back) = importedNames front ++ importedNames back := by
  rw [importedNames, splitWhere_eq_splitOnP, List.splitOnP_append_cons _ _ (by rfl),
    List.filterMap_append, ← splitWhere_eq_splitOnP, ← splitWhere_eq_splitOnP]
  rfl

theorem importedNames_of_notMem {text : Text} (single : ',' ∉ text) :
    importedNames text = (importedName? text).toList := by
  have whole : text.splitOnP (· == ',') = [text] := by
    apply List.splitOnP_eq_singleton
    intro c member
    rw [beq_eq_false_iff_ne]
    rintro rfl
    exact single member
  rw [importedNames, splitWhere_eq_splitOnP, whole]
  cases named : importedName? text <;> simp [named]

theorem importedNames_trimStart (text : Text) :
    importedNames (trimStart text) = importedNames text := by
  have alone {front : Text} (single : ',' ∉ front) :
      importedNames (trimStart front) = importedNames front := by
    have stillSingle : ',' ∉ trimStart front := fun member =>
      single ((List.dropWhile_sublist _).subset member)
    rw [importedNames_of_notMem single, importedNames_of_notMem stillSingle,
      importedName?_congr (trim_trimStart front)]
  by_cases several : ',' ∈ text
  · obtain ⟨front, back, rfl, single⟩ := List.eq_append_cons_of_mem several
    have kept : trimStart (front ++ ',' :: back) = trimStart front ++ ',' :: back := by
      rw [trimStart, trimStart, List.dropWhile_append]
      split
      case isTrue nothing =>
        rw [List.isEmpty_iff.mp nothing]
        rfl
      case isFalse => rfl
    rw [kept, importedNames_append_cons, importedNames_append_cons, alone single]
  · exact alone several

theorem trimEnd_append_cons (front back : Text) :
    trimEnd (front ++ ',' :: back) = front ++ ',' :: trimEnd back := by
  have last : (front ++ [',']).getLast? = some ',' := List.getLast?_concat
  have whole := rdropWhile_append last (by decide : isBlank ',' = false) back
  simpa [trimEnd_eq_rdropWhile] using whole

theorem importedNames_trimEnd (text : Text) :
    importedNames (trimEnd text) = importedNames text := by
  induction measured : text.length using Nat.strong_induction_on generalizing text with
  | _ size ih =>
      by_cases several : ',' ∈ text
      · obtain ⟨front, back, rfl, -⟩ := List.eq_append_cons_of_mem several
        have shorter : back.length < size := by
          rw [← measured, List.length_append, List.length_cons]
          omega
        rw [trimEnd_append_cons, importedNames_append_cons, importedNames_append_cons,
          ih back.length shorter back rfl]
      · have stillSingle : ',' ∉ trimEnd text := fun member =>
          several ((List.rdropWhile_prefix isBlank text).subset member)
        rw [importedNames_of_notMem several, importedNames_of_notMem stillSingle,
          importedName?_congr (trim_trimEnd text)]

theorem importedNames_trim (text : Text) : importedNames (trim text) = importedNames text := by
  rw [trim, importedNames_trimEnd, importedNames_trimStart]

/-- The names in what follows the first comma of a text. -/
def namesBehindComma (text : Text) : List Text :=
  match text.dropWhile (· != ',') with
  | [] => []
  | _ :: behind => importedNames behind

theorem namesBehindComma_of_notMem {text : Text} (single : ',' ∉ text) :
    namesBehindComma text = [] := by
  have nothing : text.dropWhile (· != ',') = [] := by
    rw [List.dropWhile_eq_nil_iff]
    intro c member
    rw [bne_iff_ne]
    rintro rfl
    exact single member
  rw [namesBehindComma, nothing]

/-- An entry ends at the first comma. -/
theorem importedNames_append {front : Text} (single : ',' ∉ front) (back : Text) :
    importedNames (front ++ back) =
      (importedName? (front ++ back.takeWhile (· != ','))).toList ++ namesBehindComma back := by
  have entry : ',' ∉ front ++ back.takeWhile (· != ',') := by
    rw [List.mem_append, not_or]
    refine ⟨single, fun member => ?_⟩
    simpa using List.mem_takeWhile_imp member
  have divided : front ++ back =
      front ++ back.takeWhile (· != ',') ++ back.dropWhile (· != ',') := by
    rw [List.append_assoc, List.takeWhile_append_dropWhile]
  rw [namesBehindComma]
  cases behind : back.dropWhile (· != ',') with
  | nil =>
      rw [divided, behind, List.append_nil, importedNames_of_notMem entry, List.append_nil]
  | cons c further =>
      obtain rfl : c = ',' := by
        have first := List.head?_dropWhile_not (· != ',') back
        simpa [behind] using first
      rw [divided, behind, importedNames_append_cons, importedNames_of_notMem entry]

end Python
end SourceAtlas
