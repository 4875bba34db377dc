import Mathlib.Data.List.DropRight
import SourceAtlas.Text.Words

/-!
# Words of a text in two parts

The words of a text are those of its parts wherever it is divided beside a character that
belongs to no word.  A division inside a word takes that word away and leaves its two
halves instead, so the words of the first part are words of the whole text, with the
exception of the half in front of the division.
-/

namespace SourceAtlas
namespace Text

section Beginning

variable {accepts : Char → Bool} {front rest : Text}

theorem head_append_of_forall (outside : ∀ c ∈ front, accepts c = false)
    (begins : ∀ c ∈ rest.head?, accepts c = false) :
    ∀ c ∈ (front ++ rest).head?, accepts c = false := by
  cases front with
  | nil => exact begins
  | cons d front =>
      rintro c ⟨rfl⟩
      exact outside d List.mem_cons_self

theorem head_append_of_ne_nil (notEmpty : front ≠ [])
    (outside : ∀ c ∈ front, accepts c = false) (rest : Text) :
    ∀ c ∈ (front ++ rest).head?, accepts c = false := by
  obtain ⟨c, others, rfl⟩ := List.exists_cons_of_ne_nil notEmpty
  simpa using outside c List.mem_cons_self

theorem takeWhile_append_of_head (all : ∀ c ∈ front, accepts c = true)
    (ends : ∀ c ∈ rest.head?, accepts c = false) :
    (front ++ rest).takeWhile accepts = front := by
  rw [List.takeWhile_append_of_pos all]
  cases rest with
  | nil => simp
  | cons c rest => simp [ends c rfl]

end Beginning

theorem splitWhere_eq_splitOnP {α : Type} (separates : α → Bool) (text : List α) :
    splitWhere separates text = text.splitOnP separates := by
  induction text with
  | nil => rfl
  | cons c text ih =>
      have step : splitWhere separates (c :: text) =
          splitStep separates c (splitWhere separates text) := rfl
      rw [step, ih, List.splitOnP_cons_eq_if_modifyHead]
      unfold splitStep
      split
      · rfl
      · cases pieces : text.splitOnP separates with
        | nil => exact absurd pieces (List.splitOnP_ne_nil _ _)
        | cons first others => rfl

/-- A piece between separating characters is made of the other characters of the text. -/
theorem of_mem_splitWhere {separates : Char → Bool} {text piece : Text}
    (member : piece ∈ splitWhere separates text) :
    ∀ c ∈ piece, c ∈ text ∧ separates c = false := by
  induction text generalizing piece with
  | nil =>
      obtain rfl := List.mem_singleton.mp member
      exact List.forall_mem_nil _
  | cons d text ih =>
      have further {piece : Text} (known : piece ∈ splitWhere separates text) :
          ∀ c ∈ piece, c ∈ d :: text ∧ separates c = false :=
        fun c inside => ⟨List.mem_cons_of_mem d (ih known c inside).1, (ih known c inside).2⟩
      have step : splitWhere separates (d :: text) =
          splitStep separates d (splitWhere separates text) := rfl
      rw [step] at member
      unfold splitStep at member
      split at member
      case isTrue =>
        rcases List.mem_cons.mp member with rfl | later
        · exact List.forall_mem_nil _
        · exact further later
      case isFalse joins =>
        have here : d ∈ d :: text ∧ separates d = false :=
          ⟨List.mem_cons_self, by simpa using joins⟩
        split at member
        case h_1 =>
          obtain rfl := List.mem_singleton.mp member
          exact List.forall_mem_cons.mpr ⟨here, List.forall_mem_nil _⟩
        case h_2 first others pieces =>
          rw [pieces] at further
          rcases List.mem_cons.mp member with rfl | later
          · exact List.forall_mem_cons.mpr ⟨here, further List.mem_cons_self⟩
          · exact further (List.mem_cons_of_mem _ later)

@[simp]
theorem words_nil : words [] = [] :=
  rfl

theorem words_append_cons {c : Char} (separates : isWordChar c = false) (front back : Text) :
    words (front ++ c :: back) = words front ++ words back := by
  simp only [words, splitWhere_eq_splitOnP]
  rw [List.splitOnP_append_cons front back (by simpa using separates), List.filter_append]

/-- Characters that all belong to words make up one word, if there are any. -/
theorem words_of_forall {text : Text} (joined : ∀ c ∈ text, isWordChar c = true) :
    words text = [text].filter (!·.isEmpty) := by
  have single : text.splitOnP (fun c => !isWordChar c) = [text] :=
    List.splitOnP_eq_singleton fun c member => by simp [joined c member]
  rw [words, splitWhere_eq_splitOnP, single]

/-- A text is divided behind a character that belongs to no word. -/
theorem words_append_of_last {front : Text}
    (ends : ∀ c, front.getLast? = some c → isWordChar c = false) (back : Text) :
    words (front ++ back) = words front ++ words back := by
  rcases List.eq_nil_or_concat front with rfl | ⟨init, c, rfl⟩
  · simp
  · have separates : isWordChar c = false := ends c (by simp)
    have whole := words_append_cons separates init back
    have first := words_append_cons separates init []
    simp_all

/-- A text is divided in front of a character that belongs to no word. -/
theorem words_append_of_head {back : Text}
    (begins : ∀ c, back.head? = some c → isWordChar c = false) (front : Text) :
    words (front ++ back) = words front ++ words back := by
  cases back with
  | nil => simp
  | cons c rest =>
      have separates : isWordChar c = false := begins c rfl
      have second := words_append_cons separates [] rest
      rw [words_append_cons separates front rest]
      simp_all

/-- The word characters at the end of a text. -/
def trailingWord (text : Text) : Text :=
  text.rtakeWhile isWordChar

/-- The word characters at the beginning of a text. -/
def leadingWord (text : Text) : Text :=
  text.takeWhile isWordChar

theorem isWordChar_of_getLast?_rdropWhile {text : Text} {c : Char}
    (last : (text.rdropWhile isWordChar).getLast? = some c) : isWordChar c = false := by
  have remains : text.rdropWhile isWordChar ≠ [] := by
    intro nothing
    simp [nothing] at last
  rw [List.getLast?_eq_some_getLast remains, Option.some.injEq] at last
  rw [← last]
  simpa using List.rdropWhile_last_not isWordChar text remains

theorem isWordChar_of_head?_dropWhile {text : Text} {c : Char}
    (first : (text.dropWhile isWordChar).head? = some c) : isWordChar c = false := by
  have stopped := List.head?_dropWhile_not isWordChar text
  rw [first] at stopped
  exact stopped

/-- What a division does to the words of a text: those in front of the divided word and
those behind it stay as they are. -/
theorem words_append (front back : Text) :
    words (front ++ back) =
      words (front.rdropWhile isWordChar) ++
        [trailingWord front ++ leadingWord back].filter (!·.isEmpty) ++
        words (back.dropWhile isWordChar) := by
  have joined : ∀ c ∈ trailingWord front ++ leadingWord back, isWordChar c = true := by
    intro c member
    rcases List.mem_append.mp member with before | behind
    · exact List.mem_rtakeWhile_imp before
    · exact List.mem_takeWhile_imp behind
  have parts : front ++ back =
      front.rdropWhile isWordChar ++ (trailingWord front ++ leadingWord back) ++
        back.dropWhile isWordChar := by
    rw [List.append_assoc, List.append_assoc, leadingWord, List.takeWhile_append_dropWhile,
      ← List.append_assoc, trailingWord, List.rdropWhile_append_rtakeWhile]
  calc
    words (front ++ back) =
        words (front.rdropWhile isWordChar ++ (trailingWord front ++ leadingWord back)) ++
          words (back.dropWhile isWordChar) := by
      rw [parts]
      exact words_append_of_head (fun _ => isWordChar_of_head?_dropWhile) _
    _ = words (front.rdropWhile isWordChar) ++
          words (trailingWord front ++ leadingWord back) ++
          words (back.dropWhile isWordChar) := by
      rw [words_append_of_last fun _ => isWordChar_of_getLast?_rdropWhile]
    _ = _ := by
      rw [words_of_forall joined]

/-- A word of the first part of a text is a word of the whole text, unless the text is
divided right behind it and the word goes on. -/
theorem mem_words_of_append {word front back : Text} (member : word ∈ words front) :
    word ∈ words (front ++ back) ∨
      word = trailingWord front ∧ leadingWord back ≠ [] ∧
        word ++ leadingWord back ∈ words (front ++ back) := by
  have whole := words_append front []
  rw [List.append_nil] at whole
  rw [whole] at member
  simp only [leadingWord, List.takeWhile_nil, List.dropWhile_nil, List.append_nil, words_nil,
    List.mem_append, List.mem_filter, List.mem_singleton] at member
  rw [words_append]
  rcases member with before | ⟨rfl, nonempty⟩
  · exact Or.inl (by simp [before])
  · by_cases goesOn : leadingWord back = []
    · exact Or.inl (by simp_all)
    · exact Or.inr ⟨rfl, goesOn, by simp_all⟩

end Text
end SourceAtlas
