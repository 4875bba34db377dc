import SourceAtlas.Proofs.ScannedText

/-!
# Words with gaps between them

A pattern may let words come before what it looks for, each with a gap behind it.  A text that
begins with another word than the next one in question leaves that word out, so there is one way
to go over the words.  A word that begins inside such a text begins where one of its words does.
-/

namespace SourceAtlas

open Text

namespace Text

/-- Words with what separates each from the next one. -/
def spell (words : List (Text × Text)) : Text :=
  words.flatMap fun word => word.1 ++ word.2

/-- Whether words consist of identifier characters and their separators of others. -/
def IsSpaced (words : List (Text × Text)) : Prop :=
  ∀ word ∈ words, (∀ c ∈ word.1, isIdentifierChar c = true) ∧
    ∀ c ∈ word.2, isIdentifierChar c = false

theorem eq_nil_of_edge {front : Text} (solid : ∀ c ∈ front, isIdentifierChar c = true)
    (edge : ∀ c ∈ front.getLast?, isIdentifierChar c = false) : front = [] := by
  by_contra notEmpty
  have last := edge _ (List.getLast?_eq_some_getLast notEmpty)
  rw [solid _ (List.getLast_mem notEmpty)] at last
  cases last

/-- An identifier that begins inside a row of words, or inside the name at its end, begins where one
of them does. -/
theorem exists_word_of_split {words : List (Text × Text)} {name front back : Text} {first : Char}
    (spaced : IsSpaced words) (solid : ∀ c ∈ name, isIdentifierChar c = true)
    (split : spell words ++ name = front ++ back)
    (edge : ∀ c ∈ front.getLast?, isIdentifierChar c = false)
    (begins : back.head? = some first) (part : isIdentifierChar first = true) :
    front = spell words ∨
      ∃ passed word others, words = passed ++ word :: others ∧ front = spell passed := by
  induction words generalizing front with
  | nil =>
      have within : ∀ c ∈ front, isIdentifierChar c = true := by
        intro c member
        rw [show name = front ++ back from split] at solid
        exact solid c (List.mem_append_left _ member)
      exact .inl (eq_nil_of_edge within edge)
  | cons word words ih =>
      obtain ⟨⟨letters, separators⟩, spaced⟩ := List.forall_mem_cons.mp spaced
      by_cases nothing : front = []
      · exact .inr ⟨[], word, words, rfl, nothing⟩
      have whole : word.1 ++ (word.2 ++ (spell words ++ name)) = front ++ back := by
        rw [← split]
        simp [spell]
      -- The text in front ends with a separator, so it covers the word and all that separates it.
      obtain ⟨further, rfl, behind⟩ : ∃ further, front = word.1 ++ word.2 ++ further ∧
          spell words ++ name = further ++ back := by
        rcases List.append_eq_append_iff.mp whole with ⟨middle, rfl, behind⟩ | ⟨middle, here, -⟩
        · rcases List.append_eq_append_iff.mp behind with
            ⟨further, rfl, later⟩ | ⟨further, inside, rfl⟩
          · exact ⟨further, by rw [List.append_assoc], later⟩
          · cases further with
            | nil => exact ⟨[], by simp [inside], rfl⟩
            | cons c further =>
                obtain rfl : c = first := Option.some.inj begins
                rw [separators c (inside ▸ by simp)] at part
                cases part
        · rw [here] at letters
          exact absurd (eq_nil_of_edge (fun c member => letters c (List.mem_append_left _ member))
            edge) nothing
      have edge : ∀ c ∈ further.getLast?, isIdentifierChar c = false := by
        intro c last
        refine edge c ?_
        rw [List.getLast?_append, last]
        rfl
      rcases ih spaced behind edge with rfl | ⟨passed, found, others, rfl, rfl⟩
      · exact .inl (by simp [spell])
      · exact .inr ⟨word :: passed, found, others, rfl, by simp [spell]⟩

/-- At least one blank. -/
structure Gap where
  text : Text
  notEmpty : text ≠ []
  blank : ∀ c ∈ text, isBlank c = true

def Gap.space : Gap :=
  ⟨[' '], List.cons_ne_nil _ _, List.forall_mem_singleton.mpr rfl⟩

theorem Gap.not_identifier (gap : Gap) : ∀ c ∈ gap.text, isIdentifierChar c = false :=
  fun c member => isIdentifierChar_of_isBlank (gap.blank c member)

theorem Gap.head_append (gap : Gap) (rest : Text) :
    ∀ c ∈ (gap.text ++ rest).head?, isIdentifierChar c = false :=
  head_append_of_ne_nil gap.notEmpty gap.not_identifier rest

/-- Whether a word consists of identifier characters. -/
def IsWord (word : String) : Prop :=
  word.toList ≠ [] ∧ word.toList.all isIdentifierChar = true

instance (word : String) : Decidable (IsWord word) :=
  inferInstanceAs (Decidable (_ ∧ _))

theorem IsWord.solid {word : String} (isWord : IsWord word) :
    ∀ c ∈ word.toList, isIdentifierChar c = true :=
  List.all_eq_true.mp isWord.2

/-- Words with the gaps behind them. -/
def wordsText (words : List (String × Gap)) : Text :=
  spell (words.map fun word => (word.1.toList, word.2.text))

theorem wordsText_cons (word : String) (gap : Gap) (words : List (String × Gap)) :
    wordsText ((word, gap) :: words) = word.toList ++ (gap.text ++ wordsText words) := by
  simp [wordsText, spell]

theorem head_wordsText {words : List (String × Gap)} (areWords : ∀ word ∈ words, IsWord word.1)
    {rest : Text} (begins : ∀ c ∈ rest.head?, isBlank c = false) :
    ∀ c ∈ (wordsText words ++ rest).head?, isBlank c = false := by
  cases words with
  | nil => exact begins
  | cons word words =>
      have isWord := areWords word List.mem_cons_self
      rw [wordsText_cons, List.append_assoc]
      exact head_append_of_ne_nil isWord.1
        (fun c member => isBlank_of_isIdentifierChar (isWord.solid c member)) _

theorem takeWhile_wordsText {word : String × Gap} (isWord : IsWord word.1)
    (words : List (String × Gap)) (rest : Text) :
    (wordsText (word :: words) ++ rest).takeWhile isIdentifierChar = word.1.toList := by
  rw [wordsText_cons, List.append_assoc]
  apply takeWhile_append_of_head isWord.solid
  rw [List.append_assoc]
  exact word.2.head_append _

end Text

namespace Place

variable {place later : Place} {stretch further : Text}

theorem Passes.exists_middle (passes : place.Passes (stretch ++ further) later) :
    ∃ middle, place.Passes stretch middle ∧ middle.Passes further later := by
  induction stretch generalizing place with
  | nil => exact ⟨place, .nothing place, passes⟩
  | cons c stretch ih =>
      cases passes with
      | next ahead passes =>
          obtain ⟨middle, first, second⟩ := ih passes
          exact ⟨middle, .next ahead first, second⟩

theorem atWordEdge_of_begins (before : ∀ c ∈ place.before, isIdentifierChar c = false) {c : Char}
    (ahead : place.rest.head? = some c) (part : isIdentifierChar c = true) :
    place.atWordEdge = true := by
  rw [atWordEdge, ahead, Option.any_some, part]
  cases known : place.before with
  | none => rfl
  | some d => rw [Option.any_some, before d known]; rfl

theorem atWordEdge_of_ends {c : Char} (before : place.before = some c)
    (part : isIdentifierChar c = true)
    (ahead : ∀ c ∈ place.rest.head?, isIdentifierChar c = false) : place.atWordEdge = true := by
  rw [atWordEdge, before, Option.any_some, part]
  cases known : place.rest.head? with
  | none => rfl
  | some d => rw [Option.any_some, ahead d known]; rfl

theorem Passes.exists_before {word : String} (isWord : IsWord word)
    (passes : place.Passes word.toList later) :
    ∃ c, later.before = some c ∧ isIdentifierChar c = true := by
  refine ⟨word.toList.getLast isWord.1, ?_, isWord.solid _ (List.getLast_mem isWord.1)⟩
  rw [passes.before_eq, List.getLast?_eq_some_getLast isWord.1, Option.some_or]

theorem not_identifier_of_atWordEdge (edge : place.atWordEdge = true) {c d : Char}
    (before : place.before = some c) (ahead : place.rest.head? = some d)
    (part : isIdentifierChar d = true) : isIdentifierChar c = false := by
  rw [atWordEdge, before, ahead, Option.any_some, Option.any_some, part] at edge
  simpa using edge

end Place

namespace Pattern

/-- Words that may come in front of a pattern, in this order, each with a gap behind it. -/
def optionalWords (choices : List String) (behind : Pattern) : Pattern :=
  choices.foldr (fun choice rest => followedBy (maybe [literal choice, gap]) rest) behind

variable {behind : Pattern} {place later : Place} {captures : List Capture} {reached : Progress}

theorem prefers_wordEdge (edge : place.atWordEdge = true) :
    wordEdge.Prefers ⟨place, captures⟩ ⟨place, captures⟩ := by
  intro next answer goesOn
  rw [reach, if_pos edge, goesOn]

theorem leads_gap (leads : gap.Leads ⟨place, captures⟩ reached) :
    ∃ (gap : Gap) (later : Place), place.Passes gap.text later ∧ reached = ⟨later, captures⟩ := by
  obtain ⟨_, ⟨c, middle, blank, overFirst, rfl⟩, stretch, later, blanks, overOthers, rfl⟩ := leads
  exact ⟨⟨c :: stretch, List.cons_ne_nil _ _, List.forall_mem_cons.mpr ⟨blank, blanks⟩⟩, later,
    overFirst.append overOthers, rfl⟩

theorem exists_words_of_leads {choices : List String}
    (leads : (optionalWords choices behind).Leads ⟨place, captures⟩ reached) :
    ∃ (words : List (String × Gap)) (later : Place), (words.map Prod.fst).Sublist choices ∧
      place.Passes (wordsText words) later ∧ behind.Leads ⟨later, captures⟩ reached := by
  induction choices generalizing place with
  | nil => exact ⟨[], place, List.Sublist.refl _, .nothing place, leads⟩
  | cons choice choices ih =>
      obtain ⟨middle, first, others⟩ := leads
      rcases first with ⟨_, word, space⟩ | rfl
      · obtain ⟨_, overWord, rfl⟩ := leads_literal word
        obtain ⟨gap, _, overGap, rfl⟩ := leads_gap space
        obtain ⟨words, later, ordered, passes, leads⟩ := ih others
        refine ⟨(choice, gap) :: words, later, ordered.cons_cons choice, ?_, leads⟩
        rw [wordsText_cons]
        exact overWord.append (overGap.append passes)
      · obtain ⟨words, later, ordered, passes, leads⟩ := ih others
        exact ⟨words, later, ordered.cons choice, passes, leads⟩

theorem not_leads_word {choice : String} (isWord : IsWord choice)
    (differs : place.rest.takeWhile isIdentifierChar ≠ choice.toList) :
    ¬(sequence [literal choice, gap]).Leads ⟨place, captures⟩ reached := by
  rintro ⟨_, word, space⟩
  obtain ⟨middle, overWord, rfl⟩ := leads_literal word
  obtain ⟨gap, later, overGap, -⟩ := leads_gap space
  apply differs
  rw [overWord.rest_eq]
  apply takeWhile_append_of_head isWord.solid
  rw [show middle.rest = _ from overGap.rest_eq]
  exact gap.head_append _

/-- The words of a text are gone over in one way, if a foreign word stands behind them. -/
theorem prefers_optionalWords {choices : List String} {words : List (String × Gap)}
    (areWords : ∀ choice ∈ choices, IsWord choice) (distinct : choices.Nodup)
    (ordered : (words.map Prod.fst).Sublist choices)
    (passes : place.Passes (wordsText words) later)
    (foreign : ∀ choice ∈ choices, later.rest.takeWhile isIdentifierChar ≠ choice.toList)
    (begins : ∀ c ∈ later.rest.head?, isBlank c = false)
    (prefers : behind.Prefers ⟨later, captures⟩ reached) :
    (optionalWords choices behind).Prefers ⟨place, captures⟩ reached := by
  induction choices generalizing words place with
  | nil =>
      obtain rfl : words = [] := by simpa using ordered
      cases passes
      exact prefers
  | cons choice choices ih =>
      obtain ⟨isWord, othersWords⟩ := List.forall_mem_cons.mp areWords
      obtain ⟨foreignHere, othersForeign⟩ := List.forall_mem_cons.mp foreign
      obtain ⟨absent, othersDistinct⟩ := List.nodup_cons.mp distinct
      rcases List.sublist_cons_iff.mp ordered with ordered | ⟨others, same, ordered⟩
      · have differs : place.rest.takeWhile isIdentifierChar ≠ choice.toList := by
          cases words with
          | nil =>
              cases passes
              exact foreignHere
          | cons word words =>
              have member : word.1 ∈ choices := ordered.subset List.mem_cons_self
              rw [passes.rest_eq, takeWhile_wordsText (othersWords _ member)]
              intro same
              exact absent (String.toList_inj.mp same ▸ member)
        have left := prefers_maybe_of_nowhere fun reached =>
          @not_leads_word place captures reached choice isWord differs
        exact left.followedBy (ih othersWords othersDistinct ordered passes othersForeign)
      · obtain ⟨⟨word, gap⟩, words, rfl, rfl, rfl⟩ := List.map_eq_cons_iff.mp same
        rw [wordsText_cons] at passes
        obtain ⟨first, overWord, passes⟩ := passes.exists_middle
        obtain ⟨second, overGap, passes⟩ := passes.exists_middle
        have wordsHere : ∀ other ∈ words, IsWord other.1 := fun other member =>
          othersWords _ (ordered.subset (List.mem_map_of_mem member))
        have ends : ∀ c ∈ second.rest.head?, isBlank c = false := by
          rw [passes.rest_eq]
          exact head_wordsText wordsHere begins
        have taken : (sequence [literal word, Pattern.gap]).Prefers ⟨place, captures⟩
            ⟨second, captures⟩ :=
          (prefers_literal overWord).followedBy (prefers_someOf overGap gap.notEmpty gap.blank ends)
        exact (taken.either_left nothing).followedBy
          (ih othersWords othersDistinct ordered passes othersForeign)

end Pattern
end SourceAtlas
