import SourceAtlas.Proofs.SpacedWords
import SourceAtlas.Rules.JavaScript

/-!
# Exported declarations as text

An exported declaration consists of words with gaps between them, the last one of which says what
kind of thing is declared, and of a name.  Where one begins, the pattern for them matches it and
takes its name.  A second one can begin inside it only at the name.
-/

namespace SourceAtlas
namespace JavaScript

open Text Pattern

def exportWord : Text :=
  ['e', 'x', 'p', 'o', 'r', 't']

def exportModifiers : List String :=
  ["default", "declare", "async", "abstract"]

def exportedKinds : List String :=
  ["class", "function", "const", "let", "var", "interface", "type", "enum"]

theorem exportWord_solid : ∀ c ∈ exportWord, isIdentifierChar c = true :=
  List.all_eq_true.mp (by decide)

theorem isWord_of_mem_modifiers : ∀ word ∈ exportModifiers, IsWord word := by
  decide

theorem isWord_of_mem_kinds : ∀ kind ∈ exportedKinds, IsWord kind := by
  decide

/-! ## Declarations as text -/

/-- What stands between the kind of a declaration and its name: blanks, and maybe a star with
blanks behind it. -/
structure Joint where
  margin : Text
  star : Option Text
  blank : ∀ c ∈ margin, isBlank c = true
  starBlank : ∀ behind ∈ star, ∀ c ∈ behind, isBlank c = true
  apart : margin ≠ [] ∨ star ≠ none

namespace Joint

def starText (joint : Joint) : Text :=
  match joint.star with
  | some behind => '*' :: behind
  | none => []

def text (joint : Joint) : Text :=
  joint.margin ++ joint.starText

theorem not_identifier (joint : Joint) : ∀ c ∈ joint.text, isIdentifierChar c = false := by
  have star : ∀ c ∈ joint.starText, isIdentifierChar c = false := by
    unfold starText
    split
    case h_1 behind present =>
      have blank := joint.starBlank behind present
      exact List.forall_mem_cons.mpr
        ⟨by decide, fun c member => isIdentifierChar_of_isBlank (blank c member)⟩
    case h_2 => exact List.forall_mem_nil _
  exact List.forall_mem_append.mpr
    ⟨fun c member => isIdentifierChar_of_isBlank (joint.blank c member), star⟩

theorem text_ne_nil (joint : Joint) : joint.text ≠ [] := by
  intro nothing
  obtain ⟨margin, star⟩ := List.append_eq_nil_iff.mp nothing
  rcases joint.apart with present | present
  · exact present margin
  · unfold starText at star
    split at star
    case h_1 => cases star
    case h_2 absent => exact present absent

theorem head_append (joint : Joint) (rest : Text) :
    ∀ c ∈ (joint.text ++ rest).head?, isIdentifierChar c = false :=
  head_append_of_ne_nil joint.text_ne_nil joint.not_identifier rest

end Joint

def Joint.space : Joint :=
  ⟨Gap.space.text, none, Gap.space.blank, fun _ absent => absurd absent (Option.not_mem_none _),
    .inl Gap.space.notEmpty⟩

/-- An exported declaration together with the text around it. -/
structure ExportedDeclaration where
  before : Text
  gap : Gap
  words : List (String × Gap)
  kind : String
  joint : Joint
  name : Text
  after : Text
  begins : ∀ c ∈ before.getLast?, isIdentifierChar c = false
  ordered : (words.map Prod.fst).Sublist exportModifiers
  known : kind ∈ exportedKinds
  notEmpty : name ≠ []
  solid : ∀ c ∈ name, isIdentifierChar c = true
  ends : ∀ c ∈ after.head?, isIdentifierChar c = false

namespace ExportedDeclaration

/-- All words in front of the name, each with what follows it. -/
def heading (declaration : ExportedDeclaration) : List (Text × Text) :=
  (exportWord, declaration.gap.text) ::
    (declaration.words.map (fun word => (word.1.toList, word.2.text)) ++
      [(declaration.kind.toList, declaration.joint.text)])

def tail (declaration : ExportedDeclaration) : Text :=
  spell declaration.heading ++ (declaration.name ++ declaration.after)

def source (declaration : ExportedDeclaration) : Text :=
  declaration.before ++ declaration.tail

def offset (declaration : ExportedDeclaration) : Nat :=
  byteLength declaration.before

def nameOffset (declaration : ExportedDeclaration) : Nat :=
  declaration.offset + byteLength (spell declaration.heading)

def stop (declaration : ExportedDeclaration) : Nat :=
  declaration.nameOffset + byteLength declaration.name

variable (declaration : ExportedDeclaration)

theorem offset_lt_nameOffset : declaration.offset < declaration.nameOffset := by
  apply Nat.lt_add_of_pos_right
  apply Nat.pos_of_ne_zero
  intro nothing
  have empty := eq_nil_of_byteLength_eq_zero nothing
  cases empty

theorem nameOffset_lt_stop : declaration.nameOffset < declaration.stop := by
  apply Nat.lt_add_of_pos_right
  apply Nat.pos_of_ne_zero
  exact fun nothing => declaration.notEmpty (eq_nil_of_byteLength_eq_zero nothing)

theorem isWord_of_mem_words : ∀ word ∈ declaration.words, IsWord word.1 := by
  intro word member
  exact isWord_of_mem_modifiers _ (declaration.ordered.subset (List.mem_map_of_mem member))

theorem tail_eq : declaration.tail = exportWord ++ (declaration.gap.text ++
    (wordsText declaration.words ++ (declaration.kind.toList ++
      (declaration.joint.text ++ (declaration.name ++ declaration.after))))) := by
  simp [tail, heading, wordsText, spell]

theorem heading_spaced : IsSpaced declaration.heading := by
  have isWord := isWord_of_mem_kinds _ declaration.known
  have spacedWords : IsSpaced (declaration.words.map fun word => (word.1.toList, word.2.text)) := by
    intro spelled member
    obtain ⟨word, listed, rfl⟩ := List.mem_map.mp member
    exact ⟨(declaration.isWord_of_mem_words word listed).solid, word.2.not_identifier⟩
  have spacedKind : IsSpaced [(declaration.kind.toList, declaration.joint.text)] := by
    intro spelled member
    obtain rfl := List.mem_singleton.mp member
    exact ⟨isWord.solid, declaration.joint.not_identifier⟩
  refine List.forall_mem_cons.mpr ⟨⟨exportWord_solid, declaration.gap.not_identifier⟩, ?_⟩
  exact List.forall_mem_append.mpr ⟨spacedWords, spacedKind⟩

/-- Behind the first word, no word is one that exports or begins like it. -/
theorem not_export_of_mem_tail : ∀ word ∈ declaration.heading.tail,
    ¬word.1 <+: exportWord ∧ ¬exportWord <+: word.1 := by
  have modifiers : ∀ word ∈ exportModifiers,
      ¬word.toList <+: exportWord ∧ ¬exportWord <+: word.toList := by
    decide
  have kinds : ∀ kind ∈ exportedKinds,
      ¬kind.toList <+: exportWord ∧ ¬exportWord <+: kind.toList := by
    decide
  refine List.forall_mem_append.mpr ⟨?_, ?_⟩
  · intro spelled member
    obtain ⟨word, listed, rfl⟩ := List.mem_map.mp member
    exact modifiers _ (declaration.ordered.subset (List.mem_map_of_mem listed))
  · intro spelled member
    obtain rfl := List.mem_singleton.mp member
    exact kinds _ declaration.known

end ExportedDeclaration

/-! ## The pattern -/

/-- The part of the pattern behind the modifiers. -/
def declaredPart : Pattern := sequence [
  oneWordOf exportedKinds, wordEdge, blanks, maybe ["*"], blanks, captured 1 [identifier]]

theorem exportedDeclaration_eq : exportedDeclaration =
    sequence [wordEdge, "export", Pattern.gap, optionalWords exportModifiers declaredPart] :=
  rfl

theorem Joint.exists_prefers (joint : Joint) {place : Place} {rest : Text} {c : Char}
    (ahead : place.rest = joint.text ++ c :: rest) (part : isIdentifierChar c = true) :
    ∃ later, place.Passes joint.text later ∧ later.rest = c :: rest ∧
      ∀ {behind : Pattern} {reached : Progress}, behind.Prefers ⟨later, []⟩ reached →
        (sequence [blanks, maybe ["*"], blanks, behind]).Prefers ⟨place, []⟩ reached := by
  have solid : ∀ d ∈ (c :: rest).head?, isBlank d = false := by
    simpa using isBlank_of_isIdentifierChar part
  obtain ⟨margin, star, blank, starBlank, apart⟩ := joint
  rw [Joint.text, List.append_assoc] at ahead
  cases star with
  | none =>
      obtain ⟨first, overMargin, ahead, prefersMargin⟩ :=
        exists_prefers_run [] margin (c :: rest) ahead blank solid
      obtain ⟨second, overNothing, ahead', prefersNothing⟩ :=
        exists_prefers_run [] [] (c :: rest) ahead (List.forall_mem_nil _) solid
      cases overNothing
      have unstarred : (maybe ["*"]).Prefers ⟨first, []⟩ ⟨first, []⟩ := by
        refine prefers_maybe_of_nowhere fun reached leads => ?_
        obtain ⟨_, overStar, -⟩ := leads_literal leads
        obtain ⟨rfl, -⟩ := List.cons.inj (ahead.symm.trans overStar.rest_eq)
        exact absurd part (by decide)
      refine ⟨first, ?_, ahead, fun prefers => prefersMargin.followedBy (unstarred.followedBy
        (prefersNothing.followedBy prefers))⟩
      simpa [Joint.text, Joint.starText] using overMargin
  | some behind =>
      obtain ⟨first, overMargin, ahead, prefersMargin⟩ :=
        exists_prefers_run [] margin _ ahead blank (by simp [Joint.starText, isBlank])
      obtain ⟨second, overStar, ahead, prefersStar⟩ :=
        exists_prefers_literal [] (show "*".toList = ['*'] from rfl) (behind ++ c :: rest) ahead
      obtain ⟨third, overBehind, ahead, prefersBehind⟩ :=
        exists_prefers_run [] behind (c :: rest) ahead (starBlank behind rfl) solid
      exact ⟨third, overMargin.append (overStar.append overBehind), ahead, fun prefers =>
        prefersMargin.followedBy ((prefersStar.either_left nothing).followedBy
          (prefersBehind.followedBy prefers))⟩

theorem exists_head_of_leads {place : Place} {reached : Progress}
    (leads : (captured 1 [identifier]).Leads ⟨place, []⟩ reached) :
    ∃ c rest, place.rest = c :: rest ∧ isIdentifierChar c = true := by
  obtain ⟨_, ⟨_, ⟨c, later, part, overFirst, -⟩, -⟩, -⟩ := leads
  exact ⟨c, later.rest, overFirst.rest_eq, part⟩

theorem exists_joint_of_leads {place : Place} {reached : Progress} {c : Char}
    (before : place.before = some c) (part : isIdentifierChar c = true)
    (edge : place.atWordEdge = true)
    (leads : (sequence [blanks, maybe ["*"], blanks, captured 1 [identifier]]).Leads ⟨place, []⟩
      reached) :
    ∃ (joint : Joint) (later : Place), place.Passes joint.text later ∧
      (captured 1 [identifier]).Leads ⟨later, []⟩ reached := by
  obtain ⟨_, ⟨margin, first, blank, overMargin, rfl⟩, middle, star, _,
    ⟨stretch, later, alsoBlank, overStretch, rfl⟩, leads⟩ := leads
  rcases star with star | rfl
  · obtain ⟨second, overStar, rfl⟩ := leads_literal star
    exact ⟨⟨margin, some stretch, blank, by simpa using alsoBlank, .inr (by simp)⟩, later,
      overMargin.append (overStar.append overStretch), leads⟩
  · have passes := overMargin.append overStretch
    have apart : margin ++ stretch ≠ [] := by
      -- The name would follow the word without anything between them.
      intro nothing
      rw [nothing] at passes
      cases passes
      obtain ⟨d, rest, ahead, alsoPart⟩ := exists_head_of_leads leads
      rw [Place.not_identifier_of_atWordEdge edge before (ahead ▸ rfl) alsoPart] at part
      cases part
    refine ⟨⟨margin ++ stretch, none, List.forall_mem_append.mpr ⟨blank, alsoBlank⟩, by simp,
      .inl apart⟩, later, ?_, leads⟩
    simpa [Joint.text, Joint.starText] using passes

namespace ExportedDeclaration

variable (declaration : ExportedDeclaration)

theorem prefers_kind {place later : Place}
    (passes : place.Passes declaration.kind.toList later) :
    (oneWordOf exportedKinds).Prefers ⟨place, []⟩ ⟨later, []⟩ := by
  have apart : ∀ kind ∈ exportedKinds, ∀ other ∈ exportedKinds, other ≠ kind →
      ¬other.toList <+: kind.toList := by
    decide
  refine @Prefers.anyOf ⟨place, []⟩ ⟨later, []⟩ String literal exportedKinds declaration.kind
    (prefers_literal passes) declaration.known ?_
  intro other known differs reached leads
  obtain ⟨behind, overOther, -⟩ := leads_literal leads
  have begins : other.toList <+: place.rest := ⟨_, overOther.rest_eq.symm⟩
  have alsoBegins : declaration.kind.toList <+: place.rest := ⟨_, passes.rest_eq.symm⟩
  rcases List.prefix_or_prefix_of_prefix begins alsoBegins with shorter | longer
  · exact apart _ declaration.known _ known differs shorter
  · exact apart _ known _ declaration.known (Ne.symm differs) longer

/-- The words in front of the name are gone over in one way. -/
theorem exists_prefers_heading {place : Place} (ahead : place.rest = declaration.tail)
    (before : place.before = declaration.before.getLast?) :
    ∃ later, place.Passes (spell declaration.heading) later ∧
      later.rest = declaration.name ++ declaration.after ∧
      ∀ {reached : Progress}, (captured 1 [identifier]).Prefers ⟨later, []⟩ reached →
        exportedDeclaration.Prefers ⟨place, []⟩ reached := by
  have kindIsWord := isWord_of_mem_kinds _ declaration.known
  have kindSolid : ∀ c ∈ declaration.kind.toList, isBlank c = false := fun c member =>
    isBlank_of_isIdentifierChar (kindIsWord.solid c member)
  have distinctKinds : ∀ kind ∈ exportedKinds, ∀ word ∈ exportModifiers,
      kind.toList ≠ word.toList := by
    decide
  obtain ⟨initial, others, spelled⟩ := List.exists_cons_of_ne_nil declaration.notEmpty
  have initialPart := declaration.solid initial (spelled ▸ List.mem_cons_self)
  rw [tail_eq] at ahead
  have edge : place.atWordEdge = true :=
    Place.atWordEdge_of_begins (before ▸ declaration.begins) (ahead ▸ rfl)
      (show isIdentifierChar 'e' = true by decide)
  obtain ⟨first, overExport, ahead, prefersExport⟩ :=
    exists_prefers_literal [] (show "export".toList = exportWord from rfl) _ ahead
  obtain ⟨second, overGap, ahead, prefersGap⟩ :=
    exists_prefers_someOf [] declaration.gap.text _ ahead declaration.gap.notEmpty
      declaration.gap.blank (head_wordsText declaration.isWord_of_mem_words
        (head_append_of_ne_nil kindIsWord.1 kindSolid _))
  obtain ⟨third, overWords, ahead⟩ := Place.exists_passes _ _ ahead
  have begins : ∀ c ∈ third.rest.head?, isBlank c = false := by
    rw [ahead]
    exact head_append_of_ne_nil kindIsWord.1 kindSolid _
  have foreign : ∀ word ∈ exportModifiers,
      third.rest.takeWhile isIdentifierChar ≠ word.toList := by
    rw [ahead, takeWhile_append_of_head kindIsWord.solid (declaration.joint.head_append _)]
    exact distinctKinds _ declaration.known
  obtain ⟨fourth, overKind, ahead⟩ := Place.exists_passes _ _ ahead
  have kindEdge : fourth.atWordEdge = true := by
    obtain ⟨c, beforeKind, part⟩ := overKind.exists_before kindIsWord
    exact Place.atWordEdge_of_ends beforeKind part (ahead ▸ declaration.joint.head_append _)
  rw [spelled, List.cons_append] at ahead
  obtain ⟨later, overJoint, ahead, prefersJoint⟩ :=
    declaration.joint.exists_prefers ahead initialPart
  refine ⟨later, ?_, ?_, fun prefers => ?_⟩
  · have passes := overExport.append (overGap.append (overWords.append (overKind.append overJoint)))
    simpa [heading, wordsText, spell] using passes
  · rw [ahead, spelled, List.cons_append]
  · have declared : declaredPart.Prefers ⟨third, []⟩ _ :=
      (declaration.prefers_kind overKind).followedBy
        ((prefers_wordEdge kindEdge).followedBy (prefersJoint prefers))
    rw [exportedDeclaration_eq]
    exact (prefers_wordEdge edge).followedBy (prefersExport.followedBy (prefersGap.followedBy
      (prefers_optionalWords isWord_of_mem_modifiers (by decide) declaration.ordered overWords
        foreign begins declared)))

/-- At the beginning of a declaration the pattern matches it, and takes its name. -/
theorem exists_matchAt? {text : Text} {place : Place} (inside : place.IsIn text)
    (ahead : place.rest = declaration.tail) (before : place.before = declaration.before.getLast?) :
    ∃ found, exportedDeclaration.matchAt? place = some found ∧ found.text 1 = declaration.name ∧
      found.stop = place.offset + byteLength (spell declaration.heading ++ declaration.name) := by
  obtain ⟨opened, overHeading, ahead, goesOn⟩ := declaration.exists_prefers_heading ahead before
  obtain ⟨later, overName, behind⟩ := Place.exists_passes _ _ ahead
  have taken := goesOn (Prefers.group (prefers_someOf overName declaration.notEmpty
    declaration.solid (behind ▸ declaration.ends)) 1)
  refine ⟨_, matchAt?_of_prefers taken, ?_, ?_⟩
  · exact overName.take_eq (inside.pass overHeading).remaining_eq
  · exact (overHeading.append overName).offset_eq

/-- A match stands for a declaration that begins where it begins. -/
theorem exists_of_matchAt? {text : Text} {place : Place} {found : Match} (inside : place.IsIn text)
    (matched : exportedDeclaration.matchAt? place = some found) :
    ∃ declaration : ExportedDeclaration, declaration.source = text ∧
      place.offset = declaration.offset := by
  rw [exportedDeclaration_eq] at matched
  obtain ⟨reached, ⟨_, ⟨edge, rfl⟩, _, word, _, space, others⟩, -⟩ :=
    exists_leads_of_matchAt? matched
  obtain ⟨first, overExport, rfl⟩ := leads_literal word
  obtain ⟨gap, second, overGap, rfl⟩ := leads_gap space
  obtain ⟨words, third, ordered, overWords, _, kindLeads, _, ⟨kindEdge, rfl⟩, behind⟩ :=
    exists_words_of_leads others
  obtain ⟨kind, known, literalLeads⟩ := leads_anyOf kindLeads
  obtain ⟨fourth, overKind, rfl⟩ := leads_literal literalLeads
  obtain ⟨c, beforeKind, part⟩ := overKind.exists_before (isWord_of_mem_kinds kind known)
  obtain ⟨joint, fifth, overJoint, named⟩ := exists_joint_of_leads beforeKind part kindEdge behind
  obtain ⟨initial, rest, ahead, initialPart⟩ := exists_head_of_leads named
  obtain ⟨before, split, offset, lastBefore⟩ := inside.exists_split
  have first : place.rest.head? = some 'e' := by
    rw [show place.rest = _ from overExport.rest_eq]
    rfl
  let declaration : ExportedDeclaration := {
    before, gap, words, kind, joint
    name := fifth.rest.takeWhile isIdentifierChar
    after := fifth.rest.dropWhile isIdentifierChar
    begins := fun c last => Place.not_identifier_of_atWordEdge edge (lastBefore.trans last) first
      (by decide)
    ordered, known
    notEmpty := by rw [ahead, List.takeWhile_cons_of_pos initialPart]; exact List.cons_ne_nil _ _
    solid := fun c => List.mem_takeWhile_imp
    ends := fun c first => by
      have stopped := List.head?_dropWhile_not isIdentifierChar fifth.rest
      rw [first] at stopped
      exact stopped }
  have tail : declaration.tail = place.rest := by
    rw [tail_eq, List.takeWhile_append_dropWhile]
    exact (overExport.rest_eq.trans <| congrArg _ <| overGap.rest_eq.trans <| congrArg _ <|
      overWords.rest_eq.trans <| congrArg _ <| overKind.rest_eq.trans <| congrArg _ <|
      overJoint.rest_eq).symm
  exact ⟨declaration, by rw [source, tail, split], offset⟩

/-- At the place of a declaration in a text the pattern takes its name. -/
theorem matchAt?_of_offset {text : Text} {place : Place} (source : declaration.source = text)
    (inside : place.IsIn text) (offset : place.offset = declaration.offset) :
    ∃ found, exportedDeclaration.matchAt? place = some found ∧ found.text 1 = declaration.name ∧
      found.stop = declaration.stop := by
  obtain ⟨passed, split, passedOffset, lastBefore⟩ := inside.exists_split
  obtain ⟨between, before, ahead⟩ := exists_between (split.symm.trans source.symm)
    (Nat.le_of_eq (passedOffset.symm.trans offset))
  have nothing : between = [] := by
    apply eq_nil_of_byteLength_eq_zero
    rw [passedOffset, ExportedDeclaration.offset, before, byteLength_append] at offset
    omega
  rw [nothing, List.append_nil] at before
  rw [nothing, List.nil_append] at ahead
  obtain ⟨found, matched, name, stop⟩ :=
    declaration.exists_matchAt? inside ahead (before ▸ lastBefore)
  refine ⟨found, matched, name, ?_⟩
  rw [stop, offset, byteLength_append, ← Nat.add_assoc]
  rfl

theorem exists_place {text : Text} (source : declaration.source = text) :
    ∃ place : Place, place.IsIn text ∧ place.offset = declaration.offset := by
  subst source
  obtain ⟨place, passes, -⟩ := Place.exists_passes declaration.before declaration.tail
    (show (Place.start declaration.source).rest = _ from rfl)
  refine ⟨place, ⟨_, passes⟩, ?_⟩
  rw [passes.offset_eq]
  exact Nat.zero_add _

/-- A declaration that begins inside another one begins at its name. -/
theorem offset_of_inside {first second : ExportedDeclaration} (same : first.source = second.source)
    (behind : first.offset < second.offset) (within : second.offset < first.stop) :
    second.offset = first.nameOffset := by
  have spelledStop : first.stop =
      byteLength first.before + byteLength (spell first.heading ++ first.name) := by
    rw [byteLength_append, ← Nat.add_assoc]
    rfl
  rw [spelledStop] at within
  simp only [nameOffset, offset] at behind within ⊢
  obtain ⟨front, split, tails⟩ := exists_between same (Nat.le_of_lt behind)
  rw [split, byteLength_append] at behind within
  rw [tail, ← List.append_assoc] at tails
  obtain ⟨back, spelled, ahead⟩ := exists_between tails.symm (by omega)
  have edge : ∀ c ∈ front.getLast?, isIdentifierChar c = false := by
    intro c last
    refine second.begins c ?_
    rw [split, List.getLast?_append, last]
    rfl
  have begins : back.head? = some 'e' := by
    cases back with
    | nil =>
        rw [spelled, List.append_nil] at within
        omega
    | cons c back =>
        rw [tail_eq] at ahead
        exact congrArg some (List.cons.inj ahead).1.symm
  rcases exists_word_of_split first.heading_spaced first.solid spelled edge begins (by decide) with
    rfl | ⟨passed, word, others, listed, rfl⟩
  · rw [split, byteLength_append]
  · cases passed with
    | nil => simp [spell] at behind
    | cons before passed =>
        -- At this place one text begins with the word and with the one that exports.
        have member : word ∈ first.heading.tail := by
          rw [listed]
          simp
        have wordBegins : word.1 <+: second.tail := by
          have rest : spell (word :: others) ++ first.name = back := by
            apply @List.append_cancel_left _ (spell (before :: passed))
            rw [← spelled, listed]
            simp [spell]
          rw [ahead, ← rest]
          simp [spell]
        have exportBegins : exportWord <+: second.tail := by
          rw [tail_eq]
          exact List.prefix_append _ _
        obtain ⟨notShorter, notLonger⟩ := first.not_export_of_mem_tail word member
        rcases List.prefix_or_prefix_of_prefix wordBegins exportBegins with shorter | longer
        · exact absurd shorter notShorter
        · exact absurd longer notLonger

end ExportedDeclaration

end JavaScript
end SourceAtlas
