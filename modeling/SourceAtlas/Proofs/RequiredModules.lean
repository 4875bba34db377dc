import SourceAtlas.Manifest.GoModule
import SourceAtlas.Proofs.CompactText
import SourceAtlas.Proofs.ScannedText
import SourceAtlas.Proofs.TextLines

/-!
# Requirements of a module

A module states what it requires in lines of their own or in blocks of lines.  Each form has its
pattern, and both patterns go over the whole text.  Each takes the parts of its own form and passes
over all others, so a requirement counts alike in either form.
-/

namespace SourceAtlas

namespace Text

theorem fields_append_cons {c : Char} (blank : isBlank c = true) (front back : Text) :
    fields (front ++ c :: back) = fields front ++ fields back := by
  simp only [fields, splitWhere_eq_splitOnP]
  rw [List.splitOnP_append_cons front back blank, List.filter_append]

theorem fields_of_solid {word : Text} (notEmpty : word ≠ [])
    (solid : ∀ c ∈ word, isBlank c = false) : fields word = [word] := by
  rw [fields, splitWhere_eq_splitOnP, List.splitOnP_eq_singleton solid]
  simp [notEmpty]

end Text

namespace Manifest
namespace GoModule

open Text Pattern

def requireWord : Text :=
  ['r', 'e', 'q', 'u', 'i', 'r', 'e']

def commentMark : Text :=
  ['/', '/']

/-! ## Requirements as text -/

/-- A name or a version. -/
structure Word where
  text : Text
  notEmpty : text ≠ []
  solid : ∀ c ∈ text, isBlank c = false
  unopened : '(' ∉ text
  unmarked : ¬commentMark <:+: text

structure Requirement where
  name : Word
  version : Word

namespace Requirement

def text (requirement : Requirement) : Text :=
  requirement.name.text ++ ' ' :: requirement.version.text

def entry (requirement : Requirement) : String :=
  GoModule.entry (String.ofList requirement.name.text) (String.ofList requirement.version.text)

end Requirement

/-- A requirement in a block, with the comment behind it. -/
structure BlockLine where
  requirement : Requirement
  comment : Option Text
  unbroken : ∀ remark ∈ comment, '\n' ∉ remark

namespace BlockLine

def remark (line : BlockLine) : Text :=
  match line.comment with
  | some comment => ' ' :: (commentMark ++ comment)
  | none => []

def text (line : BlockLine) : Text :=
  '\t' :: (line.requirement.text ++ line.remark)

end BlockLine

/-- What stands between the opening parenthesis of a block and the closing one. -/
def blockText (lines : List BlockLine) : Text :=
  '\n' :: lines.flatMap (·.text ++ ['\n'])

/-- A part of the description of a module. -/
inductive Part where
  | single (requirement : Requirement)
  | block (lines : List BlockLine)
  | other (line : Text) (unbroken : '\n' ∉ line) (foreign : ¬requireWord <+: line)

namespace Part

def text : Part → Text
  | single requirement => requireWord ++ ' ' :: requirement.text ++ ['\n']
  | block lines => requireWord ++ [' ', '('] ++ blockText lines ++ [')'] ++ ['\n']
  | other line _ _ => line ++ ['\n']

def requirements : Part → List Requirement
  | single requirement => [requirement]
  | block lines => lines.map (·.requirement)
  | other _ _ _ => []

end Part

def description (parts : List Part) : Text :=
  parts.flatMap Part.text

/-! ## Lines of a block -/

theorem Word.avoids (word : Word) : Avoids commentMark (word.text ++ [' ']) := by
  intro front back rest split notEmpty begins
  -- Behind a mark inside the word and the space, at least the space follows.
  obtain ⟨init, last, rfl⟩ : ∃ init last, back = init ++ [last] :=
    ⟨back.dropLast, back.getLast notEmpty, (List.dropLast_append_getLast notEmpty).symm⟩
  rw [← List.append_assoc] at split
  obtain ⟨same, ends⟩ := List.append_inj' split rfl
  obtain rfl : ' ' = last := by simpa using ends
  have marked : commentMark <+: init := by
    match init with
    | [] => simp [commentMark] at begins
    | [c] => simp [commentMark] at begins
    | c :: d :: init => simpa [commentMark] using begins
  obtain ⟨further, rfl⟩ := marked
  exact word.unmarked ⟨front, further, by rw [same, List.append_assoc]⟩

theorem Word.newline_notMem (word : Word) : '\n' ∉ word.text := by
  intro member
  exact absurd (word.solid _ member) (by decide)

theorem Word.isName (word : Word) : ∀ c ∈ word.text, (!isBlank c && c != '(') = true := by
  intro c member
  have differs : c ≠ '(' := by
    rintro rfl
    exact word.unopened member
  simp [word.solid c member, differs]

theorem Requirement.newline_notMem (requirement : Requirement) : '\n' ∉ requirement.text := by
  simp [text, requirement.name.newline_notMem, requirement.version.newline_notMem]

namespace BlockLine

theorem newline_notMem (line : BlockLine) : '\n' ∉ line.text := by
  have inRemark : '\n' ∉ line.remark := by
    unfold remark
    split
    case h_1 comment present => simpa [commentMark] using line.unbroken comment present
    case h_2 => exact List.not_mem_nil
  simp [text, line.requirement.newline_notMem, inRemark]

theorem fields_withoutComment (line : BlockLine) :
    fields (withoutComment line.text) =
      [line.requirement.name.text, line.requirement.version.text] := by
  obtain ⟨⟨name, version⟩, comment, unbroken⟩ := line
  have front : Avoids commentMark ('\t' :: (name.text ++ [' '])) :=
    @Avoids.append commentMark ['\t'] _ (avoids_of_notMem (by decide)) name.avoids
  have firstWord (rest : Text) : fields ('\t' :: (name.text ++ ' ' :: rest)) =
      name.text :: fields rest := by
    rw [fields_cons_of_blank (by decide), fields_append_cons (by decide),
      fields_of_solid name.notEmpty name.solid, List.singleton_append]
  have secondWord : fields version.text = [version.text] :=
    fields_of_solid version.notEmpty version.solid
  cases comment with
  | none =>
      have nowhere := splitAtFirst?_of_not_isInfix (front.not_isInfix_append version.unmarked)
      have whole : BlockLine.text ⟨⟨name, version⟩, none, unbroken⟩ =
          '\t' :: (name.text ++ [' ']) ++ version.text := by
        simp [text, Requirement.text, remark]
      rw [withoutComment, whole, ← commentMark, nowhere]
      simpa [secondWord] using firstWord version.text
  | some comment =>
      have first := splitAtFirst?_append (front.append version.avoids) (by decide) comment
      have whole : BlockLine.text ⟨⟨name, version⟩, some comment, unbroken⟩ =
          '\t' :: (name.text ++ [' ']) ++ (version.text ++ [' ']) ++ (commentMark ++ comment) := by
        simp [text, Requirement.text, remark]
      have behind : fields (version.text ++ [' ']) = [version.text] := by
        rw [fields_append_cons (by decide), secondWord]
        rfl
      rw [withoutComment, whole, ← commentMark, first]
      simpa [behind] using firstWord (version.text ++ [' '])

theorem lineRequirement?_text (line : BlockLine) :
    lineRequirement? line.text = some line.requirement.entry := by
  rw [lineRequirement?, line.fields_withoutComment]
  rfl

end BlockLine

theorem lines_blockText (lines : List BlockLine) :
    Text.lines (blockText lines) = [] :: (lines.map BlockLine.text ++ [[]]) := by
  have first := lines_append_cons (@List.not_mem_nil _ '\n')
    (lines.flatMap (·.text ++ ['\n']))
  refine first.trans (congrArg _ ?_)
  clear first
  induction lines with
  | nil => rfl
  | cons line lines ih =>
      rw [List.flatMap_cons, List.append_assoc, List.singleton_append,
        lines_append_cons line.newline_notMem, ih, List.map_cons, List.cons_append]

theorem filterMap_lineRequirement? (lines : List BlockLine) :
    (Text.lines (blockText lines)).filterMap lineRequirement? =
      lines.map (·.requirement.entry) := by
  have nothing : lineRequirement? [] = none := by decide
  have each : lineRequirement? ∘ BlockLine.text = fun line => some line.requirement.entry :=
    funext BlockLine.lineRequirement?_text
  rw [lines_blockText, List.filterMap_cons_none nothing, List.filterMap_append,
    List.filterMap_map, each]
  simp [nothing]

/-! ## The two patterns -/

/-- The first character of what a text requires, if it begins with the word for it. -/
def opener? (text : Text) : Option Char :=
  if requireWord.isPrefixOf text then ((text.drop requireWord.length).dropWhile isBlank).head?
  else none

section Openers

variable {place : Place} {margin rest line : Text} {c : Char}

theorem opener?_append (blank : ∀ d ∈ margin, isBlank d = true) (solid : isBlank c = false)
    (rest : Text) : opener? (requireWord ++ (margin ++ c :: rest)) = some c := by
  have begins : requireWord.isPrefixOf (requireWord ++ (margin ++ c :: rest)) = true :=
    List.isPrefixOf_iff_prefix.mpr (List.prefix_append _ _)
  rw [opener?, if_pos begins, List.drop_left, List.dropWhile_append_of_pos blank,
    List.dropWhile_cons_of_neg (by simp [solid]), List.head?_cons]

theorem opener?_space (solid : isBlank c = false) (rest : Text) :
    opener? (requireWord ++ ' ' :: c :: rest) = some c :=
  @opener?_append [' '] c (by simp [isBlank]) solid rest

theorem opener?_of_foreign (foreign : ¬requireWord <+: line) (rest : Text) :
    opener? (line ++ '\n' :: rest) = none := by
  rw [opener?, if_neg]
  rw [List.isPrefixOf_iff_prefix]
  rintro ⟨behind, split⟩
  -- The word holds no newline, so it ends before the line does.
  rcases List.append_eq_append_iff.mp split with ⟨middle, rfl, -⟩ | ⟨middle, word, newline⟩
  · exact foreign (List.prefix_append _ _)
  · cases middle with
    | nil =>
        rw [List.append_nil] at word
        exact foreign (word ▸ List.prefix_refl _)
    | cons c middle =>
        obtain ⟨rfl, -⟩ := List.cons.inj newline
        have unbroken : '\n' ∉ requireWord := by decide
        exact unbroken (word ▸ by simp)

theorem opener?_of_singleRequire {found : Match}
    (matched : singleRequire.matchAt? place = some found) :
    place.atLineStart = true ∧ ∃ c, opener? place.rest = some c ∧ c ≠ '(' := by
  obtain ⟨_, ⟨_, ⟨begins, rfl⟩, _, word, _, ⟨_, ⟨d, second, blank, overBlank, rfl⟩,
    stretch, third, blanks, overBlanks, rfl⟩, _,
    ⟨_, ⟨_, ⟨c, fourth, accepted, overFirst, rfl⟩, -⟩, -⟩, -⟩, -⟩ :=
    exists_leads_of_matchAt? matched
  obtain ⟨first, overWord, rfl⟩ := leads_literal word
  have ahead : place.rest = requireWord ++ (d :: stretch ++ c :: fourth.rest) :=
    overWord.rest_eq.trans (congrArg _ (overBlank.rest_eq.trans (congrArg _
      (overBlanks.rest_eq.trans (congrArg _ overFirst.rest_eq)))))
  simp only [Bool.and_eq_true, Bool.not_eq_true', bne_iff_ne] at accepted
  rw [ahead, opener?_append (List.forall_mem_cons.mpr ⟨blank, blanks⟩) accepted.1]
  exact ⟨begins, c, rfl, accepted.2⟩

theorem opener?_of_requireBlock {found : Match}
    (matched : requireBlock.matchAt? place = some found) :
    place.atLineStart = true ∧ opener? place.rest = some '(' := by
  obtain ⟨_, ⟨_, ⟨begins, rfl⟩, _, word, _, ⟨margin, second, blanks, overBlanks, rfl⟩, _, opens, -⟩,
    -⟩ := exists_leads_of_matchAt? matched
  obtain ⟨first, overWord, rfl⟩ := leads_literal word
  obtain ⟨third, overOpening, rfl⟩ := leads_literal opens
  have ahead : place.rest = requireWord ++ (margin ++ '(' :: third.rest) :=
    overWord.rest_eq.trans (congrArg _ (overBlanks.rest_eq.trans (congrArg _ overOpening.rest_eq)))
  rw [ahead, opener?_append blanks (by decide)]
  exact ⟨begins, rfl⟩

theorem singleRequire_beginsLines : singleRequire.BeginsLines :=
  fun _ _ matched => (opener?_of_singleRequire matched).1

theorem requireBlock_beginsLines : requireBlock.BeginsLines :=
  fun _ _ matched => (opener?_of_requireBlock matched).1

theorem singleRequire_unmatched (opens : ∀ c ∈ opener? place.rest, c = '(') :
    singleRequire.matchAt? place = none := by
  rw [Option.eq_none_iff_forall_not_mem]
  intro found matched
  obtain ⟨-, c, present, differs⟩ := opener?_of_singleRequire matched
  exact differs (opens c present)

theorem requireBlock_unmatched (opens : ∀ c ∈ opener? place.rest, c ≠ '(') :
    requireBlock.matchAt? place = none := by
  rw [Option.eq_none_iff_forall_not_mem]
  intro found matched
  exact opens '(' (opener?_of_requireBlock matched).2 rfl

end Openers

/-! ## Parts of a description -/

def readSingle (found : Match) : String :=
  GoModule.entry (found.name 1) (found.name 2)

def readBlock (found : Match) : List String :=
  (Text.lines (found.text 1)).filterMap lineRequirement?

theorem Requirement.getLast_ne (requirement : Requirement)
    (notEmpty : requireWord ++ ' ' :: requirement.text ≠ []) :
    (requireWord ++ ' ' :: requirement.text).getLast notEmpty ≠ '\n' := by
  have unbroken : '\n' ∉ requireWord ++ ' ' :: requirement.text := by
    simp [requireWord, requirement.newline_notMem]
  exact fun same => unbroken (same ▸ List.getLast_mem notEmpty)

theorem reads_single (requirement : Requirement) :
    singleRequire.Reads (·.atLineStart = true) readSingle
      (requireWord ++ ' ' :: requirement.text ++ ['\n']) [requirement.entry] ['\n'] := by
  obtain ⟨name, version⟩ := requirement
  refine Reads.of_matchedLine singleRequire_beginsLines (by simp) (Requirement.getLast_ne _ _) ?_
  intro text place rest inside started ahead
  simp only [Requirement.text, List.append_assoc, List.cons_append] at ahead
  obtain ⟨first, overWord, ahead, prefersWord⟩ :=
    exists_prefers_literal [] (show "require".toList = requireWord from rfl) _ ahead
  obtain ⟨second, overGap, ahead, prefersGap⟩ :=
    exists_prefers_gap [] ahead
      (head_append_of_ne_nil name.notEmpty name.solid _)
  obtain ⟨third, overName, ahead, prefersName⟩ :=
    @exists_prefers_someOf second [] (fun c => !isBlank c && c != '(') name.text _ ahead
      name.notEmpty name.isName (by simp [isBlank])
  obtain ⟨named, firstIndex, firstText, prefersNamed⟩ :=
    exists_prefers_group ((inside.pass overWord).pass overGap) overName prefersName 1
  obtain ⟨fourth, overSecondGap, ahead, prefersSecondGap⟩ :=
    exists_prefers_gap [named] ahead
      (head_append_of_ne_nil version.notEmpty version.solid _)
  obtain ⟨later, overVersion, -, prefersVersion⟩ :=
    @exists_prefers_someOf fourth [named] (fun c => !isBlank c) version.text _ ahead
      version.notEmpty (by simpa using version.solid) (by simp [isBlank])
  obtain ⟨versioned, secondIndex, secondText, prefersVersioned⟩ :=
    exists_prefers_group ((((inside.pass overWord).pass overGap).pass overName).pass overSecondGap)
      overVersion prefersVersion 2
  refine ⟨later, [versioned, named], ?_, ?_, ?_⟩
  · exact overWord.append (overGap.append (overName.append (overSecondGap.append overVersion)))
  · exact (prefers_lineStart started).followedBy (prefersWord.followedBy (prefersGap.followedBy
      (prefersNamed.followedBy (prefersSecondGap.followedBy prefersVersioned))))
  · simp [readSingle, Match.name, Match.text, Match.capture?, firstIndex, firstText, secondIndex,
      secondText, Requirement.entry]

theorem blockText_cons (line : BlockLine) (lines : List BlockLine) :
    blockText (line :: lines) = '\n' :: (line.text ++ blockText lines) := by
  simp [blockText]

theorem getLast?_blockText (lines : List BlockLine) : (blockText lines).getLast? = some '\n' := by
  induction lines with
  | nil => rfl
  | cons line lines ih =>
      rw [blockText_cons, List.getLast?_cons, List.getLast?_append, ih]
      rfl

/-- A line of a block begins with a tab. -/
theorem tab_behind_newline {lines : List BlockLine} {front back : Text}
    (split : blockText lines = front ++ '\n' :: back) (notEmpty : back ≠ []) :
    back.head? = some '\t' := by
  induction lines generalizing front with
  | nil =>
      cases front with
      | nil => exact absurd (List.cons.inj split).2.symm notEmpty
      | cons c front => simp [blockText] at split
  | cons line lines ih =>
      rw [blockText_cons] at split
      cases front with
      | nil =>
          rw [← (List.cons.inj split).2]
          rfl
      | cons c front =>
          have behind : line.text ++ blockText lines = front ++ '\n' :: back :=
            (List.cons.inj split).2
          rcases List.append_eq_append_iff.mp behind with ⟨middle, -, later⟩ | ⟨middle, here, later⟩
          · exact ih later
          · cases middle with
            | nil => exact @ih [] later.symm
            | cons d middle =>
                obtain ⟨rfl, -⟩ := List.cons.inj later
                exact absurd (here ▸ by simp) line.newline_notMem

/-- No line of a block begins with what closes the block. -/
theorem not_leads_closing {opened middle : Place} {lines : List BlockLine} {front back rest : Text}
    (before : opened.before = some '(') (ahead : opened.rest = blockText lines ++ rest)
    (split : blockText lines = front ++ back) (notEmpty : back ≠ [])
    (passes : opened.Passes front middle) (captures : List Capture) (reached : Progress) :
    ¬(followedBy lineStart (literal ")")).Leads ⟨middle, captures⟩ reached := by
  rintro ⟨_, ⟨begins, rfl⟩, closes⟩
  have remaining : middle.rest = back ++ rest := by
    apply @List.append_cancel_left _ front
    rw [← passes.rest_eq, ahead, split, List.append_assoc]
  have previous := passes.before_eq
  rw [before] at previous
  have tab : back.head? = some '\t' := by
    rcases List.eq_nil_or_concat front with rfl | ⟨init, c, rfl⟩
    · rw [Place.atLineStart_of_before previous] at begins
      cases begins
    · have last : middle.before = some c := by simpa using previous
      rw [Place.atLineStart_of_before last, beq_iff_eq] at begins
      subst begins
      exact tab_behind_newline (by simpa using split) notEmpty
  obtain ⟨_, overClosing, -⟩ := leads_literal closes
  cases back with
  | nil => exact notEmpty rfl
  | cons c back =>
      obtain rfl : c = '\t' := Option.some.inj tab
      rw [overClosing.rest_eq] at remaining
      cases (List.cons.inj remaining).1

theorem reads_block (lines : List BlockLine) :
    requireBlock.Reads (·.atLineStart = true) readBlock
      (requireWord ++ [' ', '('] ++ blockText lines ++ [')'] ++ ['\n'])
      [lines.map (·.requirement.entry)] ['\n'] := by
  refine Reads.of_matchedLine requireBlock_beginsLines (by simp) (by simp) ?_
  intro text place rest inside started ahead
  simp only [List.append_assoc, List.cons_append, List.nil_append] at ahead
  obtain ⟨first, overWord, ahead, prefersWord⟩ :=
    exists_prefers_literal [] (show "require".toList = requireWord from rfl) _ ahead
  obtain ⟨second, overBlank, ahead, prefersBlank⟩ :=
    @exists_prefers_run first [] isBlank [' '] _ ahead (by simp [isBlank]) (by simp [isBlank])
  obtain ⟨opened, overOpening, ahead, prefersOpening⟩ :=
    exists_prefers_literal [] (show "(".toList = ['('] from rfl)
      (blockText lines ++ ')' :: '\n' :: rest) ahead
  obtain ⟨ended, overLines, behind⟩ := Place.exists_passes (blockText lines) _ ahead
  have before : opened.before = some '(' := overOpening.before_eq
  have atEnd : ended.atLineStart = true := by
    apply @Place.atLineStart_of_before ended '\n'
    rw [overLines.before_eq, getLast?_blockText, Option.some_or]
  obtain ⟨later, overClosing, -⟩ := Place.exists_passes [')'] _ behind
  obtain ⟨taken, index, listed, prefersTaken⟩ :=
    @exists_prefers_shortest opened ended (blockText lines) text (fun _ => true)
      (followedBy lineStart (literal ")")) later (((inside.pass overWord).pass overBlank).pass
        overOpening) overLines (fun _ _ => rfl)
      (fun _ _ _ => not_leads_closing before ahead)
      (fun _ => (prefers_lineStart atEnd).followedBy (prefers_literal overClosing)) 1 []
  refine ⟨later, [taken], ?_, ?_, ?_⟩
  · have whole := overWord.append (overBlank.append (overOpening.append (overLines.append
      overClosing)))
    simpa using whole
  · exact (prefers_lineStart started).followedBy (prefersWord.followedBy (prefersBlank.followedBy
      (prefersOpening.followedBy prefersTaken)))
  · rw [← filterMap_lineRequirement?]
    simp [readBlock, Match.text, Match.capture?, index, listed]

theorem reads_passed {pattern : Pattern} {α : Type} (read : Match → α) {line : Text}
    (begins : pattern.BeginsLines)
    (unmatched : ∀ place : Place, opener? place.rest = none → pattern.matchAt? place = none)
    (unbroken : '\n' ∉ line) (foreign : ¬requireWord <+: line) :
    pattern.Reads (·.atLineStart = true) read (line ++ ['\n']) [] (line ++ ['\n']) := by
  refine Reads.of_unmatchedLine begins unbroken (fun place rest ahead => unmatched place ?_) read
  rw [ahead, opener?_of_foreign foreign]

namespace Part

def singles : Part → List String
  | single requirement => [requirement.entry]
  | _ => []

def blocks : Part → List (List String)
  | block lines => [lines.map (·.requirement.entry)]
  | _ => []

theorem exists_reads_singles (part : Part) :
    ∃ kept, singleRequire.Reads (·.atLineStart = true) readSingle part.text part.singles kept := by
  have passed {line : Text} := @reads_passed singleRequire String readSingle line
    singleRequire_beginsLines fun place nothing => singleRequire_unmatched (by simp [nothing])
  cases part with
  | single requirement => exact ⟨_, reads_single requirement⟩
  | block lines =>
      have first := Reads.of_unmatchedLine singleRequire_beginsLines
        (show '\n' ∉ requireWord ++ [' ', '('] by decide) (fun place rest ahead => by
          apply singleRequire_unmatched
          rw [ahead, List.append_assoc]
          simp [opener?_space (show isBlank '(' = false by decide)]) readSingle
      have inner := @Reads.flatMap singleRequire String BlockLine (·.atLineStart = true) readSingle
        lines _ _ _ fun line _ =>
          passed line.newline_notMem (by simp [BlockLine.text, requireWord])
      have last := @passed [')'] (by decide) (by decide)
      have whole := first.append (inner.append last)
      have results : lines.flatMap (fun _ => ([] : List String)) = [] := by simp
      have same : requireWord ++ [' ', '('] ++ ['\n'] ++
          (lines.flatMap (·.text ++ ['\n']) ++ ([')'] ++ ['\n'])) = (block lines).text := by
        simp [text, blockText]
      rw [results, same] at whole
      exact ⟨_, whole⟩
  | other line unbroken foreign => exact ⟨_, passed unbroken foreign⟩

theorem exists_reads_blocks (part : Part) :
    ∃ kept, requireBlock.Reads (·.atLineStart = true) readBlock part.text part.blocks kept := by
  cases part with
  | single requirement =>
      obtain ⟨name, version⟩ := requirement
      refine ⟨_, Reads.of_unmatchedLine requireBlock_beginsLines ?_ (fun place rest ahead => ?_) _⟩
      · simp [requireWord, Requirement.newline_notMem]
      · apply requireBlock_unmatched
        obtain ⟨c, others, spelled⟩ := List.exists_cons_of_ne_nil name.notEmpty
        have first : c ∈ name.text := spelled ▸ List.mem_cons_self
        have opens : opener? place.rest = some c := by
          rw [ahead, Requirement.text, spelled, List.append_assoc]
          exact opener?_space (name.solid c first) _
        rw [opens]
        rintro _ ⟨⟩ rfl
        exact name.unopened first
  | block lines => exact ⟨_, reads_block lines⟩
  | other line unbroken foreign =>
      exact ⟨_, reads_passed _ requireBlock_beginsLines
        (fun place nothing => requireBlock_unmatched (by simp [nothing])) unbroken foreign⟩

end Part

theorem singles_description (parts : List Part) :
    (singleRequire.matchesIn (description parts)).map readSingle = parts.flatMap Part.singles := by
  choose kept reads using Part.exists_reads_singles
  have whole := Reads.flatMap fun (part : Part) (_ : part ∈ parts) => reads part
  refine whole.map_matchesIn rfl fun place atEnd => singleRequire_unmatched ?_
  rw [atEnd]
  simp [opener?, requireWord]

theorem blocks_description (parts : List Part) :
    (requireBlock.matchesIn (description parts)).map readBlock = parts.flatMap Part.blocks := by
  choose kept reads using Part.exists_reads_blocks
  have whole := Reads.flatMap fun (part : Part) (_ : part ∈ parts) => reads part
  refine whole.map_matchesIn rfl fun place atEnd => requireBlock_unmatched ?_
  rw [atEnd]
  simp [opener?, requireWord]

/-- The requirements of a part, as they are imported. -/
def Part.entries (part : Part) : List String :=
  part.requirements.map Requirement.entry

theorem mem_imports_description (parts : List Part) (name : String) :
    name ∈ (goModule (description parts)).imports.toList ↔ ∃ part ∈ parts, name ∈ part.entries := by
  have blocks : (requireBlock.matchesIn (description parts)).flatMap readBlock =
      (parts.flatMap Part.blocks).flatten := by
    rw [← blocks_description, List.flatMap_def]
  have imports : (goModule (description parts)).imports =
      NameSet.ofList (parts.flatMap Part.singles ++ (parts.flatMap Part.blocks).flatten) := by
    rw [← singles_description, ← blocks]
    rfl
  have either (part : Part) :
      name ∈ part.entries ↔ name ∈ part.singles ∨ name ∈ part.blocks.flatten := by
    cases part <;> simp [Part.entries, Part.requirements, Part.singles, Part.blocks]
  rw [imports, NameSet.mem_ofList]
  simp only [either, List.mem_append, List.mem_flatten, List.mem_flatMap]
  grind

theorem imports_description (parts : List Part) :
    (goModule (description parts)).imports = NameSet.ofList (parts.flatMap Part.entries) :=
  NameSet.eq_of_mem_iff fun name => by
    rw [mem_imports_description, NameSet.mem_ofList, List.mem_flatMap]

/-- Requirements in lines of their own and the same requirements in one block give the same imports,
whatever comments stand in the block.  Parts of both forms, and other lines between them, give the
imports of all parts. -/
theorem imports_of_either_form (lines : List BlockLine) (parts others : List Part) :
    (goModule (description (lines.map fun line => .single line.requirement))).imports =
        NameSet.ofList (lines.map (·.requirement.entry)) ∧
      (goModule (description [.block lines])).imports =
        NameSet.ofList (lines.map (·.requirement.entry)) ∧
      (goModule (description parts)).imports = NameSet.ofList (parts.flatMap Part.entries) ∧
      ∀ name, name ∈ (goModule (description (parts ++ others))).imports.toList ↔
        name ∈ (goModule (description parts)).imports.toList ∨
          name ∈ (goModule (description others)).imports.toList := by
  refine ⟨?_, ?_, imports_description parts, fun name => ?_⟩
  · rw [imports_description, List.flatMap_map]
    exact congrArg _ (List.flatMap_pure_eq_map _ _)
  · rw [imports_description, List.flatMap_singleton, Part.entries, Part.requirements, List.map_map]
    rfl
  · simp only [mem_imports_description, List.mem_append]
    grind

example :
    let path : Word := ⟨"x/net".toList, by decide, by simp [isBlank], by decide, by decide⟩
    let version : Word := ⟨"v1".toList, by decide, by simp [isBlank], by decide, by decide⟩
    description [.single ⟨path, version⟩, .other "go 1.21".toList (by decide) (by decide),
      .block [⟨⟨path, version⟩, some " indirect".toList, by decide⟩]] =
    "require x/net v1\ngo 1.21\nrequire (\n\tx/net v1 // indirect\n)\n".toList := by
  decide

end GoModule
end Manifest
end SourceAtlas
