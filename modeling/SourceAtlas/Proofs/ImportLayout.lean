import SourceAtlas.Proofs.FromImports

/-!
# The layout of an import

The names that are imported from a module may stand in parentheses, spread over lines, with
aliases, comments and a comma behind the last of them.  However they are laid out, no line of
theirs begins with the word `import`.
-/

namespace SourceAtlas
namespace Python

open Text Pattern

/-! ## Imports in parentheses -/

/-- A name that can be imported.  The word `import` is reserved. -/
structure Identifier where
  text : Text
  notEmpty : text ≠ []
  solid : ∀ c ∈ text, isIdentifierChar c = true
  notReserved : text ≠ importWord

/-- What may stand around words inside parentheses: a blank, or a comment up to the end of its
line. -/
inductive Filler where
  | blank (c : Char) (isBlank : isBlank c = true)
  | comment (text : Text) (unbroken : '\n' ∉ text) (unclosed : ')' ∉ text)

def Filler.text : Filler → Text
  | blank c _ => [c]
  | comment text _ _ => '#' :: (text ++ ['\n'])

def Filler.isComment : Filler → Bool
  | blank _ _ => false
  | comment _ _ _ => true

def fillerText (fillers : List Filler) : Text :=
  fillers.flatMap Filler.text

/-- What divides two words. -/
structure Gap where
  first : Filler
  others : List Filler

def Gap.fillers (gap : Gap) : List Filler :=
  gap.first :: gap.others

def asWord : Text :=
  ['a', 's']

/-- The name that an imported name is given. -/
structure Alias where
  before : Gap
  behind : Gap
  name : Identifier

def Alias.text (renamed : Alias) : Text :=
  fillerText renamed.before.fillers ++
    (asWord ++ (fillerText renamed.behind.fillers ++ renamed.name.text))

/-- A name in an import, with what stands around it. -/
structure ImportEntry where
  front : List Filler
  name : Identifier
  renamed : Option Alias
  back : List Filler

namespace ImportEntry

/-- What follows the name, up to the next comma or parenthesis. -/
def tail (entry : ImportEntry) : Text :=
  entry.renamed.elim [] Alias.text ++ fillerText entry.back

def text (entry : ImportEntry) : Text :=
  fillerText entry.front ++ (entry.name.text ++ entry.tail)

def fillers (entry : ImportEntry) : List Filler :=
  entry.front ++
    entry.renamed.elim [] (fun renamed => renamed.before.fillers ++ renamed.behind.fillers) ++
    entry.back

end ImportEntry

/-- An import of names from a module, laid out in parentheses.  What follows a comma behind the
last name is `trailing`. -/
structure ImportLayout where
  module : Text
  isModule : IsModuleName module
  first : ImportEntry
  others : List ImportEntry
  trailing : Option (List Filler)

namespace ImportLayout

def entries (layout : ImportLayout) : List ImportEntry :=
  layout.first :: layout.others

def names (layout : ImportLayout) : List Text :=
  layout.entries.map (·.name.text)

def fillers (layout : ImportLayout) : List Filler :=
  layout.entries.flatMap ImportEntry.fillers ++ layout.trailing.getD []

/-- What the commas of the layout divide. -/
def pieces (layout : ImportLayout) : List Text :=
  layout.entries.map ImportEntry.text ++ (layout.trailing.map fillerText).toList

def list (layout : ImportLayout) : Text :=
  [','].intercalate layout.pieces

def source (layout : ImportLayout) : Text :=
  fromImport layout.module ('(' :: (layout.list ++ [')']))

end ImportLayout

/-! ## Imports on one line -/

def space : Filler :=
  .blank ' ' (by decide)

def Alias.plain (renamed : Alias) : Alias :=
  ⟨⟨space, []⟩, ⟨space, []⟩, renamed.name⟩

def ImportEntry.plain (front : List Filler) (entry : ImportEntry) : ImportEntry :=
  ⟨front, entry.name, entry.renamed.map Alias.plain, []⟩

/-- The same import with single spaces only, behind commas and around `as`. -/
def ImportLayout.plain (layout : ImportLayout) : ImportLayout :=
  { layout with
    first := layout.first.plain []
    others := layout.others.map (·.plain [space])
    trailing := none }

def ImportLayout.singleLine (layout : ImportLayout) : Text :=
  fromImport layout.module layout.plain.list

/-! ## Words and fillers -/

def Uncommented (fillers : List Filler) : Prop :=
  ∀ filler ∈ fillers, filler.isComment = false

instance (fillers : List Filler) : Decidable (Uncommented fillers) :=
  inferInstanceAs (Decidable (∀ filler ∈ fillers, filler.isComment = false))

theorem asWord_solid : ∀ c ∈ asWord, isIdentifierChar c = true :=
  List.all_eq_true.mp (by decide)

theorem fillerText_cons (filler : Filler) (fillers : List Filler) :
    fillerText (filler :: fillers) = filler.text ++ fillerText fillers :=
  List.flatMap_cons

theorem Uncommented.isBlank {fillers : List Filler} (uncommented : Uncommented fillers) :
    ∀ c ∈ fillerText fillers, isBlank c = true := by
  intro c member
  obtain ⟨filler, listed, inText⟩ := List.mem_flatMap.mp member
  cases filler with
  | blank d blank =>
      obtain rfl : c = d := by simpa [Filler.text] using inText
      exact blank
  | comment text unbroken unclosed =>
      exact absurd (uncommented _ listed) (by simp [Filler.isComment])

theorem exists_mark_of_commented {fillers : List Filler} (commented : ¬Uncommented fillers) :
    ∃ margin rest, (∀ c ∈ margin, Text.isBlank c = true) ∧
      fillerText fillers = margin ++ '#' :: rest := by
  induction fillers with
  | nil => exact absurd (by simp [Uncommented]) commented
  | cons filler fillers ih =>
      cases filler with
      | blank d blank =>
          have further : ¬Uncommented fillers := by
            simpa [Uncommented, Filler.isComment] using commented
          obtain ⟨margin, rest, blanks, split⟩ := ih further
          refine ⟨d :: margin, rest, ?_, ?_⟩
          · simpa [blank] using blanks
          · rw [fillerText_cons, split]
            rfl
      | comment text unbroken unclosed =>
          exact ⟨[], (text ++ ['\n']) ++ fillerText fillers, by simp, by
            rw [fillerText_cons]; rfl⟩

theorem Filler.text_head (filler : Filler) :
    ∃ c rest, filler.text = c :: rest ∧ (Text.isBlank c = true ∨ c = '#') := by
  cases filler with
  | blank c blank => exact ⟨c, [], rfl, .inl blank⟩
  | comment text unbroken unclosed => exact ⟨'#', text ++ ['\n'], rfl, .inr rfl⟩

theorem Filler.unclosed (filler : Filler) : ')' ∉ filler.text := by
  cases filler with
  | blank c blank =>
      rw [Filler.text, List.mem_singleton]
      rintro rfl
      exact absurd blank (by decide)
  | comment text unbroken unclosed => simpa [Filler.text] using unclosed

theorem fillerText_head {fillers : List Filler} :
    ∀ c ∈ (fillerText fillers).head?, Text.isBlank c = true ∨ c = '#' := by
  cases fillers with
  | nil => simp [fillerText]
  | cons filler fillers =>
      obtain ⟨d, rest, text, kind⟩ := filler.text_head
      intro c first
      rw [fillerText_cons, text] at first
      obtain rfl : d = c := Option.some.inj first
      exact kind

/-! ## Lines of a layout -/

/-- Whether a word ends in front of a text. -/
def EndsWord (rest : Text) : Prop :=
  ∀ c ∈ rest.head?, isIdentifierChar c = false

theorem endsWord_cons {c : Char} (other : isIdentifierChar c = false) (rest : Text) :
    EndsWord (c :: rest) := by
  intro d first
  obtain rfl : c = d := Option.some.inj first
  exact other

theorem endsWord_filler (filler : Filler) (rest : Text) : EndsWord (filler.text ++ rest) := by
  obtain ⟨c, behind, text, kind⟩ := filler.text_head
  rw [text]
  apply endsWord_cons
  rcases kind with blank | rfl
  · exact isIdentifierChar_of_isBlank blank
  · decide

theorem endsWord_fillers {rest : Text} (ends : EndsWord rest) (fillers : List Filler) :
    EndsWord (fillerText fillers ++ rest) := by
  cases fillers with
  | nil => exact ends
  | cons filler fillers =>
      rw [fillerText_cons, List.append_assoc]
      exact endsWord_filler filler _

theorem endsWord_gap (gap : Gap) (rest : Text) : EndsWord (fillerText gap.fillers ++ rest) := by
  rw [Gap.fillers, fillerText_cons, List.append_assoc]
  exact endsWord_filler gap.first _

theorem noImportLine_cons {c : Char} (other : isIdentifierChar c = false) {rest : Text}
    (noImport : NoImportLine rest) : NoImportLine (c :: rest) := by
  refine ⟨?_, noImportBelow_cons noImport.2 fun _ => noImport.1⟩
  rw [firstWord_cons other]
  split
  · exact noImport.1
  · exact (List.cons_ne_nil _ _).symm

theorem noImportLine_word {word rest : Text} (notEmpty : word ≠ [])
    (solid : ∀ c ∈ word, isIdentifierChar c = true) (other : word ≠ importWord)
    (ends : EndsWord rest) (noImport : NoImportLine rest) : NoImportLine (word ++ rest) := by
  have unbroken : '\n' ∉ word := fun member => absurd (solid _ member) (by decide)
  refine ⟨?_, noImportBelow_append unbroken noImport.2⟩
  rwa [firstWord_word solid notEmpty ends]

theorem noImportLine_filler (filler : Filler) {rest : Text} (noImport : NoImportLine rest) :
    NoImportLine (filler.text ++ rest) := by
  cases filler with
  | blank c blank => exact noImportLine_cons (isIdentifierChar_of_isBlank blank) noImport
  | comment text unbroken unclosed =>
      have split : (Filler.comment text unbroken unclosed).text ++ rest =
          '#' :: (text ++ '\n' :: rest) := by
        simp [Filler.text]
      rw [split]
      -- The comment may begin with any word, but its line begins with the mark.
      constructor
      · rw [firstWord_cons (by decide), if_neg (by decide)]
        exact (List.cons_ne_nil _ _).symm
      · apply noImportBelow_cons _ fun same => absurd same (by decide)
        exact noImportBelow_append unbroken (noImportBelow_cons noImport.2 fun _ => noImport.1)

theorem noImportLine_fillers (fillers : List Filler) {rest : Text} (noImport : NoImportLine rest) :
    NoImportLine (fillerText fillers ++ rest) := by
  induction fillers with
  | nil => exact noImport
  | cons filler fillers ih =>
      rw [fillerText_cons, List.append_assoc]
      exact noImportLine_filler filler ih

theorem noImportLine_identifier (name : Identifier) {rest : Text} (ends : EndsWord rest)
    (noImport : NoImportLine rest) : NoImportLine (name.text ++ rest) :=
  noImportLine_word name.notEmpty name.solid name.notReserved ends noImport

theorem Alias.noImportLine (renamed : Alias) {rest : Text} (ends : EndsWord rest)
    (noImport : NoImportLine rest) : NoImportLine (renamed.text ++ rest) := by
  simp only [Alias.text, List.append_assoc]
  apply noImportLine_fillers
  apply noImportLine_word (by decide) asWord_solid (by decide) (endsWord_gap renamed.behind _)
  apply noImportLine_fillers
  exact noImportLine_identifier renamed.name ends noImport

theorem ImportEntry.tail_endsWord (entry : ImportEntry) {rest : Text} (ends : EndsWord rest) :
    EndsWord (entry.tail ++ rest) := by
  rw [ImportEntry.tail, List.append_assoc]
  cases entry.renamed with
  | none => exact endsWord_fillers ends entry.back
  | some renamed =>
      simp only [Option.elim_some, Alias.text, List.append_assoc]
      exact endsWord_gap renamed.before _

theorem ImportEntry.noImportLine (entry : ImportEntry) {rest : Text} (ends : EndsWord rest)
    (noImport : NoImportLine rest) : NoImportLine (entry.text ++ rest) := by
  rw [ImportEntry.text, List.append_assoc, List.append_assoc]
  apply noImportLine_fillers
  apply noImportLine_identifier entry.name (entry.tail_endsWord ends)
  rw [ImportEntry.tail, List.append_assoc]
  have behind := noImportLine_fillers entry.back noImport
  cases entry.renamed with
  | none => exact behind
  | some renamed => exact renamed.noImportLine (endsWord_fillers ends entry.back) behind

/-- The pieces of a layout, with commas between them, begin no line with the word `import` if
none of them does so in front of a comma or parenthesis. -/
theorem noImportLine_intercalate {pieces : List Text} {rest : Text} (ends : EndsWord rest)
    (noImport : NoImportLine rest)
    (each : ∀ piece ∈ pieces, ∀ rest, EndsWord rest → NoImportLine rest →
      NoImportLine (piece ++ rest)) :
    NoImportLine ([','].intercalate pieces ++ rest) := by
  induction pieces with
  | nil => exact noImport
  | cons piece pieces ih =>
      obtain ⟨here, further⟩ := List.forall_mem_cons.mp each
      cases pieces with
      | nil =>
          rw [List.intercalate_singleton]
          exact here rest ends noImport
      | cons next pieces =>
          rw [List.intercalate_cons_cons, List.append_assoc, List.append_assoc]
          exact here _ (endsWord_cons (by decide) _) (noImportLine_cons (by decide) (ih further))

theorem ImportLayout.noImportLine (layout : ImportLayout) {rest : Text} (ends : EndsWord rest)
    (noImport : NoImportLine rest) : NoImportLine (layout.list ++ rest) := by
  apply noImportLine_intercalate ends noImport
  intro piece member rest ends noImport
  simp only [pieces, List.mem_append, List.mem_map, Option.mem_toList, Option.map_eq_some_iff]
    at member
  rcases member with ⟨entry, -, rfl⟩ | ⟨fillers, -, rfl⟩
  · exact entry.noImportLine ends noImport
  · exact noImportLine_fillers fillers noImport

/-! ## Characters of a layout -/

theorem mem_intercalate {c : Char} {pieces : List Text}
    (member : c ∈ [','].intercalate pieces) : c = ',' ∨ ∃ piece ∈ pieces, c ∈ piece := by
  induction pieces with
  | nil => simp at member
  | cons piece pieces ih =>
      cases pieces with
      | nil =>
          rw [List.intercalate_singleton] at member
          exact .inr ⟨piece, List.mem_cons_self, member⟩
      | cons next pieces =>
          rw [List.intercalate_cons_cons, List.mem_append, List.mem_append,
            List.mem_singleton] at member
          rcases member with (here | comma) | further
          · exact .inr ⟨piece, List.mem_cons_self, here⟩
          · exact .inl comma
          · rcases ih further with comma | ⟨other, listed, inOther⟩
            · exact .inl comma
            · exact .inr ⟨other, List.mem_cons_of_mem _ listed, inOther⟩

theorem ImportEntry.mem_tail {entry : ImportEntry} {c : Char} (member : c ∈ entry.tail) :
    isIdentifierChar c = true ∨ ∃ filler ∈ entry.fillers, c ∈ filler.text := by
  rw [tail, List.mem_append] at member
  rcases member with inAlias | inBack
  · cases known : entry.renamed with
    | none => simp [known] at inAlias
    | some renamed =>
        simp only [known, Option.elim_some, Alias.text, List.mem_append] at inAlias
        rcases inAlias with inGap | inWord | inGap | inName
        · obtain ⟨filler, listed, inText⟩ := List.mem_flatMap.mp inGap
          exact .inr ⟨filler, by simp [fillers, known, listed], inText⟩
        · exact .inl (asWord_solid c inWord)
        · obtain ⟨filler, listed, inText⟩ := List.mem_flatMap.mp inGap
          exact .inr ⟨filler, by simp [fillers, known, listed], inText⟩
        · exact .inl (renamed.name.solid c inName)
  · obtain ⟨filler, listed, inText⟩ := List.mem_flatMap.mp inBack
    exact .inr ⟨filler, by simp [fillers, listed], inText⟩

theorem ImportEntry.mem_text {entry : ImportEntry} {c : Char} (member : c ∈ entry.text) :
    isIdentifierChar c = true ∨ ∃ filler ∈ entry.fillers, c ∈ filler.text := by
  rw [text, List.mem_append, List.mem_append] at member
  rcases member with inFront | inName | inTail
  · obtain ⟨filler, listed, inText⟩ := List.mem_flatMap.mp inFront
    exact .inr ⟨filler, by simp [fillers, listed], inText⟩
  · exact .inl (entry.name.solid c inName)
  · exact mem_tail inTail

theorem ImportLayout.mem_list {layout : ImportLayout} {c : Char} (member : c ∈ layout.list) :
    c = ',' ∨ isIdentifierChar c = true ∨ ∃ filler ∈ layout.fillers, c ∈ filler.text := by
  rcases mem_intercalate member with comma | ⟨piece, listed, inPiece⟩
  · exact .inl comma
  · right
    simp only [pieces, List.mem_append, List.mem_map, Option.mem_toList,
      Option.map_eq_some_iff] at listed
    rcases listed with ⟨entry, isEntry, rfl⟩ | ⟨trailing, known, rfl⟩
    · rcases ImportEntry.mem_text inPiece with solid | ⟨filler, around, inText⟩
      · exact .inl solid
      · refine .inr ⟨filler, ?_, inText⟩
        exact List.mem_append_left _ (List.mem_flatMap.mpr ⟨entry, isEntry, around⟩)
    · obtain ⟨filler, isTrailing, inText⟩ := List.mem_flatMap.mp inPiece
      exact .inr ⟨filler, by simp [fillers, known, isTrailing], inText⟩

theorem ImportLayout.unclosed (layout : ImportLayout) : ')' ∉ layout.list := by
  intro member
  rcases mem_list member with comma | solid | ⟨filler, -, inText⟩
  · exact absurd comma (by decide)
  · exact absurd solid (by decide)
  · exact filler.unclosed inText

/-! ## The plain layout -/

theorem ImportEntry.plain_fillers (entry : ImportEntry) {front : List Filler}
    (spaces : ∀ filler ∈ front, filler = space) :
    ∀ filler ∈ (entry.plain front).fillers, filler = space := by
  intro filler listed
  rw [plain, fillers, List.append_nil, List.mem_append] at listed
  rcases listed with inFront | inAlias
  · exact spaces filler inFront
  · cases known : entry.renamed with
    | none => simp [known] at inAlias
    | some renamed => simpa [known, Alias.plain, Gap.fillers] using inAlias

namespace ImportLayout

theorem plain_names (layout : ImportLayout) : layout.plain.names = layout.names := by
  simp [names, entries, plain, ImportEntry.plain]

theorem plain_fillers (layout : ImportLayout) :
    ∀ filler ∈ layout.plain.fillers, filler = space := by
  intro filler listed
  have inEntry : ∃ entry ∈ layout.plain.entries, filler ∈ entry.fillers := by
    simpa [fillers, plain] using listed
  obtain ⟨entry, isEntry, inEntry⟩ := inEntry
  rw [entries, List.mem_cons] at isEntry
  rcases isEntry with rfl | isOther
  · exact layout.first.plain_fillers (by simp) filler inEntry
  · obtain ⟨other, -, rfl⟩ := List.mem_map.mp isOther
    exact other.plain_fillers (by simp) filler inEntry

theorem plain_uncommented (layout : ImportLayout) : Uncommented layout.plain.fillers := by
  intro filler listed
  rw [plain_fillers layout filler listed]
  rfl

theorem notMem_plain_list (layout : ImportLayout) {c : Char} (notComma : c ≠ ',')
    (notSpace : c ≠ ' ') (other : isIdentifierChar c = false) : c ∉ layout.plain.list := by
  intro member
  rcases mem_list member with comma | part | ⟨filler, listed, inText⟩
  · exact notComma comma
  · rw [part] at other
    exact Bool.false_ne_true other.symm
  · rw [plain_fillers layout filler listed, space, Filler.text, List.mem_singleton] at inText
    exact notSpace inText

/-- The plain layout begins with the first name. -/
theorem plain_list_head (layout : ImportLayout) :
    ∃ c rest, layout.plain.list = c :: rest ∧ isIdentifierChar c = true := by
  have begins : ∃ rest, layout.plain.list = layout.first.name.text ++ rest := by
    have first : layout.plain.first.text =
        layout.first.name.text ++ (layout.first.plain []).tail := rfl
    rw [list, pieces, entries, List.map_cons, List.cons_append, first]
    generalize layout.plain.others.map ImportEntry.text ++ _ = further
    cases further with
    | nil => exact ⟨_, List.intercalate_singleton⟩
    | cons next further =>
        rw [List.intercalate_cons_cons, List.append_assoc, List.append_assoc]
        exact ⟨_, rfl⟩
  obtain ⟨rest, split⟩ := begins
  cases name : layout.first.name.text with
  | nil => exact absurd name layout.first.name.notEmpty
  | cons c behind =>
      refine ⟨c, behind ++ rest, ?_, ?_⟩
      · rw [split, name, List.cons_append]
      · exact layout.first.name.solid c (name ▸ List.mem_cons_self)

end ImportLayout

end Python
end SourceAtlas
