import SourceAtlas.Proofs.ClassNesting
import SourceAtlas.Proofs.DeclaredNames
import SourceAtlas.Proofs.ImportLists
import SourceAtlas.Proofs.PreferredMatches

/-!
# Texts that import names from a module

A text that consists of one import of names from a module is matched as a whole, whether the
names stand in parentheses or not.  Where no line of it begins with the word `import`, nothing
else is imported, so its imports are the names in its list, each behind the module.
-/

namespace SourceAtlas

namespace NameSet

theorem eq_of_mem_iff {first second : NameSet}
    (same : ∀ name, name ∈ first.toList ↔ name ∈ second.toList) : first = second := by
  obtain ⟨names, ascending⟩ := first
  obtain ⟨others, alsoAscending⟩ := second
  have perm : names.Perm others :=
    (List.perm_ext_iff_of_nodup (ascending.imp String.ne_of_lt)
      (alsoAscending.imp String.ne_of_lt)).mpr same
  obtain rfl : names = others :=
    perm.eq_of_pairwise (fun _ _ _ _ less more => absurd less (String.lt_asymm more)) ascending
      alsoAscending
  rfl

end NameSet

namespace Text

/-- A blank is never part of an identifier. -/
theorem isIdentifierChar_of_isBlank {c : Char} (blank : isBlank c = true) :
    isIdentifierChar c = false := by
  have codes : ∀ code ∈ [9, 10, 11, 12, 13, 0x20, 0x85, 0xA0, 0x1680, 0x2000, 0x2001, 0x2002,
      0x2003, 0x2004, 0x2005, 0x2006, 0x2007, 0x2008, 0x2009, 0x200A, 0x2028, 0x2029, 0x202F,
      0x205F, 0x3000], isIdentifierChar (Char.ofNat code) = false := by
    decide +kernel
  rw [← Char.ofNat_toNat c]
  apply codes
  simp only [isBlank, Bool.or_eq_true, Bool.and_eq_true, decide_eq_true_eq, beq_iff_eq] at blank
  simp only [List.mem_cons, List.not_mem_nil, or_false]
  omega

theorem isBlank_of_isIdentifierChar {c : Char} (part : isIdentifierChar c = true) :
    isBlank c = false := by
  rw [Bool.eq_false_iff]
  intro blank
  rw [isIdentifierChar_of_isBlank blank] at part
  exact Bool.false_ne_true part

end Text

namespace Match

theorem trimmed?_getD (found : Match) (index : Nat) :
    (found.trimmed? index).getD [] = Text.trim (found.text index) := by
  rw [trimmed?]
  split
  case isTrue nothing => exact (List.isEmpty_iff.mp nothing).symm
  case isFalse => rfl

theorem trimmed?_eq_none {found : Match} {index : Nat} (absent : found.text index = []) :
    found.trimmed? index = none := by
  rw [trimmed?, absent]
  rfl

end Match

namespace Python

open Text Pattern

/-! ## Lines that begin with a word -/

/-- The word at the beginning of a line, behind its indentation. -/
def firstWord (line : Text) : Text :=
  (line.dropWhile (among " \t")).takeWhile isIdentifierChar

def importWord : Text :=
  ['i', 'm', 'p', 'o', 'r', 't']

/-- No line behind a newline begins with the word `import`. -/
def NoImportBelow (text : Text) : Prop :=
  ∀ passed rest, text = passed ++ '\n' :: rest → firstWord rest ≠ importWord

/-- No line begins with the word `import`. -/
def NoImportLine (text : Text) : Prop :=
  firstWord text ≠ importWord ∧ NoImportBelow text

theorem noImportBelow_cons {c : Char} {text : Text}
    (below : NoImportBelow text) (here : c = '\n' → firstWord text ≠ importWord) :
    NoImportBelow (c :: text) := by
  intro passed rest split
  cases passed with
  | nil =>
      obtain ⟨rfl, rfl⟩ := List.cons.inj split
      exact here rfl
  | cons d passed => exact below passed rest (List.cons.inj split).2

theorem noImportBelow_append {front text : Text} (unbroken : '\n' ∉ front)
    (below : NoImportBelow text) : NoImportBelow (front ++ text) := by
  induction front with
  | nil => exact below
  | cons c front ih =>
      rw [List.mem_cons, not_or] at unbroken
      exact noImportBelow_cons (ih unbroken.2) fun same => absurd same.symm unbroken.1

theorem noImportBelow_of_notMem {text : Text} (unbroken : '\n' ∉ text) : NoImportBelow text := by
  rintro passed rest rfl
  simp at unbroken

theorem firstWord_append {indent word rest : Text}
    (blank : ∀ c ∈ indent, among " \t" c = true)
    (solid : ∀ c ∈ word, isIdentifierChar c = true) (notEmpty : word ≠ [])
    (ends : ∀ c ∈ rest.head?, isIdentifierChar c = false) :
    firstWord (indent ++ (word ++ rest)) = word := by
  have begins : (word ++ rest).dropWhile (among " \t") = word ++ rest := by
    cases word with
    | nil => exact absurd rfl notEmpty
    | cons c word =>
        apply List.dropWhile_cons_of_neg
        intro blank
        have part := solid c List.mem_cons_self
        rw [isIdentifierChar_of_isBlank (isBlank_of_among blank).1] at part
        exact Bool.false_ne_true part
  have nothing : rest.takeWhile isIdentifierChar = [] := by
    cases rest with
    | nil => rfl
    | cons c rest => simp [ends c rfl]
  rw [firstWord, List.dropWhile_append_of_pos blank, begins, List.takeWhile_append_of_pos solid,
    nothing, List.append_nil]

theorem firstWord_word {word rest : Text} (solid : ∀ c ∈ word, isIdentifierChar c = true)
    (notEmpty : word ≠ []) (ends : ∀ c ∈ rest.head?, isIdentifierChar c = false) :
    firstWord (word ++ rest) = word := by
  have whole : firstWord ([] ++ (word ++ rest)) = word :=
    firstWord_append (List.forall_mem_nil _) solid notEmpty ends
  rwa [List.nil_append] at whole

theorem firstWord_cons {c : Char} (other : isIdentifierChar c = false) (rest : Text) :
    firstWord (c :: rest) = if among " \t" c then firstWord rest else [] := by
  rw [firstWord, List.dropWhile_cons]
  split
  · rfl
  · simp [other]

theorem importWord_solid : ∀ c ∈ importWord, isIdentifierChar c = true :=
  List.all_eq_true.mp (by decide)

theorem leads_moduleImport {place : Place} {reached : Progress}
    (leads : moduleImport.Leads ⟨place, []⟩ reached) :
    place.atLineStart = true ∧ firstWord place.rest = importWord := by
  have spelled : "import".toList = importWord := by decide
  obtain ⟨_, ⟨begins, rfl⟩, _, ⟨indent, margin, blank, overIndent, rfl⟩, _, word, _,
    ⟨_, ⟨c, later, blankBehind, overBlank, rfl⟩, -⟩, -⟩ := leads
  obtain ⟨behind, overWord, rfl⟩ := leads_literal word
  have ahead : place.rest = indent ++ (importWord ++ (c :: later.rest)) := by
    rw [← spelled]
    exact overIndent.rest_eq.trans
      (congrArg _ (overWord.rest_eq.trans (congrArg _ overBlank.rest_eq)))
  refine ⟨begins, ?_⟩
  rw [ahead]
  apply firstWord_append blank importWord_solid (by decide)
  intro d first
  obtain rfl : c = d := Option.some.inj first
  exact isIdentifierChar_of_isBlank blankBehind

/-- Modules are imported as a whole only on lines that begin with the word `import`. -/
theorem moduleImport_matchesIn {text : Text} (noImport : NoImportLine text) :
    moduleImport.matchesIn text = [] := by
  apply matchesIn_eq_nil
  intro place reached inside leads
  obtain ⟨begins, word⟩ := leads_moduleImport leads
  obtain ⟨passed, split, -, before⟩ := inside.exists_split
  rw [Place.atLineStart, before] at begins
  rcases List.eq_nil_or_concat passed with rfl | ⟨front, c, rfl⟩
  · rw [List.nil_append] at split
    exact noImport.1 (split ▸ word)
  · rw [List.concat_eq_append] at split begins
    obtain rfl : c = '\n' := by simpa using begins
    rw [List.append_assoc, List.singleton_append] at split
    exact noImport.2 front place.rest split word

/-! ## One import of names -/

/-- Whether a text can stand for a module, dots included. -/
structure IsModuleName (module : Text) : Prop where
  notEmpty : module ≠ []
  solid : ∀ c ∈ module, identifierOr "." c = true

def fromWord : Text :=
  ['f', 'r', 'o', 'm']

/-- The import of what `tail` lists from a module. -/
def fromImport (module tail : Text) : Text :=
  fromWord ++ ' ' :: (module ++ ' ' :: (importWord ++ ' ' :: tail))

theorem noImportLine_fromImport {module tail : Text} (isModule : IsModuleName module)
    (below : NoImportBelow tail) : NoImportLine (fromImport module tail) := by
  have solid : ∀ c ∈ fromWord, isIdentifierChar c = true := List.all_eq_true.mp (by decide)
  have begins : firstWord (fromImport module tail) = fromWord :=
    firstWord_word solid (by decide) (by simp; decide)
  have unbroken : '\n' ∉ module := fun member => absurd (isModule.solid _ member) (by decide)
  have space {text : Text} (below : NoImportBelow text) : NoImportBelow (' ' :: text) :=
    noImportBelow_cons below fun same => absurd same (by decide)
  constructor
  · rw [begins]
    decide
  · apply noImportBelow_append (by decide)
    apply space
    apply noImportBelow_append unbroken
    apply space
    apply noImportBelow_append (by decide)
    exact space below

/-- The part of the pattern that takes the names. -/
def namesPart : Pattern :=
  either (sequence ["(", captured 2 [run (except ")")], ")"]) (captured 3 [someOf (except "\n#")])

theorem not_isBlank_of_identifierOr {c : Char} (solid : identifierOr "." c = true) :
    isBlank c = false := by
  rw [identifierOr, Bool.or_eq_true] at solid
  rcases solid with part | dot
  · exact isBlank_of_isIdentifierChar part
  · obtain rfl : c = '.' := by simpa [among] using dot
    decide

/-- Everything in front of the names is passed over in one way, and the module is captured. -/
theorem exists_prefers_nameImport {module tail : Text} (isModule : IsModuleName module)
    (begins : ∀ c ∈ tail.head?, isBlank c = false) :
    ∃ (opened : Place) (named : Capture),
      opened.IsIn (fromImport module tail) ∧ opened.rest = tail ∧
        named.index = 1 ∧ named.text = module ∧
        ∀ reached, namesPart.Prefers ⟨opened, [named]⟩ reached →
          nameImport.Prefers ⟨Place.start (fromImport module tail), []⟩ reached := by
  have fromSpelled : "from".toList = fromWord := by decide
  have importSpelled : "import".toList = importWord := by decide
  have moduleSolid : ∀ c ∈ module, isBlank c = false := fun c member =>
    not_isBlank_of_identifierOr (isModule.solid c member)
  have importSolid : ∀ c ∈ importWord, isBlank c = false := by
    simp [importWord, isBlank]
  let start := Place.start (fromImport module tail)
  have inside : start.IsIn (fromImport module tail) := Place.isIn_start _
  have overMargin : indentation.Prefers ⟨start, []⟩ ⟨start, []⟩ := by
    apply prefers_run (.nothing start) (by simp)
    intro c first
    obtain rfl : 'f' = c := Option.some.inj first
    decide
  obtain ⟨first, overFrom, ahead, prefersFrom⟩ :=
    exists_prefers_literal [] fromSpelled _ (show start.rest = fromWord ++ _ from rfl)
  obtain ⟨second, overGap, ahead, prefersGap⟩ :=
    exists_prefers_gap [] ahead (head_append_of_ne_nil isModule.notEmpty moduleSolid _)
  obtain ⟨third, overModule, ahead, prefersModule⟩ :=
    exists_prefers_someOf [] module _ ahead isModule.notEmpty isModule.solid (by
      intro c first
      obtain rfl : ' ' = c := Option.some.inj first
      decide)
  obtain ⟨named, index, text, prefersNamed⟩ :=
    exists_prefers_group ((inside.pass overFrom).pass overGap) overModule prefersModule 1
  obtain ⟨fourth, overSecondGap, ahead, prefersSecondGap⟩ :=
    exists_prefers_gap [named] ahead (head_append_of_ne_nil (by decide) importSolid _)
  obtain ⟨fifth, overImport, ahead, prefersImport⟩ :=
    exists_prefers_literal [named] importSpelled _ ahead
  obtain ⟨opened, overThirdGap, ahead, prefersThirdGap⟩ := exists_prefers_gap [named] ahead begins
  refine ⟨opened, named, ?_, ahead, index, text, fun reached prefers => ?_⟩
  · exact (((((inside.pass overFrom).pass overGap).pass overModule).pass overSecondGap).pass
      overImport).pass overThirdGap
  · exact (prefers_lineStart rfl).followedBy (overMargin.followedBy (prefersFrom.followedBy
      (prefersGap.followedBy (prefersNamed.followedBy (prefersSecondGap.followedBy
      (prefersImport.followedBy (prefersThirdGap.followedBy prefers)))))))

/-- Whether a group of the pattern takes a list of names from a text, and all of the text is
passed over with it. -/
def NamesTaken (index : Nat) (tail list : Text) : Prop :=
  ∀ (text : Text) (opened : Place) (named : Capture), opened.IsIn text → opened.rest = tail →
    ∃ (ended : Place) (listed : Capture), ended.IsIn text ∧ ended.rest = [] ∧
      listed.index = index ∧ listed.text = list ∧
      namesPart.Prefers ⟨opened, [named]⟩ ⟨ended, [listed, named]⟩

theorem namesTaken_enclosed {list : Text} (unclosed : ')' ∉ list) :
    NamesTaken 2 ('(' :: (list ++ [')'])) list := by
  intro text opened named inside ahead
  have openSpelled : "(".toList = ['('] := by decide
  have closeSpelled : ")".toList = [')'] := by decide
  have kept : ∀ c ∈ list, except ")" c = true := except_of_notMem closeSpelled unclosed
  obtain ⟨first, overOpen, ahead, prefersOpen⟩ :=
    exists_prefers_literal [named] openSpelled _ ahead
  obtain ⟨second, overList, ahead, prefersList⟩ :=
    exists_prefers_run [named] list [')'] ahead kept (by simp [except, among])
  obtain ⟨listed, index, taken, prefersListed⟩ :=
    exists_prefers_group (inside.pass overOpen) overList prefersList 2
  obtain ⟨ended, overClose, ahead, prefersClose⟩ :=
    exists_prefers_literal [listed, named] closeSpelled [] ahead
  refine ⟨ended, listed, ?_, ahead, index, taken, ?_⟩
  · exact ((inside.pass overOpen).pass overList).pass overClose
  · exact (prefersOpen.followedBy (prefersListed.followedBy prefersClose)).either_left _

theorem namesTaken_toEnd {list : Text} (notEmpty : list ≠ []) (unopened : list.head? ≠ some '(')
    (unbroken : '\n' ∉ list) (unmarked : '#' ∉ list) : NamesTaken 3 list list := by
  intro text opened named inside ahead
  have kept : ∀ c ∈ list, except "\n#" c = true := by
    intro c member
    have inLine : c ≠ '\n' := fun same => unbroken (same ▸ member)
    have noMark : c ≠ '#' := fun same => unmarked (same ▸ member)
    simp [except, among, inLine, noMark]
  rw [← List.append_nil list] at ahead
  obtain ⟨ended, overList, ahead, prefersList⟩ :=
    exists_prefers_someOf [named] list [] ahead notEmpty kept (by simp)
  obtain ⟨listed, index, taken, prefersListed⟩ :=
    exists_prefers_group inside overList prefersList 3
  refine ⟨ended, listed, inside.pass overList, ahead, index, taken, ?_⟩
  apply prefersListed.either_right
  rintro reached ⟨_, leadsOpen, -⟩
  obtain ⟨behind, overOpen, -⟩ := leads_literal leadsOpen
  apply unopened
  rw [← List.append_nil list, ← ahead, ← overList.rest_eq, overOpen.rest_eq]
  rfl

theorem nameImport_needsText : nameImport.NeedsText := by
  intro place atEnd
  rw [Option.eq_none_iff_forall_not_mem]
  intro found matched
  obtain ⟨reached, ⟨_, ⟨-, rfl⟩, _, ⟨indent, margin, -, overIndent, rfl⟩, _, word, -⟩, -⟩ :=
    exists_leads_of_matchAt? matched
  obtain ⟨behind, overWord, -⟩ := leads_literal word
  have ahead := overIndent.rest_eq.trans (congrArg _ overWord.rest_eq)
  rw [atEnd] at ahead
  simp at ahead

/-- The names that a match brings in are those in the one list that it has taken. -/
theorem namesFrom_of_captures {listed named : Capture} (group : listed.index = 2 ∨ listed.index = 3)
    (module : named.index = 1) (start stop : Nat) :
    namesFrom ⟨start, stop, [listed, named]⟩ =
      (importedNames listed.text).map (qualified named.text) := by
  set found : Match := ⟨start, stop, [listed, named]⟩ with found_eq
  have moduleText : found.text 1 = named.text := by
    rcases group with index | index <;> simp [found_eq, Match.text, Match.capture?, index, module]
  have list : ((found.trimmed? 2).or (found.trimmed? 3)).getD [] = trim listed.text := by
    rcases group with index | index
    · have taken : found.text 2 = listed.text := by
        simp [found_eq, Match.text, Match.capture?, index]
      have absent : found.text 3 = [] := by
        simp [found_eq, Match.text, Match.capture?, index, module]
      rw [Match.trimmed?_eq_none absent, Option.or_none, Match.trimmed?_getD, taken]
    · have absent : found.text 2 = [] := by
        simp [found_eq, Match.text, Match.capture?, index, module]
      have taken : found.text 3 = listed.text := by
        simp [found_eq, Match.text, Match.capture?, index]
      rw [Match.trimmed?_eq_none absent, Option.none_or, Match.trimmed?_getD, taken]
  rw [namesFrom, list, moduleText, importedNames_trim]

/-- A text that consists of one import of names is one match. -/
theorem nameImport_matchesIn {module tail list : Text} {index : Nat}
    (isModule : IsModuleName module) (begins : ∀ c ∈ tail.head?, isBlank c = false)
    (taken : NamesTaken index tail list) (group : index = 2 ∨ index = 3) :
    (nameImport.matchesIn (fromImport module tail)).flatMap namesFrom =
      (importedNames list).map (qualified module) := by
  obtain ⟨opened, named, inside, ahead, first, moduleText, prefers⟩ :=
    exists_prefers_nameImport isModule begins
  obtain ⟨ended, listed, endInside, atEnd, second, listText, prefersNames⟩ :=
    taken _ opened named inside ahead
  have matched := matchAt?_of_prefers (prefers _ prefersNames)
  have whole : ended.offset = byteLength (fromImport module tail) := by
    obtain ⟨passed, split, offset, -⟩ := endInside.exists_split
    rw [offset, split, atEnd, List.append_nil]
  rw [matchesIn_of_whole nameImport_needsText matched whole, List.flatMap_singleton,
    namesFrom_of_captures (second ▸ group) first, moduleText, listText]

/-- The imports of a text that consists of one import of names, if no further line of it begins
with the word `import`. -/
theorem dependencies_fromImport {context : RuleContext} (lasts : context.deadline.expired = false)
    {module tail list : Text} {index : Nat} (isModule : IsModuleName module)
    (begins : ∀ c ∈ tail.head?, isBlank c = false) (taken : NamesTaken index tail list)
    (group : index = 2 ∨ index = 3) (below : NoImportBelow tail) :
    ∃ found, dependencies context (fromImport module tail) = .ok found ∧
      found.imports = NameSet.ofList ((importedNames list).map (qualified module)) := by
  have names := nameImport_matchesIn isModule begins taken group
  have noImport := noImportLine_fromImport isModule below
  generalize fromImport module tail = source at names noImport ⊢
  have read : ∃ found, dependencies context source = .ok found ∧
      found.imports = NameSet.ofList
        (((moduleImport.matchesIn source).flatMap fun found =>
          (importedNames (found.text 1)).map String.ofList) ++
            (nameImport.matchesIn source).flatMap namesFrom) := by
    simp only [dependencies, Pattern.matchesWithin_of_lasting _ lasts,
      Pattern.firstWithin_of_lasting _ lasts, blocks_of_lasting lasts]
    exact ⟨_, rfl, rfl⟩
  rwa [moduleImport_matchesIn noImport, names, List.flatMap_nil, List.nil_append] at read

end Python
end SourceAtlas
