import SourceAtlas.Proofs.DeclaredNames
import SourceAtlas.Proofs.ExportedDeclarations

/-!
# Exported declarations that are named by a keyword

The names of default exports are taken only if they are no keywords that begin a declaration.  The
names of exported declarations are taken as they stand, so a declaration of two keywords, such as a
constant enumeration, is exported by the second one.  A declaration is passed over only if it begins
at the name of one that is taken.
-/

namespace SourceAtlas
namespace JavaScript

open Text Pattern

/-! ## Declarations that are taken -/

namespace ExportedDeclaration

/-- Whether a match begins where the declaration begins. -/
def IsTaken (text : Text) (declaration : ExportedDeclaration) : Prop :=
  ∃ found ∈ exportedDeclaration.matchesIn text, found.start = declaration.offset

section Taken

variable {text : Text} {declaration outer : ExportedDeclaration} {found : Match}

/-- A match that begins where a declaration begins takes its name and ends behind it. -/
theorem captures_of_mem (member : found ∈ exportedDeclaration.matchesIn text)
    (source : declaration.source = text) (start : found.start = declaration.offset) :
    found.text 1 = declaration.name ∧ found.stop = declaration.stop := by
  obtain ⟨place, inside, -, matched⟩ :=
    exists_place_of_mem_matchesFrom (Place.isIn_start text) rfl member
  obtain ⟨reached, -, rfl⟩ := exists_leads_of_matchAt? matched
  obtain ⟨same, alsoMatched, captures⟩ := declaration.matchAt?_of_offset source inside start
  obtain rfl := Option.some.inj (matched.symm.trans alsoMatched)
  exact captures

theorem exists_of_mem (member : found ∈ exportedDeclaration.matchesIn text) :
    ∃ declaration : ExportedDeclaration, declaration.source = text ∧
      found.start = declaration.offset ∧ found.text 1 = declaration.name ∧
      found.stop = declaration.stop := by
  obtain ⟨place, inside, -, matched⟩ :=
    exists_place_of_mem_matchesFrom (Place.isIn_start text) rfl member
  obtain ⟨declaration, source, offset⟩ := exists_of_matchAt? inside matched
  obtain ⟨reached, -, rfl⟩ := exists_leads_of_matchAt? matched
  exact ⟨declaration, source, offset, captures_of_mem member source offset⟩

theorem IsTaken.exists_match (taken : IsTaken text declaration)
    (source : declaration.source = text) :
    ∃ found ∈ exportedDeclaration.matchesIn text, found.start = declaration.offset ∧
      found.text 1 = declaration.name ∧ found.stop = declaration.stop := by
  obtain ⟨found, member, start⟩ := taken
  exact ⟨found, member, start, captures_of_mem member source start⟩

/-- A declaration is taken unless it begins at the name of one that is taken. -/
theorem isTaken_or_inner (source : declaration.source = text) :
    IsTaken text declaration ∨ ∃ outer : ExportedDeclaration, outer.source = text ∧
      IsTaken text outer ∧ outer.nameOffset = declaration.offset := by
  obtain ⟨place, inside, offset⟩ := declaration.exists_place source
  obtain ⟨found, matched, -, -⟩ := declaration.matchAt?_of_offset source inside offset
  rcases mem_matchesIn_or_inside inside matched with member | ⟨other, member, begun, within⟩
  · obtain ⟨reached, -, rfl⟩ := exists_leads_of_matchAt? matched
    exact .inl ⟨_, member, offset⟩
  · obtain ⟨outer, outerSource, start, -, stop⟩ := exists_of_mem member
    rw [start, offset] at begun
    rw [stop, offset] at within
    exact .inr ⟨outer, outerSource, ⟨other, member, start⟩,
      (offset_of_inside (outerSource.trans source.symm) begun within).symm⟩

theorem not_isTaken_of_inner (source : declaration.source = text)
    (outerSource : outer.source = text) (outerTaken : IsTaken text outer)
    (begins : outer.nameOffset = declaration.offset) : ¬IsTaken text declaration := by
  intro taken
  obtain ⟨first, known, firstStart, -, firstStop⟩ := outerTaken.exists_match outerSource
  obtain ⟨second, alsoKnown, secondStart, -, secondStop⟩ := taken.exists_match source
  have outerName := outer.offset_lt_nameOffset
  have outerStop := outer.nameOffset_lt_stop
  have name := declaration.offset_lt_nameOffset
  have stop := declaration.nameOffset_lt_stop
  have differ : first ≠ second := by
    rintro rfl
    omega
  rcases matchesIn_apart known alsoKnown differ with before | behind <;> omega

theorem offset_eq_of_nameOffset_eq {first second : ExportedDeclaration}
    (same : first.source = second.source) (sameName : first.nameOffset = second.nameOffset) :
    first.offset = second.offset := by
  have firstName := first.offset_lt_nameOffset
  have firstStop := first.nameOffset_lt_stop
  have secondName := second.offset_lt_nameOffset
  have secondStop := second.nameOffset_lt_stop
  rcases Nat.lt_trichotomy first.offset second.offset with less | equal | greater
  · have begins := offset_of_inside same less (by omega)
    omega
  · exact equal
  · have begins := offset_of_inside same.symm greater (by omega)
    omega

/-- Whether a declaration begins at the name of one that begins at the name of another, and so on,
through as many declarations as the number says. -/
inductive Stands (text : Text) : Nat → ExportedDeclaration → Prop
  | outermost {declaration : ExportedDeclaration} (source : declaration.source = text)
      (free : ∀ outer : ExportedDeclaration, outer.source = text →
        outer.nameOffset ≠ declaration.offset) : Stands text 0 declaration
  | inner {depth : Nat} {outer declaration : ExportedDeclaration} (stands : Stands text depth outer)
      (source : declaration.source = text) (begins : outer.nameOffset = declaration.offset) :
      Stands text (depth + 1) declaration

theorem Stands.source_eq {depth : Nat} (stands : Stands text depth declaration) :
    declaration.source = text := by
  cases stands <;> assumption

theorem exists_stands (source : declaration.source = text) :
    ∃ depth, Stands text depth declaration := by
  induction size : declaration.offset using Nat.strong_induction_on generalizing declaration with
  | h size ih =>
      subst size
      by_cases free : ∀ outer : ExportedDeclaration, outer.source = text →
          outer.nameOffset ≠ declaration.offset
      · exact ⟨0, .outermost source free⟩
      · push Not at free
        obtain ⟨outer, outerSource, begins⟩ := free
        obtain ⟨depth, stands⟩ := ih outer.offset
          (begins ▸ outer.offset_lt_nameOffset) outerSource rfl
        exact ⟨depth + 1, .inner stands source begins⟩

/-- Of declarations that begin at each other's names every second one is taken. -/
theorem Stands.isTaken_iff {depth : Nat} (stands : Stands text depth declaration) :
    IsTaken text declaration ↔ depth % 2 = 0 := by
  induction stands with
  | outermost source free =>
      refine iff_of_true ?_ rfl
      rcases isTaken_or_inner source with taken | ⟨outer, outerSource, -, begins⟩
      · exact taken
      · exact absurd begins (free outer outerSource)
  | @inner depth outer declaration stands source begins ih =>
      have step : IsTaken text declaration ↔ ¬IsTaken text outer := by
        constructor
        · intro taken outerTaken
          exact not_isTaken_of_inner source stands.source_eq outerTaken begins taken
        · intro passedOver
          rcases isTaken_or_inner source with taken | ⟨other, otherSource, otherTaken, alsoBegins⟩
          · exact taken
          · have same := offset_eq_of_nameOffset_eq (otherSource.trans stands.source_eq.symm)
              (alsoBegins.trans begins.symm)
            obtain ⟨found, member, start⟩ := otherTaken
            exact absurd ⟨found, member, start.trans same⟩ passedOver
      rw [step, ih]
      omega

end Taken

end ExportedDeclaration

/-! ## Exported names -/

/-- The names of the exported declarations of a text. -/
def declaredExports (source : Text) : List String :=
  (exportedDeclaration.matchesIn source).map (·.name 1)

def listedExports (source : Text) : List String :=
  ((exportList.matchesIn source).flatMap fun found =>
    (listEntries (found.text 1)).map fun (_, shown) => String.ofList shown).filter (· != "default")

def defaultExports (source : Text) : List String :=
  ((exportedDefault.matchesIn source).map (·.name 1)).filter (!declarationKeywords.contains ·)

theorem exports_of_lasting {context : RuleContext} (lasts : context.deadline.expired = false)
    (source : Text) :
    ∃ found, dependencies context source = .ok found ∧
      found.exports = NameSet.ofList
        (declaredExports source ++ listedExports source ++ defaultExports source) := by
  simp only [dependencies, Pattern.matchesWithin_of_lasting _ lasts]
  exact ⟨_, rfl, rfl⟩

theorem mem_declaredExports_iff {source : Text} {name : String} :
    name ∈ declaredExports source ↔ ∃ depth declaration,
      ExportedDeclaration.Stands source (2 * depth) declaration ∧
        String.ofList declaration.name = name := by
  constructor
  · intro member
    obtain ⟨found, taken, rfl⟩ := List.mem_map.mp member
    obtain ⟨declaration, within, start, spelled, -⟩ := ExportedDeclaration.exists_of_mem taken
    obtain ⟨depth, stands⟩ := ExportedDeclaration.exists_stands within
    have even := stands.isTaken_iff.mp ⟨found, taken, start⟩
    obtain ⟨half, rfl⟩ := Nat.dvd_of_mod_eq_zero even
    exact ⟨half, declaration, stands, by rw [Match.name, spelled]⟩
  · rintro ⟨depth, declaration, stands, rfl⟩
    have taken := stands.isTaken_iff.mpr (Nat.mul_mod_right 2 depth)
    obtain ⟨found, member, -, spelled, -⟩ := taken.exists_match stands.source_eq
    exact List.mem_map.mpr ⟨found, member, by rw [Match.name, spelled]⟩

/-- The names of default exports are no keywords.  Those of exported declarations are none exactly
if every declaration that is named by a keyword begins at the name of one that is taken. -/
theorem exports_keywords_iff (context : RuleContext) (source : Text)
    (lasts : context.deadline.expired = false) :
    ∃ found, dependencies context source = .ok found ∧
      (∀ name, name ∈ found.exports.toList ↔ name ∈ declaredExports source ∨
        name ∈ listedExports source ∨ name ∈ defaultExports source) ∧
      (∀ name ∈ defaultExports source, name ∉ declarationKeywords) ∧
      (∀ name, name ∈ declaredExports source ↔ ∃ depth declaration,
        ExportedDeclaration.Stands source (2 * depth) declaration ∧
          String.ofList declaration.name = name) ∧
      ((∀ name ∈ declaredExports source, name ∉ declarationKeywords) ↔
        ∀ depth declaration, ExportedDeclaration.Stands source depth declaration →
          String.ofList declaration.name ∈ declarationKeywords → depth % 2 = 1) := by
  obtain ⟨found, read, exports⟩ := exports_of_lasting lasts source
  refine ⟨found, read, fun name => ?_, fun name member => ?_, fun name => mem_declaredExports_iff,
    ?_, ?_⟩
  · rw [exports, NameSet.mem_ofList, List.mem_append, List.mem_append, or_assoc]
  · simpa using (List.mem_filter.mp member).2
  · intro allowed depth declaration stands keyword
    by_contra even
    obtain ⟨half, rfl⟩ : 2 ∣ depth := Nat.dvd_of_mod_eq_zero (by omega)
    exact allowed _ (mem_declaredExports_iff.mpr ⟨half, declaration, stands, rfl⟩) keyword
  · intro odd name member keyword
    obtain ⟨half, declaration, stands, rfl⟩ := mem_declaredExports_iff.mp member
    have parity := odd _ declaration stands keyword
    omega

/-- A declaration that is named by a keyword and begins at the name of another one. -/
def passedOverKeyword : Text :=
  "export class export class enum \x7b\x7d\nexport default async () => 1;\n".toList

theorem space_not_identifier : isIdentifierChar ' ' = false := by
  decide

def innerEnum : ExportedDeclaration where
  before := "export class ".toList
  gap := .space
  words := []
  kind := "class"
  joint := .space
  name := "enum".toList
  after := " \x7b\x7d\nexport default async () => 1;\n".toList
  begins := by simpa using space_not_identifier
  ordered := by decide
  known := by decide
  notEmpty := by decide
  solid := List.all_eq_true.mp (by decide)
  ends := by simpa using space_not_identifier

def outerClass : ExportedDeclaration where
  before := []
  gap := .space
  words := []
  kind := "class"
  joint := .space
  name := "export".toList
  after := " class enum \x7b\x7d\nexport default async () => 1;\n".toList
  begins := by simp
  ordered := by decide
  known := by decide
  notEmpty := by decide
  solid := List.all_eq_true.mp (by decide)
  ends := by simpa using space_not_identifier

theorem innerEnum_stands : ExportedDeclaration.Stands passedOverKeyword 1 innerEnum := by
  have outer : ExportedDeclaration.Stands passedOverKeyword 0 outerClass := by
    refine .outermost (by decide) fun other _ begins => ?_
    have positive := other.offset_lt_nameOffset
    rw [begins] at positive
    exact Nat.not_lt_zero _ positive
  exact .inner outer (by decide) (by decide)

theorem exports_keywords_passedOver :
    Deadline.unbounded.expired = false ∧
    ∃ found, dependencies {} passedOverKeyword = .ok found ∧
      found.exports.toList = ["export"] ∧
      declaredExports passedOverKeyword = ["export"] ∧ defaultExports passedOverKeyword = [] ∧
      ExportedDeclaration.Stands passedOverKeyword 1 innerEnum ∧
      String.ofList innerEnum.name ∈ declarationKeywords ∧
      ∀ depth declaration, ExportedDeclaration.Stands passedOverKeyword depth declaration →
        String.ofList declaration.name ∈ declarationKeywords → depth % 2 = 1 := by
  obtain ⟨found, read, -, -, -, keywords⟩ := exports_keywords_iff {} passedOverKeyword rfl
  have declared : declaredExports passedOverKeyword = ["export"] := by decide +kernel
  have shown : (dependencies {} passedOverKeyword).map (·.exports.toList) = .ok ["export"] := by
    decide +kernel
  rw [read] at shown
  refine ⟨rfl, found, read, Except.ok.inj shown, declared, by decide +kernel, innerEnum_stands,
    by decide, keywords.mp ?_⟩
  rw [declared]
  decide

def constantEnumeration : Text :=
  "export const enum Color \x7b Red \x7d\n".toList

/-- A constant enumeration is exported by the keyword in front of its name. -/
theorem exports_enum_of_constantEnumeration :
    (dependencies {} constantEnumeration).map (·.exports.toList) = .ok ["enum"] ∧
      declaredExports constantEnumeration = ["enum"] ∧ "enum" ∈ declarationKeywords := by
  decide +kernel

end JavaScript
end SourceAtlas
