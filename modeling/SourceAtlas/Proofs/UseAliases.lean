import Mathlib.Data.List.Chain
import SourceAtlas.Proofs.FromImports
import SourceAtlas.Proofs.ImportJoin
import SourceAtlas.Proofs.LastSegments
import SourceAtlas.Proofs.UseNames

/-!
# Use paths with an alias

A use declaration without a group is recorded as it is written, with its alias.  The alias then
belongs to the last segment of the recorded name, so an import that is renamed is not found under
the name that other files export.
-/

namespace SourceAtlas

open Text Pattern

namespace Rust

/-- Whether a text is a name, which may be marked as a raw one. -/
structure IsIdentifier (text : Text) : Prop where
  notEmpty : text ≠ []
  solid : ∀ c ∈ text, identifierOr "#" c = true

theorem IsIdentifier.notMem {text : Text} (named : IsIdentifier text) {c : Char}
    (foreign : identifierOr "#" c = false) : c ∉ text := by
  intro member
  rw [named.solid c member] at foreign
  cases foreign

theorem IsIdentifier.not_isBlank {text : Text} (named : IsIdentifier text) :
    ∀ c ∈ text, isBlank c = false := by
  intro c member
  have solid := named.solid c member
  rw [identifierOr, Bool.or_eq_true] at solid
  rcases solid with part | mark
  · exact isBlank_of_isIdentifierChar part
  · obtain rfl : c = '#' := by simpa [among] using mark
    decide

/-! ## Declarations that are recorded as they are written -/

/-- Whether a text is the tree of a use declaration that needs no expansion: no group, and single
spaces that no colon follows. -/
structure IsBareUse (tree : Text) : Prop where
  notEmpty : tree ≠ []
  unopened : '\x7b' ∉ tree
  unended : ';' ∉ tree
  spaces : ∀ c ∈ tree, isBlank c = true → c = ' '
  alone : tree.IsChain fun c d => isBlank c = true → isBlank d = false ∧ d ≠ ':'
  begins : tree.head?.any isBlank = false
  ends : tree.getLast?.any isBlank = false

namespace IsBareUse

variable {tree : Text}

theorem normalForm_eq (bare : IsBareUse tree) : normalForm tree = tree := by
  have spaced : SingleSpaced tree :=
    ⟨bare.spaces, bare.alone.imp fun c d follows blank => (follows blank).1⟩
  have unbroken : ¬" :: ".toList <:+: tree := by
    intro inside
    have chain := bare.alone.infix inside
    exact ((List.isChain_cons_cons.mp chain).1 rfl).2 rfl
  rw [normalForm, spaced.compact_eq bare.begins bare.ends, replaceAll_of_absent _ unbroken]

theorem expandUse_eq (bare : IsBareUse tree) : expandUse tree = [tree] := by
  have same := bare.normalForm_eq
  rw [expandUse_of_notMem (same.symm ▸ bare.unopened), same]

/-- A path of solid characters alone. -/
theorem of_solid (notEmpty : tree ≠ []) (unopened : '\x7b' ∉ tree) (unended : ';' ∉ tree)
    (solid : ∀ c ∈ tree, isBlank c = false) : IsBareUse tree := by
  have refused {c : Char} (member : c ∈ tree) : isBlank c ≠ true := by simp [solid c member]
  refine ⟨notEmpty, unopened, unended, ?_, ?_, ?_, ?_⟩
  · exact fun c member blank => absurd blank (refused member)
  · rw [List.isChain_iff_getElem]
    exact fun place inside blank => absurd blank (refused (List.getElem_mem _))
  · rw [Option.any_eq_false]
    exact fun c first => by simpa using solid c (List.mem_of_mem_head? first)
  · rw [Option.any_eq_false]
    exact fun c last => by simpa using solid c (List.mem_of_mem_getLast? last)

theorem append_word (bare : IsBareUse tree) {word : Text} (named : IsIdentifier word) :
    IsBareUse (tree ++ ' ' :: word) := by
  have alone : IsBareUse word :=
    of_solid named.notEmpty (named.notMem (by decide)) (named.notMem (by decide)) named.not_isBlank
  have unlike {c : Char} (foreign : c ∉ tree ∧ c ∉ word) (solid : c ≠ ' ') :
      c ∉ tree ++ ' ' :: word := by
    simp [foreign.1, foreign.2, solid]
  refine ⟨by simp, unlike ⟨bare.unopened, alone.unopened⟩ (by decide),
    unlike ⟨bare.unended, alone.unended⟩ (by decide), ?_, ?_, ?_, ?_⟩
  · intro c member blank
    rcases List.mem_append.mp member with inside | behind
    · exact bare.spaces c inside blank
    · rcases List.mem_cons.mp behind with rfl | inside
      · rfl
      · exact alone.spaces c inside blank
  · rw [List.isChain_append, List.isChain_cons]
    refine ⟨bare.alone, ⟨fun d first _ => ?_, alone.alone⟩, fun c last d _ blank => ?_⟩
    · have member := List.mem_of_mem_head? first
      exact ⟨named.not_isBlank d member, fun same => named.notMem (by decide) (same ▸ member)⟩
    · have ends := bare.ends
      rw [Option.mem_def.mp last, Option.any_some, blank] at ends
      cases ends
  · rw [List.head?_append_of_ne_nil _ bare.notEmpty]
    exact bare.begins
  · rw [List.getLast?_append_cons, List.getLast?_cons_of_ne_nil named.notEmpty]
    exact alone.ends

end IsBareUse

/-- A text that consists of one use declaration. -/
def useText (tree : Text) : Text :=
  ['u', 's', 'e'] ++ ' ' :: (tree ++ [';'])

theorem useDeclaration_needsText : useDeclaration.NeedsText := by
  intro place atEnd
  rw [Option.eq_none_iff_forall_not_mem]
  intro found matched
  obtain ⟨reached, ⟨_, ⟨-, rfl⟩, _, ⟨indent, margin, -, overIndent, rfl⟩, _, visibility, _, word,
    -⟩, -⟩ := exists_leads_of_matchAt? matched
  obtain ⟨shown, overShown⟩ := visibility.exists_passes
  obtain ⟨behind, overWord, -⟩ := leads_literal word
  have ahead := overIndent.rest_eq.trans (congrArg _ (overShown.rest_eq.trans
    (congrArg _ overWord.rest_eq)))
  rw [atEnd] at ahead
  simp at ahead

theorem useDeclaration_matchesIn {tree : Text} (bare : IsBareUse tree) :
    (useDeclaration.matchesIn (useText tree)).map (·.text 2) = [tree] := by
  have useSpelled : "use".toList = ['u', 's', 'e'] := by decide
  have endSpelled : ";".toList = [';'] := by decide
  have kept : ∀ c ∈ tree, except ";" c = true := except_of_notMem endSpelled bare.unended
  have first : ∀ c ∈ (tree ++ [';']).head?, isBlank c = false := by
    intro c first
    rw [List.head?_append_of_ne_nil _ bare.notEmpty] at first
    have begins := bare.begins
    rwa [Option.mem_def.mp first] at begins
  let start := Place.start (useText tree)
  have inside : start.IsIn (useText tree) := Place.isIn_start _
  have overMargin : indentation.Prefers ⟨start, []⟩ ⟨start, []⟩ := by
    apply prefers_run (.nothing start) (by simp)
    intro c first
    obtain rfl : 'u' = c := Option.some.inj first
    decide
  -- The text begins with the keyword, so no visibility stands in front of it.
  have overVisibility : (maybe [captured 1 ["pub", visibilityScope, gap]]).Prefers
      ⟨start, []⟩ ⟨start, []⟩ := by
    apply prefers_maybe_of_nowhere
    rintro reached ⟨_, ⟨_, word, -⟩, -⟩
    obtain ⟨behind, overWord, -⟩ := leads_literal word
    have ahead := overWord.rest_eq
    cases ahead
  obtain ⟨keyword, overUse, ahead, prefersUse⟩ :=
    exists_prefers_literal [] useSpelled _ (show start.rest = ['u', 's', 'e'] ++ _ from rfl)
  obtain ⟨opened, overGap, ahead, prefersGap⟩ := exists_prefers_gap [] ahead first
  obtain ⟨closed, overTree, ahead, prefersTree⟩ :=
    exists_prefers_someOf [] tree [';'] ahead bare.notEmpty kept (by simp [except, among])
  obtain ⟨taken, index, text, prefersTaken⟩ :=
    exists_prefers_group ((inside.pass overUse).pass overGap) overTree prefersTree 2
  obtain ⟨ended, overEnd, ahead, prefersEnd⟩ :=
    exists_prefers_literal [taken] endSpelled [] ahead
  have matched : useDeclaration.matchAt? start = some ⟨start.offset, ended.offset, [taken]⟩ :=
    matchAt?_of_prefers <| (prefers_lineStart rfl).followedBy <| overMargin.followedBy <|
      overVisibility.followedBy <| prefersUse.followedBy <| prefersGap.followedBy <|
      prefersTaken.followedBy prefersEnd
  have endInside : ended.IsIn (useText tree) :=
    (((inside.pass overUse).pass overGap).pass overTree).pass overEnd
  have whole : ended.offset = byteLength (useText tree) := by
    obtain ⟨passed, split, offset, -⟩ := endInside.exists_split
    rw [offset, split, ahead, List.append_nil]
  rw [matchesIn_of_whole useDeclaration_needsText matched whole, List.map_singleton]
  simp [Match.text, Match.capture?, index, text]

theorem dependencies_useText {context : RuleContext} (lasts : context.deadline.expired = false)
    {tree : Text} (bare : IsBareUse tree) :
    ∃ found, dependencies context (useText tree) = .ok found ∧
      found.imports = NameSet.ofList [String.ofList tree] := by
  obtain ⟨found, read, imports, -⟩ := dependencies_of_lasting lasts (useText tree)
  refine ⟨found, read, ?_⟩
  have trees := congrArg (List.flatMap fun tree => (expandUse tree).map String.ofList)
    (useDeclaration_matchesIn bare)
  rw [List.flatMap_map, List.flatMap_singleton, bare.expandUse_eq] at trees
  rw [imports]
  exact congrArg _ trees

/-! ## Paths and aliases -/

/-- A path of names, each but the last one with a double colon behind it. -/
structure UsePath where
  stem : List Text
  last : Text
  stemNames : ∀ name ∈ stem, IsIdentifier name
  lastName : IsIdentifier last

namespace UsePath

def text (path : UsePath) : Text :=
  path.stem.flatMap (· ++ [':', ':']) ++ path.last

def renamed (path : UsePath) (shown : Text) : Text :=
  path.text ++ ' ' :: ['a', 's'] ++ ' ' :: shown

theorem isBareUse_text (path : UsePath) : IsBareUse path.text := by
  have parts {c : Char} (member : c ∈ path.text) :
      c = ':' ∨ ∃ name, IsIdentifier name ∧ c ∈ name := by
    rcases List.mem_append.mp member with inStem | inLast
    · obtain ⟨name, listed, part⟩ := List.mem_flatMap.mp inStem
      rcases List.mem_append.mp part with inName | colon
      · exact .inr ⟨name, path.stemNames name listed, inName⟩
      · exact .inl (by simpa using colon)
    · exact .inr ⟨path.last, path.lastName, inLast⟩
  have unlike {c : Char} (foreign : identifierOr "#" c = false) (noColon : c ≠ ':') :
      c ∉ path.text := by
    intro member
    rcases parts member with colon | ⟨name, named, inName⟩
    · exact noColon colon
    · exact named.notMem foreign inName
  apply IsBareUse.of_solid
  · simp [text, path.lastName.notEmpty]
  · exact unlike (by decide) (by decide)
  · exact unlike (by decide) (by decide)
  · intro c member
    rcases parts member with rfl | ⟨name, named, inName⟩
    · decide
    · exact named.not_isBlank c inName

theorem isBareUse_renamed (path : UsePath) {shown : Text} (named : IsIdentifier shown) :
    IsBareUse (path.renamed shown) :=
  (path.isBareUse_text.append_word ⟨by decide, List.all_eq_true.mp (by decide)⟩).append_word named

/-- Whatever follows a path belongs to its last segment. -/
theorem baseSymbol_append (path : UsePath) {behind : Text} (undotted : '.' ∉ behind)
    (uncoloned : ':' ∉ behind) :
    baseSymbol (String.ofList (path.text ++ behind)) = String.ofList (path.last ++ behind) := by
  obtain ⟨stem, last, stemNames, lastName⟩ := path
  have unmarked {c : Char} (foreign : identifierOr "#" c = false) (other : c ∉ behind) :
      c ∉ last ++ behind := by
    rw [List.mem_append, not_or]
    exact ⟨lastName.notMem foreign, other⟩
  have noColon : ':' ∉ last ++ behind := unmarked (by decide) uncoloned
  have unseparated : IsUnseparated (last ++ behind) :=
    isUnseparated_of_notMem (unmarked (by decide) undotted) noColon
  rw [text]
  rcases List.eq_nil_or_concat stem with rfl | ⟨front, name, rfl⟩
  · apply baseSymbol_of_isUnseparated
    rwa [String.toList_ofList]
  · -- The last segment is a name, so the separator in front of it ends there.
    have clear : IsUnseparated (':' :: (last ++ behind)) :=
      isUnseparated_cons_iff.mpr
        ⟨by decide, fun colons => noColon (List.mem_of_mem_head? colons.2), unseparated⟩
    apply baseSymbol_eq_of_isLastSegment
    rw [String.toList_ofList, String.toList_ofList]
    exact ⟨front.flatMap (· ++ [':', ':']) ++ name, [':', ':'], by simp [separators], by simp,
      clear⟩

theorem baseSymbol_text (path : UsePath) :
    baseSymbol (String.ofList path.text) = String.ofList path.last := by
  have base := path.baseSymbol_append List.not_mem_nil List.not_mem_nil
  rwa [List.append_nil, List.append_nil] at base

theorem baseSymbol_renamed (path : UsePath) {shown : Text} (named : IsIdentifier shown) :
    baseSymbol (String.ofList (path.renamed shown)) =
      String.ofList (path.last ++ ' ' :: ['a', 's'] ++ ' ' :: shown) := by
  have foreign {c : Char} (outside : c ∉ " as ".toList) (other : identifierOr "#" c = false) :
      c ∉ ' ' :: ['a', 's'] ++ ' ' :: shown := by
    intro member
    rcases List.mem_append.mp member with mark | behind
    · exact outside (List.mem_append_left [' '] mark)
    · rcases List.mem_cons.mp behind with rfl | inName
      · exact outside (by decide)
      · exact named.notMem other inName
  have base := path.baseSymbol_append (foreign (c := '.') (by decide) (by decide))
    (foreign (by decide) (by decide))
  rwa [← List.append_assoc, ← List.append_assoc] at base

theorem baseSymbol_renamed_ne (path : UsePath) {shown : Text} (named : IsIdentifier shown) :
    baseSymbol (String.ofList (path.renamed shown)) ≠ baseSymbol (String.ofList path.text) := by
  rw [path.baseSymbol_renamed named, path.baseSymbol_text, Ne, String.ofList_inj]
  intro same
  have longer := congrArg List.length same
  simp at longer

/-- A renamed import comes from nowhere, if no exported name holds a blank. -/
theorem joinedFiles_renamed (path : UsePath) {shown : Text} (named : IsIdentifier shown)
    {reports : List FileReport}
    (single : ∀ report ∈ reports, ∀ name ∈ report.dependencies.exports.toList, ' ' ∉ name.toList) :
    joinedFiles reports (String.ofList (path.renamed shown)) = [] := by
  rw [joinedFiles_eq_nil_iff, path.baseSymbol_renamed named]
  intro report known
  refine ⟨fun exported => single report known _ exported ?_,
    fun exported => single report known _ exported ?_⟩
  · simp [renamed]
  · simp

end UsePath

/-- A use declaration of a path is recorded as the path, and with an alias as the path with the
alias, whose base symbol differs.  So files that import a name with an alias are not joined with
the files that export it, as files that import it without one are. -/
theorem renamed_use_is_joined_apart (context : RuleContext)
    (lasts : context.deadline.expired = false) (path : UsePath) (shown : Text)
    (named : IsIdentifier shown) :
    let name := String.ofList path.text
    let renamed := String.ofList (path.renamed shown)
    (∃ found, dependencies context (useText path.text) = .ok found ∧
      found.imports.toList = [name]) ∧
    (∃ found, dependencies context (useText (path.renamed shown)) = .ok found ∧
      found.imports.toList = [renamed]) ∧
    baseSymbol name = String.ofList path.last ∧
    baseSymbol renamed = String.ofList (path.last ++ " as ".toList ++ shown) ∧
    baseSymbol renamed ≠ baseSymbol name ∧
    ∀ reports : List FileReport, (reports.map (·.relative)).Nodup →
      ∀ first ∈ reports, name ∈ first.dependencies.imports.toList →
      ∀ second ∈ reports, renamed ∈ second.dependencies.imports.toList →
        let index := CrossIndex.build reports
        (index.sourcesOf first.relative name =
          if exportersOf reports name = [] then exportersOf reports (String.ofList path.last)
          else exportersOf reports name) ∧
        (index.sourcesOf second.relative renamed =
          if exportersOf reports renamed = [] then
            exportersOf reports (String.ofList (path.last ++ " as ".toList ++ shown))
          else exportersOf reports renamed) ∧
        ((∀ report ∈ reports, ∀ exported ∈ report.dependencies.exports.toList,
            ' ' ∉ exported.toList) →
          index.sourcesOf second.relative renamed = [] ∧
          (index.sourcesOf second.relative renamed = index.sourcesOf first.relative name ↔
            ∀ report ∈ reports, name ∉ report.dependencies.exports.toList ∧
              String.ofList path.last ∉ report.dependencies.exports.toList)) := by
  intro name renamed
  have base : baseSymbol name = String.ofList path.last := path.baseSymbol_text
  have renamedBase : baseSymbol renamed = String.ofList (path.last ++ " as ".toList ++ shown) := by
    rw [path.baseSymbol_renamed named]
    simp
  refine ⟨?_, ?_, base, renamedBase, path.baseSymbol_renamed_ne named, ?_⟩
  · obtain ⟨found, read, imports⟩ := dependencies_useText lasts path.isBareUse_text
    exact ⟨found, read, by rw [imports]; rfl⟩
  · obtain ⟨found, read, imports⟩ := dependencies_useText lasts (path.isBareUse_renamed named)
    exact ⟨found, read, by rw [imports]; rfl⟩
  · intro reports distinct first firstKnown firstListed second secondKnown secondListed index
    rw [sourcesOf_imported distinct firstKnown firstListed,
      sourcesOf_imported distinct secondKnown secondListed]
    refine ⟨by rw [joinedFiles, base], by rw [joinedFiles, renamedBase], fun single => ?_⟩
    have nowhere := path.joinedFiles_renamed named single
    refine ⟨nowhere, ?_⟩
    rw [nowhere, eq_comm, joinedFiles_eq_nil_iff, base]

def resultPath : UsePath where
  stem := ["lib".toList]
  last := "Result".toList
  stemNames := by simpa using ⟨by decide, List.all_eq_true.mp (by decide)⟩
  lastName := ⟨by decide, List.all_eq_true.mp (by decide)⟩

/-- A file that exports a name and two files that import it, one of them with an alias. -/
def resultReports : List FileReport :=
  [⟨"lib.rs", .rust, { exports := .ofList ["Result"] }, none⟩,
    ⟨"main.rs", .rust, { imports := .ofList ["lib::Result as Outcome"] }, none⟩,
    ⟨"other.rs", .rust, { imports := .ofList ["lib::Result"] }, none⟩]

theorem renamed_use_resultReports :
    (CrossIndex.build resultReports).sourcesOf "other.rs" "lib::Result" = ["lib.rs"] ∧
      (CrossIndex.build resultReports).sourcesOf "main.rs" "lib::Result as Outcome" = [] := by
  obtain ⟨-, -, -, -, -, joins⟩ := renamed_use_is_joined_apart {} rfl resultPath "Outcome".toList
    ⟨by decide, List.all_eq_true.mp (by decide)⟩
  obtain ⟨plain, -, renamed⟩ := joins resultReports (by decide +kernel)
    ⟨"other.rs", .rust, { imports := .ofList ["lib::Result"] }, none⟩ (by simp [resultReports])
    (by decide +kernel)
    ⟨"main.rs", .rust, { imports := .ofList ["lib::Result as Outcome"] }, none⟩
    (by simp [resultReports]) (by decide +kernel)
  exact ⟨plain.trans (by decide +kernel), (renamed (by decide +kernel)).1⟩

/-- An alias makes an import of an exported name an external one. -/
theorem renamed_use_is_external :
    (dependencies {} "use lib::Result;".toList).map (·.imports.toList) = .ok ["lib::Result"] ∧
    (dependencies {} "use lib::Result as Outcome;".toList).map (·.imports.toList) =
      .ok ["lib::Result as Outcome"] ∧
    baseSymbol "lib::Result" = "Result" ∧
    baseSymbol "lib::Result as Outcome" = "Result as Outcome" ∧
    RelationReport.importLines (CrossIndex.build resultReports) "other.rs" "lib::Result" =
      ["      " ++ itemMark ++ "lib::Result (from lib.rs)"] ∧
    RelationReport.importLines (CrossIndex.build resultReports) "main.rs"
        "lib::Result as Outcome" =
      ["      " ++ itemMark ++ "lib::Result as Outcome (external)"] := by
  decide +kernel

end Rust
end SourceAtlas
