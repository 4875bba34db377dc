import SourceAtlas.Proofs.ImportLayout

/-!
# Imports that do not depend on their layout

The comments between the names of an import are read like the rest of the list.  The mark of a
comment in front of a name, right behind one or behind the last comma becomes a part of a name,
and a comma in a comment begins an entry of its own.  An import gives the same names as on one
line exactly if none of this adds a name.
-/

namespace SourceAtlas
namespace Python

open Text Pattern

/-! ## Names in a layout -/

/-- A mark in the first field of a text makes a name with a mark. -/
theorem importedNames_of_mark {margin word : Text} (blank : ∀ c ∈ margin, Text.isBlank c = true)
    (solid : ∀ c ∈ word, isIdentifierChar c = true) (rest : Text) :
    ∃ name ∈ importedNames (margin ++ (word ++ '#' :: rest)), '#' ∈ name := by
  have wordSolid : ∀ c ∈ word, Text.isBlank c = false := fun c member =>
    isBlank_of_isIdentifierChar (solid c member)
  have single : ',' ∉ margin ++ word ++ ['#'] := by
    simp only [List.mem_append, List.mem_singleton, not_or]
    refine ⟨⟨fun member => ?_, fun member => ?_⟩, by decide⟩
    · exact absurd (blank _ member) (by decide)
    · exact absurd (solid _ member) (by decide)
  obtain ⟨name, named, marked⟩ :=
    importedName?_of_mark blank wordSolid (rest.takeWhile (· != ','))
  refine ⟨name, ?_, marked⟩
  have split := importedNames_append single rest
  simp only [List.append_assoc, List.singleton_append] at split
  rw [split, named]
  simp

theorem importedNames_of_commented {fillers : List Filler} (commented : ¬Uncommented fillers)
    (rest : Text) : ∃ name ∈ importedNames (fillerText fillers ++ rest), '#' ∈ name := by
  obtain ⟨margin, behind, blank, split⟩ := exists_mark_of_commented commented
  have marked : ∃ name ∈ importedNames (margin ++ ([] ++ '#' :: (behind ++ rest))), '#' ∈ name :=
    importedNames_of_mark blank (by simp) _
  rw [split, List.append_assoc]
  exact marked

theorem importedNames_of_uncommented {fillers : List Filler} (uncommented : Uncommented fillers) :
    importedNames (fillerText fillers) = [] := by
  have single : ',' ∉ fillerText fillers := fun member =>
    absurd (uncommented.isBlank _ member) (by decide)
  rw [importedNames_of_notMem single, importedName?_of_blank uncommented.isBlank]
  rfl

theorem importedNames_intercalate (pieces : List Text) :
    importedNames ([','].intercalate pieces) = pieces.flatMap importedNames := by
  induction pieces with
  | nil => rfl
  | cons piece pieces ih =>
      cases pieces with
      | nil => simp
      | cons next pieces =>
          rw [List.intercalate_cons_cons, List.append_assoc, List.singleton_append,
            importedNames_append_cons, ih]
          rfl

theorem Identifier.notMem {name : Identifier} {c : Char} (other : isIdentifierChar c = false) :
    c ∉ name.text := by
  intro member
  rw [name.solid c member] at other
  exact Bool.false_ne_true other.symm

namespace ImportEntry

theorem tail_head (entry : ImportEntry) :
    ∀ c ∈ entry.tail.head?, Text.isBlank c = true ∨ c = '#' := by
  rw [tail]
  cases entry.renamed with
  | none => exact fillerText_head
  | some renamed =>
      obtain ⟨d, rest, text, kind⟩ := renamed.before.first.text_head
      intro c first
      simp only [Option.elim_some, Alias.text, Gap.fillers, fillerText_cons, text] at first
      obtain rfl : d = c := Option.some.inj first
      exact kind

/-- Whether no comment stands in front of the name or begins right behind it. -/
def Clear (entry : ImportEntry) : Prop :=
  Uncommented entry.front ∧ entry.tail.head? ≠ some '#'

instance (entry : ImportEntry) : Decidable entry.Clear :=
  inferInstanceAs (Decidable (_ ∧ _))

theorem Clear.importedNames_eq {entry : ImportEntry} (clear : entry.Clear) :
    importedNames entry.text = entry.name.text :: namesBehindComma entry.tail := by
  obtain ⟨uncommented, apart⟩ := clear
  have solid : ∀ c ∈ entry.name.text, Text.isBlank c = false := fun c member =>
    isBlank_of_isIdentifierChar (entry.name.solid c member)
  have single : ',' ∉ fillerText entry.front ++ entry.name.text := by
    rw [List.mem_append, not_or]
    refine ⟨fun member => ?_, Identifier.notMem (by decide)⟩
    exact absurd (uncommented.isBlank _ member) (by decide)
  have divided : ∀ c ∈ (entry.tail.takeWhile (· != ',')).head?, Text.isBlank c = true := by
    intro c first
    have firstOfTail : c ∈ entry.tail.head? := by
      cases behind : entry.tail with
      | nil => simp [behind] at first
      | cons d rest =>
          rw [behind, List.takeWhile_cons] at first
          split at first
          · exact first
          · simp at first
    rcases entry.tail_head c firstOfTail with blank | rfl
    · exact blank
    · exact absurd firstOfTail apart
  have named : importedName? (fillerText entry.front ++
      (entry.name.text ++ entry.tail.takeWhile (· != ','))) = some entry.name.text := by
    have last := List.getLast?_eq_some_getLast entry.name.notEmpty
    have part := entry.name.solid _ (List.getLast_mem entry.name.notEmpty)
    apply importedName?_of_field uncommented.isBlank solid last _ _ divided
    · intro cut
      rw [cut] at part
      exact absurd part (by decide)
    · intro all
      exact Identifier.notMem (by decide : isIdentifierChar '*' = false) (all ▸ List.mem_cons_self)
  rw [text, ← List.append_assoc, importedNames_append single, List.append_assoc, named]
  rfl

theorem exists_mark_of_not_clear {entry : ImportEntry} (unclear : ¬entry.Clear) :
    ∃ name ∈ importedNames entry.text, '#' ∈ name := by
  rw [Clear, not_and_or, not_not] at unclear
  by_cases uncommented : Uncommented entry.front
  · have apart := unclear.resolve_left (not_not_intro uncommented)
    obtain ⟨rest, split⟩ := List.head?_eq_some_iff.mp apart
    rw [text, split]
    exact importedNames_of_mark uncommented.isBlank entry.name.solid rest
  · exact importedNames_of_commented uncommented _

end ImportEntry

namespace ImportLayout

/-- Whether no comment adds a name to the list. -/
@[mk_iff]
structure Legible (layout : ImportLayout) : Prop where
  clear : ∀ entry ∈ layout.entries, entry.Clear
  noStrays : ∀ entry ∈ layout.entries, ∀ name ∈ namesBehindComma entry.tail, name ∈ layout.names
  clearEnd : Uncommented (layout.trailing.getD [])

instance (layout : ImportLayout) : Decidable layout.Legible :=
  decidable_of_iff _ layout.legible_iff.symm

theorem importedNames_list (layout : ImportLayout) :
    importedNames layout.list =
      layout.entries.flatMap (fun entry => importedNames entry.text) ++
        importedNames (fillerText (layout.trailing.getD [])) := by
  rw [list, importedNames_intercalate, pieces, List.flatMap_append, List.flatMap_map]
  congr 1
  cases layout.trailing with
  | none => rfl
  | some fillers => simp

theorem notMem_of_mem_names {layout : ImportLayout} {name : Text} (member : name ∈ layout.names)
    {c : Char} (other : isIdentifierChar c = false) : c ∉ name := by
  obtain ⟨entry, -, rfl⟩ := List.mem_map.mp member
  exact Identifier.notMem other

theorem Legible.mem_importedNames_iff {layout : ImportLayout} (legible : layout.Legible)
    (name : Text) : name ∈ importedNames layout.list ↔ name ∈ layout.names := by
  rw [importedNames_list, importedNames_of_uncommented legible.clearEnd, List.append_nil,
    List.mem_flatMap]
  constructor
  · rintro ⟨entry, isEntry, listed⟩
    rw [(legible.clear entry isEntry).importedNames_eq, List.mem_cons] at listed
    rcases listed with rfl | stray
    · exact List.mem_map_of_mem isEntry
    · exact legible.noStrays entry isEntry name stray
  · intro member
    obtain ⟨entry, isEntry, rfl⟩ := List.mem_map.mp member
    refine ⟨entry, isEntry, ?_⟩
    rw [(legible.clear entry isEntry).importedNames_eq]
    exact List.mem_cons_self

/-- A comment in the wrong place leaves its mark in a name, and a mark is never part of one. -/
theorem mem_importedNames_iff_legible (layout : ImportLayout) :
    (∀ name, name ∈ importedNames layout.list ↔ name ∈ layout.names) ↔ layout.Legible := by
  refine ⟨fun same => ?_, Legible.mem_importedNames_iff⟩
  have unmarked {name : Text} (member : name ∈ importedNames layout.list) : '#' ∉ name :=
    notMem_of_mem_names ((same name).mp member) (by decide)
  have inEntry {entry : ImportEntry} (isEntry : entry ∈ layout.entries) {name : Text}
      (listed : name ∈ importedNames entry.text) : name ∈ importedNames layout.list := by
    rw [importedNames_list]
    exact List.mem_append_left _ (List.mem_flatMap.mpr ⟨entry, isEntry, listed⟩)
  have clear : ∀ entry ∈ layout.entries, entry.Clear := by
    intro entry isEntry
    by_contra unclear
    obtain ⟨name, listed, marked⟩ := ImportEntry.exists_mark_of_not_clear unclear
    exact unmarked (inEntry isEntry listed) marked
  refine ⟨clear, ?_, ?_⟩
  · intro entry isEntry name stray
    apply (same name).mp
    apply inEntry isEntry
    rw [(clear entry isEntry).importedNames_eq]
    exact List.mem_cons_of_mem _ stray
  · by_contra commented
    obtain ⟨name, listed, marked⟩ := importedNames_of_commented commented []
    rw [List.append_nil] at listed
    refine unmarked ?_ marked
    rw [importedNames_list]
    exact List.mem_append_right _ listed

theorem legible_of_uncommented {layout : ImportLayout} (uncommented : Uncommented layout.fillers) :
    layout.Legible := by
  have around {entry : ImportEntry} (isEntry : entry ∈ layout.entries) :
      Uncommented entry.fillers := by
    intro filler listed
    exact uncommented _ (List.mem_append_left _ (List.mem_flatMap.mpr ⟨entry, isEntry, listed⟩))
  have notInTail {entry : ImportEntry} (isEntry : entry ∈ layout.entries) {c : Char}
      (other : isIdentifierChar c = false) (solid : Text.isBlank c = false) : c ∉ entry.tail := by
    intro member
    rcases ImportEntry.mem_tail member with part | ⟨filler, listed, inText⟩
    · rw [part] at other
      exact Bool.false_ne_true other.symm
    · have blank := (around isEntry).isBlank c (List.mem_flatMap.mpr ⟨filler, listed, inText⟩)
      rw [blank] at solid
      exact Bool.false_ne_true solid.symm
  refine ⟨fun entry isEntry => ⟨?_, ?_⟩, fun entry isEntry => ?_, ?_⟩
  · intro filler listed
    exact around isEntry filler (by simp [ImportEntry.fillers, listed])
  · intro first
    exact notInTail isEntry (by decide) (by decide) (List.mem_of_head? first)
  · rw [namesBehindComma_of_notMem (notInTail isEntry (by decide) (by decide))]
    exact List.forall_mem_nil _
  · intro filler listed
    exact uncommented _ (List.mem_append_right _ listed)

end ImportLayout

/-! ## Imports of a layout -/

theorem qualified_injective (module : Text) : Function.Injective (qualified module) := by
  intro first second same
  have texts := String.ofList_injective same
  split at texts
  · exact List.append_cancel_left texts
  · exact (List.cons.inj (List.append_cancel_left texts)).2

theorem ofList_qualified_eq_iff {module : Text} {names others : List Text} :
    NameSet.ofList (names.map (qualified module)) = NameSet.ofList (others.map (qualified module)) ↔
      ∀ name, name ∈ names ↔ name ∈ others := by
  constructor
  · intro same name
    have mem_iff : qualified module name ∈ (NameSet.ofList (names.map (qualified module))).toList ↔
        qualified module name ∈ (NameSet.ofList (others.map (qualified module))).toList := by
      rw [same]
    simpa only [NameSet.mem_ofList, List.mem_map_of_injective (qualified_injective module)]
      using mem_iff
  · intro same
    apply NameSet.eq_of_mem_iff
    intro name
    simp only [NameSet.mem_ofList, List.mem_map, same]

section Imports

variable {context : RuleContext} (lasts : context.deadline.expired = false)
  (layout : ImportLayout)

include lasts

theorem dependencies_source : ∃ laid, dependencies context layout.source = .ok laid ∧
    laid.imports = NameSet.ofList ((importedNames layout.list).map (qualified layout.module)) := by
  have ended : NoImportLine [')'] := ⟨by decide, noImportBelow_of_notMem (by decide)⟩
  have noImport := layout.noImportLine (endsWord_cons (by decide) []) ended
  apply dependencies_fromImport lasts layout.isModule _ (namesTaken_enclosed layout.unclosed)
    (.inl rfl)
  · exact noImportBelow_cons noImport.2 fun same => absurd same (by decide)
  · intro c first
    obtain rfl : '(' = c := Option.some.inj first
    decide

theorem dependencies_singleLine : ∃ plain, dependencies context layout.singleLine = .ok plain ∧
    plain.imports = NameSet.ofList (layout.names.map (qualified layout.module)) := by
  obtain ⟨c, rest, split, part⟩ := layout.plain_list_head
  have unbroken := layout.notMem_plain_list (by decide : '\n' ≠ ',') (by decide) (by decide)
  have unmarked := layout.notMem_plain_list (by decide : '#' ≠ ',') (by decide) (by decide)
  have taken : NamesTaken 3 layout.plain.list layout.plain.list := by
    apply namesTaken_toEnd _ _ unbroken unmarked
    · simp [split]
    · rw [split, List.head?_cons]
      rintro same
      rw [Option.some.inj same] at part
      exact absurd part (by decide)
  have begins : ∀ d ∈ layout.plain.list.head?, Text.isBlank d = false := by
    intro d first
    rw [split] at first
    obtain rfl : c = d := Option.some.inj first
    exact isBlank_of_isIdentifierChar part
  obtain ⟨plain, read, imports⟩ := dependencies_fromImport lasts layout.isModule begins taken
    (.inr rfl) (noImportBelow_of_notMem unbroken)
  refine ⟨plain, read, ?_⟩
  have legible := ImportLayout.legible_of_uncommented layout.plain_uncommented
  rw [imports, ofList_qualified_eq_iff]
  intro name
  rw [legible.mem_importedNames_iff, layout.plain_names]

end Imports

/-- For every import laid out in parentheses, the text on one line gives the names behind the
module.  The laid out text gives the same imports exactly if it is legible, so always if it has no
comment. -/
theorem imports_eq_iff_legible (context : RuleContext) (lasts : context.deadline.expired = false)
    (layout : ImportLayout) :
    ∃ laid plain, dependencies context layout.source = .ok laid ∧
      dependencies context layout.singleLine = .ok plain ∧
      plain.imports = NameSet.ofList (layout.names.map (qualified layout.module)) ∧
      (laid.imports = plain.imports ↔ layout.Legible) ∧
      (Uncommented layout.fillers → laid.imports = plain.imports) := by
  obtain ⟨laid, laidRead, laidImports⟩ := dependencies_source lasts layout
  obtain ⟨plain, plainRead, plainImports⟩ := dependencies_singleLine lasts layout
  have same : laid.imports = plain.imports ↔ layout.Legible := by
    rw [laidImports, plainImports, ofList_qualified_eq_iff]
    exact layout.mem_importedNames_iff_legible
  refine ⟨laid, plain, laidRead, plainRead, plainImports, same, fun uncommented => ?_⟩
  exact same.mpr (ImportLayout.legible_of_uncommented uncommented)

/-- A name of one letter. -/
def letterName (c : Char) (part : isIdentifierChar c = true) : Identifier :=
  ⟨[c], List.cons_ne_nil _ _, by simpa using part, by simp [importWord]⟩

theorem isModuleName_letter {c : Char} (part : isIdentifierChar c = true) : IsModuleName [c] :=
  ⟨List.cons_ne_nil _ _, by simpa [identifierOr] using .inl part⟩

def newline : Filler :=
  .blank '\n' (by decide)

/-- A layout with a comment behind a name, which repeats that name behind a comma. -/
def asideLayout : ImportLayout where
  module := ['a']
  isModule := isModuleName_letter (by decide)
  first := ⟨[], letterName 'b' (by decide), none,
    [space, .comment ['o', 'l', 'd', ',', 'b'] (by decide) (by decide), space]⟩
  others := [⟨[newline, space], letterName 'c' (by decide),
    some ⟨⟨space, []⟩, ⟨space, [space]⟩, letterName 'd' (by decide)⟩, []⟩]
  trailing := some [newline]

theorem imports_eq_asideLayout :
    asideLayout.source = "from a import (b #old,b\n ,\n c as  d,\n)".toList ∧
      asideLayout.singleLine = "from a import b, c as d".toList ∧
      Deadline.unbounded.expired = false ∧
      ∃ laid, dependencies {} asideLayout.source = .ok laid ∧
        laid.imports = NameSet.ofList ["a.b", "a.c"] := by
  obtain ⟨laid, plain, read, -, names, same, -⟩ := imports_eq_iff_legible {} rfl asideLayout
  have legible : asideLayout.Legible := by decide +kernel
  refine ⟨by decide +kernel, by decide +kernel, rfl, laid, read, ?_⟩
  rw [same.mpr legible, names]
  decide +kernel

/-- A layout with a comment at the end of a line, behind the comma. -/
def commentedLayout : ImportLayout where
  module := ['a']
  isModule := isModuleName_letter (by decide)
  first := ⟨[], letterName 'b' (by decide), none, []⟩
  others := [⟨[space, .comment [' ', 'o', 'n', 'e'] (by decide) (by decide), space],
    letterName 'c' (by decide), none, []⟩]
  trailing := none

theorem imports_differ_commentedLayout :
    commentedLayout.source = "from a import (b, # one\n c)".toList ∧
      commentedLayout.singleLine = "from a import b, c".toList ∧
      (dependencies {} commentedLayout.source).toOption.map (·.imports.toList) =
        some ["a.#", "a.b"] ∧
      (dependencies {} commentedLayout.singleLine).toOption.map (·.imports.toList) =
        some ["a.b", "a.c"] := by
  decide +kernel

end Python
end SourceAtlas
