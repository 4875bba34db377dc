import SourceAtlas.Proofs.CapturedText
import SourceAtlas.Proofs.DeclaredNames
import SourceAtlas.Proofs.UseGroups

/-!
# Names that use trees bring in

A use tree is expanded by one level of grouping only, so its paths are use trees again, and some of
them still end in a group.  Of such a path the name that it brings in would be a part of the group.
A name is a single one exactly if its path holds no group.
-/

namespace SourceAtlas

namespace Text

theorem splitAtFrom?_eq_append {needle passed text before behind : Text}
    (split : splitAtFrom? needle passed text = some (before, behind)) :
    passed.reverse ++ text = before ++ (needle ++ behind) := by
  induction text generalizing passed with
  | nil =>
      rw [splitAtFrom?, Option.ite_none_right_eq_some, List.isEmpty_iff] at split
      obtain ⟨rfl, same⟩ := split
      obtain ⟨rfl, rfl⟩ := Prod.mk.inj (Option.some.inj same)
      simp
  | cons c rest ih =>
      rw [splitAtFrom?] at split
      split at split
      case isTrue here =>
        obtain ⟨rfl, rfl⟩ := Prod.mk.inj (Option.some.inj split)
        obtain ⟨further, whole⟩ := List.isPrefixOf_iff_prefix.mp here
        rw [← whole, List.drop_left]
      case isFalse => simpa using ih split

theorem splitAtFirst?_eq_append {needle text before behind : Text}
    (split : splitAtFirst? needle text = some (before, behind)) :
    text = before ++ (needle ++ behind) :=
  splitAtFrom?_eq_append split

theorem splitAtLast?_eq_append {needle text before behind : Text}
    (split : splitAtLast? needle text = some (before, behind)) :
    text = before ++ (needle ++ behind) := by
  obtain ⟨⟨last, first⟩, reversed, same⟩ := Option.map_eq_some_iff.mp split
  obtain ⟨rfl, rfl⟩ := Prod.mk.inj same
  rw [← List.reverse_reverse text, splitAtFirst?_eq_append reversed]
  simp

theorem lastPathSegment_suffix (path : Text) : lastPathSegment path <:+ path := by
  rw [lastPathSegment]
  split
  case h_1 before segment split =>
    refine ⟨before ++ [':', ':'], ?_⟩
    rw [List.append_assoc]
    exact (splitAtLast?_eq_append split).symm
  case h_2 => exact List.suffix_rfl

theorem dropEndings_isPrefix (needle : Text) (steps : Nat) (text : Text) :
    dropEndings needle steps text <+: text := by
  induction steps generalizing text with
  | zero => exact List.prefix_rfl
  | succ steps ih =>
      rw [dropEndings]
      split
      · exact (ih _).trans (List.take_prefix _ _)
      · exact List.prefix_rfl

/-- A character that is no blank divides a text as it divides the solid characters. -/
theorem exists_split_of_solids {text front back : Text} {c : Char}
    (split : solids text = front ++ c :: back) :
    ∃ before behind, text = before ++ c :: behind ∧ solids before = front ∧
      solids behind = back := by
  obtain ⟨before, further, rfl, rfl, rest⟩ := List.filter_eq_append_iff.mp split
  obtain ⟨blanks, behind, rfl, blank, -, rfl⟩ := List.filter_eq_cons_iff.mp rest
  refine ⟨before ++ blanks, behind, by simp, ?_, rfl⟩
  have nothing : solids blanks = [] := solids_eq_nil_iff.mpr (by simpa using blank)
  rw [solids_append, nothing, List.append_nil]
  rfl

end Text

namespace Rust

open Text

/-- Whether a text holds neither braces nor commas. -/
structure IsPlain (text : Text) : Prop where
  unopened : '\x7b' ∉ text
  unclosed : '\x7d' ∉ text
  undivided : ',' ∉ text

instance (text : Text) : Decidable (IsPlain text) :=
  decidable_of_iff ('\x7b' ∉ text ∧ '\x7d' ∉ text ∧ ',' ∉ text)
    ⟨fun known => ⟨known.1, known.2.1, known.2.2⟩,
      fun known => ⟨known.unopened, known.unclosed, known.undivided⟩⟩

theorem IsPlain.of_subset {text other : Text} (plain : IsPlain text) (parts : other ⊆ text) :
    IsPlain other :=
  ⟨fun member => plain.unopened (parts member), fun member => plain.unclosed (parts member),
    fun member => plain.undivided (parts member)⟩

theorem IsPlain.append {first second : Text} (plain : IsPlain first) (alsoPlain : IsPlain second) :
    IsPlain (first ++ second) :=
  ⟨by simp [plain.unopened, alsoPlain.unopened], by simp [plain.unclosed, alsoPlain.unclosed],
    by simp [plain.undivided, alsoPlain.undivided]⟩

theorem IsPlain.of_solids {text other : Text} (plain : IsPlain text)
    (same : solids other = solids text) : IsPlain other := by
  have parts {c : Char} (solid : isBlank c = false) (member : c ∈ other) : c ∈ text := by
    have kept := mem_solids.mpr ⟨member, solid⟩
    rw [same] at kept
    exact (mem_solids.mp kept).1
  exact ⟨fun member => plain.unopened (parts (by decide) member),
    fun member => plain.unclosed (parts (by decide) member),
    fun member => plain.undivided (parts (by decide) member)⟩

/-! ## Use trees -/

/-- The texts of use trees: a path, or a stem with a group of use trees and nothing but blanks
behind it.  An item of a group may be blank, as behind a last comma. -/
inductive IsUseTree : Text → Prop
  | path {text : Text} (plain : IsPlain text) : IsUseTree text
  | group {stem after : Text} {items : List Text} (plain : IsPlain stem) (notEmpty : items ≠ [])
      (trees : ∀ item ∈ items, IsUseTree item) (blank : solids after = []) :
      IsUseTree (stem ++ '\x7b' :: ([','].intercalate items ++ '\x7d' :: after))

namespace IsUseTree

theorem append {stem tree : Text} (plain : IsPlain stem) (isTree : IsUseTree tree) :
    IsUseTree (stem ++ tree) := by
  cases isTree with
  | path alsoPlain => exact .path (plain.append alsoPlain)
  | group alsoPlain notEmpty trees blank =>
      rw [← List.append_assoc]
      exact .group (plain.append alsoPlain) notEmpty trees blank

/-- Blanks around the items of a group belong to the items. -/
theorem exists_items_of_solids {items : List Text} (notEmpty : items ≠ [])
    (trees : ∀ item ∈ items, ∀ other, solids other = solids item → IsUseTree other) {text : Text}
    (same : solids text = solids ([','].intercalate items)) :
    ∃ others, others ≠ [] ∧ text = [','].intercalate others ∧
      ∀ other ∈ others, IsUseTree other := by
  induction items generalizing text with
  | nil => exact absurd rfl notEmpty
  | cons item items ih =>
      obtain ⟨here, later⟩ := List.forall_mem_cons.mp trees
      cases items with
      | nil =>
          rw [List.intercalate_singleton] at same
          exact ⟨[text], by simp, by simp, by simpa using here text same⟩
      | cons next items =>
          rw [List.intercalate_cons_cons, List.append_assoc, solids_append, List.singleton_append,
            solids_cons_of_solid (by decide)] at same
          obtain ⟨before, behind, rfl, first, rest⟩ := exists_split_of_solids same
          obtain ⟨others, someOthers, rfl, known⟩ := ih (List.cons_ne_nil _ _) later rest
          obtain ⟨other, further, rfl⟩ := List.exists_cons_of_ne_nil someOthers
          refine ⟨before :: other :: further, by simp, by simp [List.intercalate_cons_cons], ?_⟩
          exact List.forall_mem_cons.mpr ⟨here before first, known⟩

/-- Whether a text is a use tree does not depend on its blanks. -/
theorem of_solids {tree other : Text} (isTree : IsUseTree tree)
    (same : solids other = solids tree) : IsUseTree other := by
  induction isTree generalizing other with
  | path plain => exact .path (plain.of_solids same)
  | @group stem after items plain notEmpty _ blank ih =>
      rw [solids_append, solids_cons_of_solid (by decide), solids_append,
        solids_cons_of_solid (by decide), blank] at same
      obtain ⟨before, behind, rfl, first, rest⟩ := exists_split_of_solids same
      obtain ⟨inside, last, rfl, middle, nothing⟩ := exists_split_of_solids rest
      obtain ⟨others, someOthers, rfl, known⟩ :=
        exists_items_of_solids notEmpty (fun item member _ => ih item member) middle
      exact .group (plain.of_solids first) someOthers known nothing

theorem depthBehind?_eq {tree : Text} (isTree : IsUseTree tree) (depth : Nat) :
    depthBehind? depth tree = some depth := by
  induction isTree generalizing depth with
  | path plain => exact depthBehind?_of_plain depth plain.unopened plain.unclosed plain.undivided
  | @group stem after items plain notEmpty trees blank ih =>
      -- Inside the braces a comma leads from one item to the next.
      have inside : depthBehind? (depth + 1) ([','].intercalate items) = some (depth + 1) := by
        clear notEmpty trees
        induction items with
        | nil => rfl
        | cons item items others =>
            obtain ⟨here, later⟩ := List.forall_mem_cons.mp ih
            cases items with
            | nil => simpa using here (depth + 1)
            | cons next items =>
                have comma (rest : Text) : depthBehind? (depth + 1) (',' :: rest) =
                    depthBehind? (depth + 1) rest := by
                  simp [depthBehind?]
                rw [List.intercalate_cons_cons, List.append_assoc, depthBehind?_append,
                  here, Option.bind_some, List.singleton_append, comma]
                exact others later
      have ends : depthBehind? depth after = some depth := by
        rw [← depthBehind?_solids, blank]
        rfl
      rw [depthBehind?_append, depthBehind?_of_plain depth plain.unopened plain.unclosed
        plain.undivided, Option.bind_some, depthBehind?, if_pos rfl, depthBehind?_append, inside,
        Option.bind_some]
      simpa [depthBehind?] using ends

/-- The paths of a use tree are use trees themselves. -/
theorem of_mem_expandUse {tree path : Text} (isTree : IsUseTree tree)
    (listed : path ∈ expandUse tree) : IsUseTree path := by
  have normal : IsUseTree (normalForm tree) := isTree.of_solids (solids_normalForm tree)
  generalize shown : normalForm tree = text at normal
  cases normal with
  | path plain =>
      rw [expandUse_of_notMem (shown ▸ plain.unopened), List.mem_singleton] at listed
      rw [listed, shown]
      exact .path plain
  | group plain notEmpty trees blank =>
      have last : '\x7d' ∉ _ := fun member =>
        absurd (solids_eq_nil_iff.mp blank _ member) (by decide)
      rw [expandUse_of_group shown plain.unopened last, splitOutsideBraces_intercalate notEmpty
        fun item member => (trees item member).depthBehind?_eq 0] at listed
      obtain ⟨_, kept, rfl⟩ := List.mem_map.mp listed
      obtain ⟨item, member, rfl⟩ := List.mem_map.mp (List.mem_filter.mp kept).1
      rw [groupedPath]
      split
      · exact .path (plain.of_subset (dropEndings_isPrefix _ _ _).subset)
      · exact .append plain ((trees item member).of_solids (solids_trim item))

end IsUseTree

/-! ## The names of paths -/

/-- The name of a path is the end of the path without the blanks around it. -/
theorem exists_suffix_of_boundName? {path name : Text} (bound : boundName? path = some name) :
    ∃ shown, shown <:+ path ∧ name = trim shown ∧ name ≠ [] ∧ '\x7b' ∉ name := by
  unfold boundName? at bound
  cases divided : splitAtFirst? " as ".toList path with
  | some parts =>
      obtain ⟨before, shown⟩ := parts
      have ends : shown <:+ path :=
        ⟨before ++ " as ".toList, by rw [splitAtFirst?_eq_append divided, List.append_assoc]⟩
      simp only [divided, Option.ite_none_left_eq_some, Bool.or_eq_true, not_or,
        Option.some.injEq] at bound
      obtain ⟨⟨⟨⟨notEmpty, -⟩, -⟩, unopened⟩, rfl⟩ := bound
      exact ⟨shown, ends, rfl, by simpa using notEmpty, by simpa using unopened⟩
  | none =>
      simp only [divided, Option.ite_none_left_eq_some, Bool.or_eq_true, not_or,
        Option.some.injEq] at bound
      obtain ⟨⟨⟨⟨notEmpty, -⟩, -⟩, unopened⟩, rfl⟩ := bound
      exact ⟨_, lastPathSegment_suffix path, rfl, by simpa using notEmpty, by simpa using unopened⟩

theorem boundName?_of_isUseTree {path name : Text} (isTree : IsUseTree path)
    (bound : boundName? path = some name) :
    '\x7b' ∉ name ∧ (IsPlain name ↔ '\x7b' ∉ path) := by
  obtain ⟨shown, ends, rfl, notEmpty, unopened⟩ := exists_suffix_of_boundName? bound
  refine ⟨unopened, ?_⟩
  cases isTree with
  | path plain =>
      have shownPlain := plain.of_subset ends.subset
      exact iff_of_true (shownPlain.of_solids (solids_trim shown)) plain.unopened
  | @group stem after items plain _ trees blank =>
      refine iff_of_false (fun single => ?_) (by simp)
      -- Only blanks follow the group, so the name takes its closing brace along.
      have closing : '\x7d' :: after <:+
          stem ++ '\x7b' :: ([','].intercalate items ++ '\x7d' :: after) :=
        ⟨stem ++ '\x7b' :: [','].intercalate items, by simp⟩
      have closed : '\x7d' ∉ shown := by
        intro member
        have solid := mem_solids.mpr ⟨member, (by decide : isBlank '\x7d' = false)⟩
        rw [← solids_trim] at solid
        exact single.unclosed (mem_solids.mp solid).1
      have behind : shown <:+ after := by
        rcases List.suffix_or_suffix_of_suffix ends closing with inside | around
        · rcases List.suffix_cons_iff.mp inside with rfl | behind
          · exact absurd List.mem_cons_self closed
          · exact behind
        · exact absurd (around.subset List.mem_cons_self) closed
      apply notEmpty
      rw [trim_eq_nil_iff, solids_eq_nil_iff]
      intro c member
      exact solids_eq_nil_iff.mp blank c (behind.subset member)

/-! ## Exported names -/

/-- The use declarations of a text that export what they bring in. -/
def visibleUses (source : Text) : List Match :=
  (useDeclaration.matchesIn source).filter fun found => (found.capture? 1).isSome

theorem isPlain_of_visibleItem {source : Text} {found : Match}
    (member : found ∈ visibleItem.matchesIn source) : IsPlain (found.text 1) := by
  have outside (pattern : Pattern) (absent : 1 ∉ pattern.groups) :
      pattern.GroupsWithin 1 isIdentifierChar :=
    .of_notMem _ absent
  have named : (Pattern.captured 1 [Pattern.identifier]).GroupsWithin 1 isIdentifierChar :=
    And.intro (fun _ => And.intro (fun _ part => part) fun _ part => part)
      (outside _ (by decide))
  have within : visibleItem.GroupsWithin 1 isIdentifierChar := by
    iterate 7 refine And.intro (outside _ (by decide)) ?_
    exact named
  have solid := Pattern.text_within_of_mem_matchesIn member within
  exact ⟨fun member => absurd (solid _ member) (by decide),
    fun member => absurd (solid _ member) (by decide),
    fun member => absurd (solid _ member) (by decide)⟩

theorem dependencies_of_lasting {context : RuleContext} (lasts : context.deadline.expired = false)
    (source : Text) :
    ∃ found, dependencies context source = .ok found ∧
      found.imports = NameSet.ofList ((useDeclaration.matchesIn source).flatMap fun found =>
        (expandUse (found.text 2)).map String.ofList) ∧
      found.exports = NameSet.ofList
        (((visibleUses source).flatMap fun found =>
          (expandUse (found.text 2)).filterMap boundName?).map String.ofList ++
            (visibleItem.matchesIn source).map (·.name 1)) := by
  simp only [dependencies, Pattern.matchesWithin_of_lasting _ lasts]
  exact ⟨_, rfl, rfl, rfl⟩

theorem mem_exports_iff {context : RuleContext} (lasts : context.deadline.expired = false)
    (source : Text) :
    ∃ found, dependencies context source = .ok found ∧ ∀ name : String,
      name ∈ found.exports.toList ↔
        (∃ visible ∈ visibleUses source, ∃ path ∈ expandUse (visible.text 2),
          boundName? path = some name.toList) ∨
        ∃ item ∈ visibleItem.matchesIn source, item.text 1 = name.toList := by
  obtain ⟨found, read, -, exports⟩ := dependencies_of_lasting lasts source
  refine ⟨found, read, fun name => ?_⟩
  have spelled (text : Text) : String.ofList text = name ↔ text = name.toList :=
    ⟨fun same => by rw [← same, String.toList_ofList],
      fun same => by rw [same, String.ofList_toList]⟩
  rw [exports, NameSet.mem_ofList]
  simp only [List.mem_append, List.mem_map, List.mem_flatMap, List.mem_filterMap, Match.name,
    spelled]
  simp

/-- Of the paths of a use tree exactly those without a group bring in single names, and the exports
of a text are single names exactly if no path that is exported with a group brings in a name. -/
theorem exports_single_iff (context : RuleContext) (source : Text) :
    (∀ tree, IsUseTree tree → ∀ path ∈ expandUse tree, ∀ name, boundName? path = some name →
      '\x7b' ∉ name ∧ (IsPlain name ↔ '\x7b' ∉ path)) ∧
    (context.deadline.expired = false →
      (∀ visible ∈ visibleUses source, IsUseTree (visible.text 2)) →
      ∃ found, dependencies context source = .ok found ∧
        ((∀ name ∈ found.exports.toList, IsPlain name.toList) ↔
          ∀ visible ∈ visibleUses source, ∀ path ∈ expandUse (visible.text 2),
            '\x7b' ∈ path → boundName? path = none)) := by
  refine ⟨fun tree isTree path listed name bound =>
    boundName?_of_isUseTree (isTree.of_mem_expandUse listed) bound, ?_⟩
  intro lasts trees
  obtain ⟨found, read, exported⟩ := mem_exports_iff lasts source
  refine ⟨found, read, ?_, ?_⟩
  · intro single visible declared path listed opened
    rw [Option.eq_none_iff_forall_ne_some]
    intro name bound
    have isTree := (trees visible declared).of_mem_expandUse listed
    have member : String.ofList name ∈ found.exports.toList :=
      (exported _).mpr (.inl ⟨visible, declared, path, listed, by rw [bound, String.toList_ofList]⟩)
    have plain := single _ member
    rw [String.toList_ofList] at plain
    exact (boundName?_of_isUseTree isTree bound).2.mp plain opened
  · intro refused name member
    rcases (exported name).mp member with ⟨visible, declared, path, listed, bound⟩ | item
    · have isTree := (trees visible declared).of_mem_expandUse listed
      refine (boundName?_of_isUseTree isTree bound).2.mpr fun opened => ?_
      rw [refused visible declared path listed opened] at bound
      cases bound
    · obtain ⟨item, declared, named⟩ := item
      exact named ▸ isPlain_of_visibleItem declared

def exportedUse (tree : Text) : Text := "pub use ".toList ++ tree ++ ";\n".toList

/-- A group with a group of single names in it. -/
def flatNested : Text := "a::\x7bb as c, d::\x7be, f\x7d\x7d".toList

theorem isUseTree_flatNested : IsUseTree flatNested := by
  have inner : IsUseTree " d::\x7be, f\x7d".toList :=
    @IsUseTree.group " d::".toList [] ["e".toList, " f".toList] (by decide) (by decide)
      (by simpa using ⟨.path (by decide), .path (by decide)⟩) rfl
  exact @IsUseTree.group "a::".toList [] ["b as c".toList, " d::\x7be, f\x7d".toList] (by decide)
    (by decide) (by simpa using ⟨.path (by decide), inner⟩) rfl

theorem visibleUses_flatNested :
    (visibleUses (exportedUse flatNested)).map (·.text 2) = [flatNested] := by
  decide +kernel

theorem exports_single_flatNested :
    (∀ visible ∈ visibleUses (exportedUse flatNested), IsUseTree (visible.text 2)) ∧
    ∃ found, dependencies {} (exportedUse flatNested) = .ok found ∧
      (∀ name ∈ found.exports.toList, IsPlain name.toList) ∧
      found.exports.toList = ["c"] := by
  have shown : ∀ visible ∈ visibleUses (exportedUse flatNested), visible.text 2 = flatNested := by
    intro visible declared
    have listed := List.mem_map_of_mem (f := (·.text 2)) declared
    rwa [visibleUses_flatNested, List.mem_singleton] at listed
  have trees : ∀ visible ∈ visibleUses (exportedUse flatNested), IsUseTree (visible.text 2) := by
    intro visible declared
    rw [shown visible declared]
    exact isUseTree_flatNested
  refine ⟨trees, ?_⟩
  obtain ⟨found, read, single⟩ := (exports_single_iff {} _).2 rfl trees
  refine ⟨found, read, single.mpr fun visible declared => ?_, ?_⟩
  · rw [shown visible declared]
    decide +kernel
  · have exported :
        (dependencies {} (exportedUse flatNested)).map (·.exports.toList) = .ok ["c"] := by
      decide +kernel
    rw [read] at exported
    exact Except.ok.inj exported

/-- A group with a path in the group in it. -/
def deepNested : Text := "a::\x7bb::\x7bc, d::e\x7d\x7d".toList

theorem isUseTree_deepNested : IsUseTree deepNested := by
  have inner : IsUseTree "b::\x7bc, d::e\x7d".toList :=
    @IsUseTree.group "b::".toList [] ["c".toList, " d::e".toList] (by decide) (by decide)
      (by simpa using ⟨.path (by decide), .path (by decide)⟩) rfl
  exact @IsUseTree.group "a::".toList [] ["b::\x7bc, d::e\x7d".toList] (by decide)
    (by decide) (by simpa using inner) rfl

/-- The last path of a group in a group leaves the closing brace in an exported name. -/
theorem exports_part_of_deepNested :
    IsUseTree deepNested ∧ Balanced deepNested ∧
    expandUse deepNested = ["a::b::\x7bc, d::e\x7d".toList] ∧
    boundName? "a::b::\x7bc, d::e\x7d".toList = some "e\x7d".toList ∧
    ¬IsPlain "e\x7d".toList ∧
    (dependencies {} (exportedUse deepNested)).map (·.exports.toList) = .ok ["e\x7d"] :=
  ⟨isUseTree_deepNested, by decide +kernel, by decide +kernel, by decide +kernel, by decide +kernel,
    by decide +kernel⟩

end Rust
end SourceAtlas
