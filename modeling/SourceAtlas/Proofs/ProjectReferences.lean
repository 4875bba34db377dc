import Mathlib.Data.List.Infix
import SourceAtlas.Manifest.DotNet
import SourceAtlas.Proofs.OrderedTrees
import SourceAtlas.Proofs.ProjectElements
import SourceAtlas.Proofs.SpacedWords

/-!
# References of a project

A reference is an element with a row of attributes.  The attributes are read from left to right, and
what stands in the quotes of one of them is passed over as a whole.  With attributes of different
names their order therefore does not matter, and the import that is recorded for a reference depends
on two of them only.
-/

namespace SourceAtlas
namespace Manifest
namespace DotNet

open Text Pattern
open Project (Margin)

/-! ## Attributes -/

/-- An attribute: a name and a value in quotes, with the blanks in front of the name and around the
sign between them. -/
structure Setting where
  gap : Gap
  name : String
  isWord : IsWord name
  before : Margin
  behind : Margin
  value : String
  unquoted : '"' ∉ value.toList
  unclosed : '>' ∉ value.toList

namespace Setting

/-- A setting without the gap in front of it. -/
def assignment (setting : Setting) : Text :=
  setting.name.toList ++ (setting.before.text ++ ('=' :: (setting.behind.text ++
    ('"' :: (setting.value.toList ++ ['"'])))))

def text (setting : Setting) : Text :=
  setting.gap.text ++ setting.assignment

def pair (setting : Setting) : String × String :=
  (setting.name, setting.value)

theorem unclosed_text (setting : Setting) : '>' ∉ setting.text := by
  have blank {margin : Text} (blanks : ∀ c ∈ margin, isBlank c = true) : '>' ∉ margin :=
    fun member => absurd (blanks _ member) (by decide)
  have inName : '>' ∉ setting.name.toList := fun member =>
    absurd (setting.isWord.solid _ member) (by decide)
  simp [text, assignment, setting.unclosed, inName, blank setting.gap.blank,
    blank setting.before.blank, blank setting.behind.blank]

end Setting

/-- The name and the value that a match stands for. -/
def pairOf (found : Match) : String × String :=
  (found.name 1, found.name 2)

theorem elementAttribute_unmatched {place : Place}
    (outside : ∀ c ∈ place.rest.head?, isIdentifierChar c = false) :
    elementAttribute.matchAt? place = none := by
  rw [Option.eq_none_iff_forall_not_mem]
  intro found matched
  obtain ⟨reached, leads, -⟩ := exists_leads_of_matchAt? matched
  obtain ⟨_, ⟨_, ⟨_, ⟨c, later, part, passes, -⟩, -⟩, -⟩, -⟩ := leads
  have begins : place.rest.head? = some c := by
    rw [passes.rest_eq]
    rfl
  rw [outside c begins] at part
  cases part

theorem elementAttribute_needsText : elementAttribute.NeedsText := by
  intro place atEnd
  apply elementAttribute_unmatched
  simp [atEnd]

theorem reads_passed {stretch : Text} (outside : ∀ c ∈ stretch, isIdentifierChar c = false) :
    elementAttribute.Reads (fun _ => True) pairOf stretch [] stretch := by
  intro text place rest _ _ ahead
  obtain ⟨later, passes, behind⟩ := Place.exists_passes stretch rest ahead
  refine ⟨later, [], passes, behind, trivial, scans_of_unmatched passes ?_, rfl⟩
  rintro front (- | ⟨c, back⟩) middle rfl notEmpty overFront
  · exact absurd rfl notEmpty
  · apply elementAttribute_unmatched
    have remaining : middle.rest = c :: (back ++ rest) := by
      apply @List.append_cancel_left _ front
      rw [← overFront.rest_eq, ahead, List.append_assoc, List.cons_append]
    rw [remaining, List.head?_cons]
    rintro d ⟨rfl⟩
    exact outside c (List.mem_append_right _ List.mem_cons_self)

theorem reads_assignment (setting : Setting) :
    elementAttribute.Reads (fun _ => True) pairOf setting.assignment [setting.pair] [] := by
  intro text place rest inside _ ahead
  have ahead : place.rest = setting.name.toList ++ (setting.before.text ++ (['='] ++
      (setting.behind.text ++ (['"'] ++ (setting.value.toList ++ (['"'] ++ rest)))))) := by
    rw [ahead]
    simp [Setting.assignment]
  have sign : "=".toList = ['='] := rfl
  have quote : "\"".toList = ['"'] := rfl
  have nameEnds : ∀ c ∈ (setting.before.text ++ (['='] ++ (setting.behind.text ++ (['"'] ++
      (setting.value.toList ++ (['"'] ++ rest)))))).head?, isIdentifierChar c = false := by
    refine head_append_of_forall
      (fun c blank => isIdentifierChar_of_isBlank (setting.before.blank c blank)) ?_
    rintro c ⟨rfl⟩
    decide
  obtain ⟨named, overName, ahead, prefersName⟩ :=
    exists_prefers_someOf [] setting.name.toList _ ahead setting.isWord.1 setting.isWord.solid
      nameEnds
  obtain ⟨name, nameIndex, nameText, takesName⟩ :=
    exists_prefers_group inside overName prefersName 1
  obtain ⟨_, overBefore, ahead, prefersBefore⟩ :=
    exists_prefers_run [name] setting.before.text _ ahead setting.before.blank
      (by rintro c ⟨rfl⟩; decide)
  obtain ⟨_, overSign, ahead, prefersSign⟩ := exists_prefers_literal [name] sign _ ahead
  obtain ⟨_, overBehind, ahead, prefersBehind⟩ :=
    exists_prefers_run [name] setting.behind.text _ ahead setting.behind.blank
      (by rintro c ⟨rfl⟩; decide)
  obtain ⟨opened, overQuote, ahead, prefersQuote⟩ := exists_prefers_literal [name] quote _ ahead
  have plain : ∀ c ∈ setting.value.toList, except "\"" c = true :=
    except_of_notMem quote setting.unquoted
  obtain ⟨_, overValue, ahead, prefersValue⟩ :=
    exists_prefers_run [name] setting.value.toList _ ahead plain (by rintro c ⟨rfl⟩; decide)
  have insideQuotes : opened.IsIn text :=
    ((((inside.pass overName).pass overBefore).pass overSign).pass overBehind).pass overQuote
  obtain ⟨value, valueIndex, valueText, takesValue⟩ :=
    exists_prefers_group insideQuotes overValue prefersValue 2
  obtain ⟨later, overEnd, behind, prefersEnd⟩ := exists_prefers_literal [value, name] quote _ ahead
  have passes : place.Passes setting.assignment later :=
    overName.append (overBefore.append (overSign.append (overBehind.append
      (overQuote.append (overValue.append overEnd)))))
  have prefers : elementAttribute.Prefers ⟨place, []⟩ ⟨later, [value, name]⟩ :=
    takesName.followedBy (prefersBefore.followedBy (prefersSign.followedBy (prefersBehind.followedBy
      (prefersQuote.followedBy (takesValue.followedBy prefersEnd)))))
  have notEmpty : setting.assignment ≠ [] := List.append_ne_nil_of_left_ne_nil setting.isWord.1 _
  refine ⟨later, _, passes, behind, trivial, scans_of_prefers passes notEmpty prefers, ?_⟩
  simp [pairOf, Match.name, Match.text, Match.capture?, nameIndex, valueIndex, nameText, valueText,
    Setting.pair]

theorem reads_setting (setting : Setting) :
    elementAttribute.Reads (fun _ => True) pairOf setting.text [setting.pair] setting.gap.text := by
  have whole := (reads_passed setting.gap.not_identifier).append (reads_assignment setting)
  rwa [List.append_nil] at whole

/-! ## References -/

/-- The tags of references. -/
def tags : List String :=
  ["PackageReference", "ProjectReference"]

theorem isWord_of_mem_tags : ∀ tag ∈ tags, IsWord tag := by
  decide

/-- An element with attributes of different names, with the blanks behind them and possibly a slash
before its end. -/
structure Reference where
  tag : String
  known : tag ∈ tags
  settings : List Setting
  distinct : (settings.map (·.name)).Nodup
  ending : Margin
  isClosed : Bool

namespace Reference

/-- What stands behind the attributes. -/
def margin (reference : Reference) : Text :=
  reference.ending.text ++ if reference.isClosed then ['/'] else []

/-- What stands between the tag and the end of the element. -/
def inner (reference : Reference) : Text :=
  reference.settings.flatMap Setting.text ++ reference.margin

def text (reference : Reference) : Text :=
  '<' :: (reference.tag.toList ++ (reference.inner ++ ['>']))

def pairs (reference : Reference) : List (String × String) :=
  reference.settings.map Setting.pair

/-- The version of a package as it is recorded. -/
def versionMark (reference : Reference) : String :=
  if reference.tag = "PackageReference" then
    ((reference.pairs.lookup "Version").map fun version => " (" ++ version ++ ")").getD ""
  else ""

/-- What is recorded for a reference: its tag, what it includes and, for a package, the version. -/
def label? (reference : Reference) : Option String :=
  (reference.pairs.lookup "Include").map fun target =>
    reference.tag ++ ":" ++ target ++ reference.versionMark

theorem distinct_pairs (reference : Reference) : (reference.pairs.map Prod.fst).Nodup := by
  rw [pairs, List.map_map]
  exact reference.distinct

theorem mem_margin {reference : Reference} {c : Char} (member : c ∈ reference.margin) :
    isBlank c = true ∨ c = '/' := by
  rw [margin, List.mem_append] at member
  rcases member with inEnding | atEnd
  · exact .inl (reference.ending.blank c inEnding)
  · split at atEnd
    · exact .inr (List.mem_singleton.mp atEnd)
    · cases atEnd

theorem unclosed (reference : Reference) : '>' ∉ reference.inner := by
  intro member
  rw [inner, List.mem_append] at member
  rcases member with inSettings | behind
  · obtain ⟨setting, -, within⟩ := List.mem_flatMap.mp inSettings
    exact setting.unclosed_text within
  · exact absurd (mem_margin behind) (by decide)

theorem margin_outside (reference : Reference) :
    ∀ c ∈ reference.margin, isIdentifierChar c = false := by
  intro c member
  rcases mem_margin member with blank | rfl
  · exact isIdentifierChar_of_isBlank blank
  · decide

theorem head_inner (reference : Reference) (rest : Text) :
    ∀ c ∈ (reference.inner ++ (['>'] ++ rest)).head?, isIdentifierChar c = false := by
  rw [inner, List.append_assoc]
  cases reference.settings with
  | nil =>
      rw [List.flatMap_nil, List.nil_append]
      refine head_append_of_forall reference.margin_outside ?_
      rintro c ⟨rfl⟩
      decide
  | cons setting settings =>
      rw [List.flatMap_cons, Setting.text, List.append_assoc, List.append_assoc]
      exact setting.gap.head_append _

/-- The attributes are read off the element in their order. -/
theorem map_pairOf (reference : Reference) :
    (elementAttribute.matchesIn reference.inner).map pairOf = reference.pairs := by
  have settings : elementAttribute.Reads (fun _ => True) pairOf
      (reference.settings.flatMap Setting.text) _ _ :=
    Reads.flatMap fun setting _ => reads_setting setting
  have whole := settings.append (reads_passed reference.margin_outside)
  rw [inner, whole.map_matchesIn trivial elementAttribute_needsText, List.append_nil,
    ← List.map_eq_flatMap, pairs]

end Reference

/-! ## What is recorded -/

theorem lookup_eq_of_perm {β : Type} {entries others : List (String × β)}
    (apart : (entries.map Prod.fst).Nodup) (perm : others.Perm entries) (name : String) :
    others.lookup name = entries.lookup name := by
  have alsoApart : (others.map Prod.fst).Nodup := (perm.map Prod.fst).nodup_iff.mpr apart
  ext value
  rw [lookup_eq_some_iff_mem alsoApart, lookup_eq_some_iff_mem apart, perm.mem_iff]

theorem lookup_map_pairOf (found : List Match) (name : String) :
    (found.map pairOf).lookup name = (found.find? (·.name 1 == name)).map (·.name 2) := by
  induction found with
  | nil => rfl
  | cons first found ih =>
      rw [List.map_cons, pairOf, List.lookup_cons, List.find?_cons, Bool.beq_comm, ih]
      cases first.name 1 == name <;> rfl

theorem value?_eq_lookup {found : List Match} (apart : ((found.map pairOf).map Prod.fst).Nodup)
    (name : String) : value? found name = (found.map pairOf).lookup name := by
  rw [value?, ← lookup_map_pairOf, List.map_reverse,
    lookup_eq_of_perm apart (List.reverse_perm _)]

theorem referenceName?_of_reference {found : Match} (reference : Reference)
    (named : found.name 1 = reference.tag) (taken : found.text 2 = reference.inner) :
    DotNet.referenceName? found = reference.label? := by
  have apart : ((elementAttribute.matchesIn reference.inner).map pairOf |>.map Prod.fst).Nodup := by
    rw [reference.map_pairOf]
    exact reference.distinct_pairs
  rw [DotNet.referenceName?, taken, named, value?_eq_lookup apart, value?_eq_lookup apart,
    reference.map_pairOf, Reference.label?, Reference.versionMark]
  cases reference.pairs.lookup "Include" with
  | none => rfl
  | some target =>
      cases reference.pairs.lookup "Version" with
      | none => simp
      | some version =>
          by_cases package : reference.tag = "PackageReference"
          · simp [package, String.append_assoc]
          · simp [package]

theorem eq_of_leads_tag {place : Place} {captures : List Capture} {reached : Progress}
    {tag other : String} (alsoKnown : other ∈ tags) (known : tag ∈ tags)
    (begins : tag.toList <+: place.rest)
    (leads : (literal other).Leads ⟨place, captures⟩ reached) : other = tag := by
  have apart : ∀ tag ∈ tags, ∀ other ∈ tags, other.toList <+: tag.toList → other = tag := by
    decide
  obtain ⟨later, passes, -⟩ := leads_literal leads
  have alsoBegins : other.toList <+: place.rest := passes.rest_eq ▸ List.prefix_append _ _
  rcases List.prefix_or_prefix_of_prefix alsoBegins begins with shorter | longer
  · exact apart tag known other alsoKnown shorter
  · exact (apart other alsoKnown tag known longer).symm

theorem reads_reference (reference : Reference) :
    DotNet.reference.Reads (fun _ => True) DotNet.referenceName? reference.text
      [reference.label?] [] := by
  intro text place rest inside _ ahead
  have ahead : place.rest = ['<'] ++ (reference.tag.toList ++ (reference.inner ++
      (['>'] ++ rest))) := by
    rw [ahead]
    simp [Reference.text]
  have opening : "<".toList = ['<'] := rfl
  have closing : ">".toList = ['>'] := rfl
  obtain ⟨opened, overOpening, ahead, prefersOpening⟩ := exists_prefers_literal [] opening _ ahead
  have begins : reference.tag.toList <+: opened.rest := ahead ▸ List.prefix_append _ _
  obtain ⟨named, overTag, ahead, prefersTag⟩ := exists_prefers_literal [] rfl _ ahead
  have prefersWord := @Prefers.anyOf _ _ String literal tags reference.tag prefersTag
    reference.known fun other known differs reached leads =>
      differs (eq_of_leads_tag known reference.known begins leads)
  obtain ⟨tag, tagIndex, tagText, takesTag⟩ :=
    exists_prefers_group (inside.pass overOpening) overTag prefersWord 1
  obtain ⟨last, before, part⟩ := overTag.exists_before (isWord_of_mem_tags _ reference.known)
  have edge : named.atWordEdge = true :=
    Place.atWordEdge_of_ends before part (ahead ▸ reference.head_inner rest)
  have kept : ∀ c ∈ reference.inner, except ">" c = true :=
    except_of_notMem closing reference.unclosed
  obtain ⟨_, overInner, ahead, prefersInner⟩ :=
    exists_prefers_run [tag] reference.inner _ ahead kept (by rintro c ⟨rfl⟩; decide)
  obtain ⟨inner, innerIndex, innerText, takesInner⟩ :=
    exists_prefers_group ((inside.pass overOpening).pass overTag) overInner prefersInner 2
  obtain ⟨later, overClosing, behind, prefersClosing⟩ :=
    exists_prefers_literal [inner, tag] closing _ ahead
  have passes : place.Passes reference.text later :=
    overOpening.append (overTag.append (overInner.append overClosing))
  have prefers : DotNet.reference.Prefers ⟨place, []⟩ ⟨later, [inner, tag]⟩ :=
    prefersOpening.followedBy (takesTag.followedBy ((prefers_wordEdge edge).followedBy
      (takesInner.followedBy prefersClosing)))
  refine ⟨later, _, passes, behind, trivial,
    scans_of_prefers passes (List.cons_ne_nil _ _) prefers, ?_⟩
  rw [List.map_singleton, referenceName?_of_reference reference]
  · simp [Match.name, Match.text, Match.capture?, tagIndex, innerIndex, tagText]
  · simp [Match.text, Match.capture?, innerIndex, innerText]

/-- Whether a reference with a tag begins with a text.  The tag does not begin a longer one. -/
def opensTag (text : Text) (tag : String) : Bool :=
  ('<' :: tag.toList).isPrefixOf text &&
    !(text.drop ('<' :: tag.toList).length).head?.any isIdentifierChar

theorem opensTag_append {tag : String} {back : Text}
    (ends : ∀ c ∈ back.head?, isIdentifierChar c = false) :
    opensTag ('<' :: (tag.toList ++ back)) tag = true := by
  have goesOn : back.head?.any isIdentifierChar = false := by
    cases next : back.head? with
    | none => rfl
    | some c => exact ends c next
  have remains : ('<' :: (tag.toList ++ back)).drop ('<' :: tag.toList).length = back :=
    List.drop_left
  rw [opensTag, remains, goesOn]
  simp

theorem exists_opensTag {place : Place} {found : Match}
    (matched : DotNet.reference.matchAt? place = some found) :
    ∃ tag ∈ tags, ∃ back, place.rest = '<' :: (tag.toList ++ back) ∧
      ∀ c ∈ back.head?, isIdentifierChar c = false := by
  obtain ⟨reached, leads, -⟩ := exists_leads_of_matchAt? matched
  obtain ⟨_, first, ⟨_, ⟨_, word, rfl⟩, ⟨_, ⟨edge, rfl⟩, -⟩⟩⟩ := leads
  obtain ⟨opened, overBracket, rfl⟩ := leads_literal first
  obtain ⟨tag, known, word⟩ := @leads_anyOf _ _ String literal tags word
  obtain ⟨named, overTag, rfl⟩ := leads_literal word
  refine ⟨tag, known, named.rest, ?_, ?_⟩
  · rw [overBracket.rest_eq, ← overTag.rest_eq]
    rfl
  · intro c next
    obtain ⟨last, before, part⟩ := overTag.exists_before (isWord_of_mem_tags tag known)
    by_contra identifier
    rw [Place.not_identifier_of_atWordEdge edge before next (by simpa using identifier)] at part
    cases part

/-- A text in which no reference begins. -/
structure Stray where
  text : Text
  foreign : ∀ back ∈ text.tails, ∀ tag ∈ tags, opensTag back tag = false

/-- No reference begins in such a text, if none or another element follows it. -/
theorem Stray.unmatched (stray : Stray) {front back rest : Text}
    (split : stray.text = front ++ back) (notEmpty : back ≠ []) (follows : ∀ c ∈ rest.head?, c = '<') {place : Place}
    (ahead : place.rest = back ++ rest) : DotNet.reference.matchAt? place = none := by
  rw [Option.eq_none_iff_forall_not_mem]
  intro found matched
  obtain ⟨tag, known, behind, begins, ends⟩ := exists_opensTag matched
  have whole : back ++ rest = ('<' :: tag.toList) ++ behind := ahead ▸ begins
  -- A tag has one bracket only, so it does not go on in what follows.
  obtain ⟨middle, spelled, ends⟩ : ∃ middle, back = '<' :: (tag.toList ++ middle) ∧
      ∀ c ∈ middle.head?, isIdentifierChar c = false := by
    rcases List.append_eq_append_iff.mp whole with
      ⟨middle, spelled, later⟩ | ⟨middle, spelled, later⟩
    · cases middle with
      | nil => exact ⟨[], by simpa using spelled.symm, by simp⟩
      | cons c middle =>
          obtain rfl : c = '<' := follows c (by rw [later]; rfl)
          obtain ⟨d, back, rfl⟩ := List.exists_cons_of_ne_nil notEmpty
          have unbracketed : ∀ tag ∈ tags, '<' ∉ tag.toList := by decide
          have bracketed : '<' ∈ tag.toList := by
            rw [(List.cons.inj spelled).2]
            exact List.mem_append_right _ List.mem_cons_self
          exact absurd bracketed (unbracketed tag known)
    · refine ⟨middle, spelled, fun c first => ends c ?_⟩
      rw [later, List.head?_append, first]
      rfl
  have strange := stray.foreign back ((List.mem_tails _ _).mpr ⟨front, split.symm⟩) tag known
  rw [spelled, opensTag_append ends] at strange
  cases strange

theorem Stray.exists_scans (stray : Stray) {place : Place} {rest : Text}
    (ahead : place.rest = stray.text ++ rest) (follows : ∀ c ∈ rest.head?, c = '<') :
    ∃ later, place.Passes stray.text later ∧ later.rest = rest ∧
      DotNet.reference.Scans place [] stray.text later := by
  obtain ⟨later, passes, behind⟩ := Place.exists_passes stray.text rest ahead
  refine ⟨later, passes, behind, scans_of_unmatched passes ?_⟩
  intro front back middle split notEmpty overFront
  apply stray.unmatched split notEmpty follows
  apply @List.append_cancel_left _ front
  rw [← overFront.rest_eq, ahead, split, List.append_assoc]

/-- References with other text between them. -/
structure Document where
  pieces : List (Stray × Reference)
  ending : Stray

namespace Document

def references (document : Document) : List Reference :=
  document.pieces.map Prod.snd

def text (document : Document) : Text :=
  document.pieces.flatMap (fun piece => piece.1.text ++ piece.2.text) ++ document.ending.text

/-- The search takes one reference after another. -/
theorem exists_scans (pieces : List (Stray × Reference)) (ending : Stray) {text : Text}
    {place : Place} (inside : place.IsIn text) (ahead : place.rest = (mk pieces ending).text) :
    ∃ (later : Place) (found : List Match) (kept : Text), later.rest = [] ∧
      DotNet.reference.Scans place found kept later ∧
      found.map DotNet.referenceName? = pieces.map (·.2.label?) := by
  induction pieces generalizing place with
  | nil =>
      obtain ⟨later, -, behind, scans⟩ :=
        @Stray.exists_scans ending place [] (ahead.trans (List.append_nil _).symm) (by simp)
      exact ⟨later, [], _, behind, scans, rfl⟩
  | cons piece pieces ih =>
      obtain ⟨stray, reference⟩ := piece
      have ahead : place.rest = stray.text ++ (reference.text ++ (mk pieces ending).text) := by
        rw [ahead]
        simp [Document.text]
      obtain ⟨opened, overStray, ahead, skips⟩ :=
        stray.exists_scans ahead (by rintro c ⟨rfl⟩; rfl)
      obtain ⟨middle, first, overReference, ahead, -, takes, labelled⟩ :=
        reads_reference reference text opened _ (inside.pass overStray) trivial ahead
      obtain ⟨later, found, kept, behind, scans, recorded⟩ :=
        ih ((inside.pass overStray).pass overReference) ahead
      exact ⟨later, _, _, behind, skips.append (takes.append scans), by simp [labelled, recorded]⟩

theorem reference_needsText : DotNet.reference.NeedsText := by
  intro place atEnd
  rw [Option.eq_none_iff_forall_not_mem]
  intro found matched
  obtain ⟨tag, -, behind, begins, -⟩ := exists_opensTag matched
  rw [atEnd] at begins
  cases begins

/-- The imports of a document are what is recorded for its references. -/
theorem imports_eq (document : Document) :
    (buildProject document.text).imports =
      NameSet.ofList (document.references.filterMap Reference.label?) := by
  obtain ⟨later, found, kept, atEnd, scans, recorded⟩ :=
    exists_scans document.pieces document.ending (Place.isIn_start document.text) rfl
  have matched := scans.matchesIn_eq atEnd reference_needsText
  have listed :
      found.filterMap DotNet.referenceName? = document.references.filterMap Reference.label? := by
    calc
      found.filterMap DotNet.referenceName? = (found.map DotNet.referenceName?).filterMap id := by
        rw [List.filterMap_map, Function.id_comp]
      _ = (document.pieces.map (·.2.label?)).filterMap id := by rw [recorded]
      _ = document.references.filterMap Reference.label? := by
        rw [references, List.filterMap_map, List.filterMap_map]
        rfl
  rw [buildProject, matched, listed]

end Document

namespace Reference

/-- Only the reference itself is read in a text that consists of it. -/
theorem imports_text (reference : Reference) :
    (buildProject reference.text).imports = NameSet.ofList reference.label?.toList := by
  let nothing : Stray := ⟨[], by decide⟩
  have whole := Document.imports_eq ⟨[(nothing, reference)], nothing⟩
  have single : [reference].filterMap label? = reference.label?.toList := by
    rw [List.filterMap_cons]
    cases reference.label? <;> rfl
  rw [← single]
  simpa [Document.text, Document.references, nothing] using whole

theorem label?_eq_none_iff (reference : Reference) :
    reference.label? = none ↔ ∀ setting ∈ reference.settings, setting.name ≠ "Include" := by
  rw [label?, Option.map_eq_none_iff, List.lookup_eq_none_iff, pairs, List.forall_mem_map]
  refine forall₂_congr fun setting _ => ?_
  rw [Setting.pair, bne_iff_ne, ne_comm]

/-- Neither the order of the attributes nor further ones matter for the value of a name. -/
theorem lookup_of_perm {reference other : Reference} {extra : List (String × String)}
    (perm : other.pairs.Perm (reference.pairs ++ extra)) {name : String}
    (elsewhere : ∀ pair ∈ extra, pair.1 ≠ name) :
    other.pairs.lookup name = reference.pairs.lookup name := by
  ext value
  rw [lookup_eq_some_iff_mem other.distinct_pairs, lookup_eq_some_iff_mem reference.distinct_pairs,
    perm.mem_iff, List.mem_append]
  exact or_iff_left fun member => elsewhere _ member rfl

theorem label?_congr {reference other : Reference} (tag : other.tag = reference.tag)
    (included : other.pairs.lookup "Include" = reference.pairs.lookup "Include")
    (version : other.pairs.lookup "Version" = reference.pairs.lookup "Version") :
    other.label? = reference.label? := by
  rw [label?, label?, versionMark, versionMark, tag, included, version]

end Reference

/-- The imports of a document are those of its references taken together.  A reference is recorded
with its tag, what it includes and the version of a package, and not at all if it includes nothing.
References with the same tag that agree on these two attributes are recorded alike, so the order of
the attributes and all others do not matter. -/
theorem imports_of_references (document : Document) :
    (∀ name, name ∈ (buildProject document.text).imports.toList ↔
      ∃ reference ∈ document.references, name ∈ (buildProject reference.text).imports.toList) ∧
    ∀ reference : Reference,
      (buildProject reference.text).imports = NameSet.ofList reference.label?.toList ∧
      ((buildProject reference.text).imports.toList = [] ↔
        ∀ setting ∈ reference.settings, setting.name ≠ "Include") ∧
      ∀ other : Reference, other.tag = reference.tag →
        (other.pairs.lookup "Include" = reference.pairs.lookup "Include" →
          other.pairs.lookup "Version" = reference.pairs.lookup "Version" →
          (buildProject other.text).imports = (buildProject reference.text).imports) ∧
        ∀ extra, other.pairs.Perm (reference.pairs ++ extra) →
          (∀ pair ∈ extra, pair.1 ≠ "Include" ∧ pair.1 ≠ "Version") →
          (buildProject other.text).imports = (buildProject reference.text).imports := by
  refine ⟨fun name => ?_, fun reference => ⟨reference.imports_text, ?_, fun other tag => ?_⟩⟩
  · rw [document.imports_eq, NameSet.mem_ofList, List.mem_filterMap]
    refine exists_congr fun reference => and_congr_right fun _ => ?_
    rw [reference.imports_text, NameSet.mem_ofList, Option.mem_toList]
  · rw [reference.imports_text, ← reference.label?_eq_none_iff, List.eq_nil_iff_forall_not_mem,
      Option.eq_none_iff_forall_not_mem]
    refine forall_congr' fun name => not_congr ?_
    rw [NameSet.mem_ofList, Option.mem_toList, Option.mem_def]
  · have alike (included : other.pairs.lookup "Include" = reference.pairs.lookup "Include")
        (version : other.pairs.lookup "Version" = reference.pairs.lookup "Version") :
        (buildProject other.text).imports = (buildProject reference.text).imports := by
      rw [other.imports_text, reference.imports_text, Reference.label?_congr tag included version]
    refine ⟨alike, fun extra perm elsewhere => alike ?_ ?_⟩
    · exact Reference.lookup_of_perm perm fun pair member => (elsewhere pair member).1
    · exact Reference.lookup_of_perm perm fun pair member => (elsewhere pair member).2

/-- An attribute behind one space, without further blanks. -/
def spacedSetting (name value : String) (isWord : IsWord name) (unquoted : '"' ∉ value.toList)
    (unclosed : '>' ∉ value.toList) : Setting :=
  ⟨.space, name, isWord, ⟨[], List.forall_mem_nil _⟩, ⟨[], List.forall_mem_nil _⟩, value, unquoted,
    unclosed⟩

/-- `<PackageReference Version="13.0.3" Include="Newtonsoft.Json">` -/
def versionedPackage : Reference where
  tag := "PackageReference"
  known := by decide
  settings := [spacedSetting "Version" "13.0.3" (by decide) (by decide) (by decide),
    spacedSetting "Include" "Newtonsoft.Json" (by decide) (by decide) (by decide)]
  distinct := by decide
  ending := ⟨[], List.forall_mem_nil _⟩
  isClosed := false

/-- `<PackageReference Include="Newtonsoft.Json" Label=" Include=" Version="13.0.3" />` -/
def labelledPackage : Reference where
  tag := "PackageReference"
  known := by decide
  settings := [spacedSetting "Include" "Newtonsoft.Json" (by decide) (by decide) (by decide),
    spacedSetting "Label" " Include=" (by decide) (by decide) (by decide),
    spacedSetting "Version" "13.0.3" (by decide) (by decide) (by decide)]
  distinct := by decide
  ending := ⟨Gap.space.text, Gap.space.blank⟩
  isClosed := true

/-- Both references in an element around them, the first with a closing tag. -/
def packageDocument : Document where
  pieces := [(⟨"<ItemGroup>".toList, by decide⟩, versionedPackage),
    (⟨"</PackageReference>".toList, by decide⟩, labelledPackage)]
  ending := ⟨"</ItemGroup>".toList, by decide⟩

/-- The two references are recorded alike, so the document has one import. -/
theorem imports_of_packageDocument :
    labelledPackage.pairs.Perm (versionedPackage.pairs ++ [("Label", " Include=")]) ∧
      (buildProject labelledPackage.text).imports = (buildProject versionedPackage.text).imports ∧
      ∀ name, name ∈ (buildProject packageDocument.text).imports.toList ↔
        name = "PackageReference:Newtonsoft.Json (13.0.3)" := by
  obtain ⟨union, each⟩ := imports_of_references packageDocument
  obtain ⟨recorded, -, alike⟩ := each versionedPackage
  have perm : labelledPackage.pairs.Perm (versionedPackage.pairs ++ [("Label", " Include=")]) := by
    decide
  have same := (alike labelledPackage rfl).2 _ perm (by decide)
  refine ⟨perm, same, fun name => ?_⟩
  have label : versionedPackage.label? = some "PackageReference:Newtonsoft.Json (13.0.3)" := by
    decide
  have references : packageDocument.references = [versionedPackage, labelledPackage] := rfl
  rw [union, references]
  simp [same, recorded, label, NameSet.mem_ofList]

end DotNet
end Manifest
end SourceAtlas
