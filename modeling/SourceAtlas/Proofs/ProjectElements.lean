import SourceAtlas.Manifest.Project
import SourceAtlas.Proofs.ScannedText

/-!
# Elements of a project description

An element is matched from its opening tag to the first closing one, and its text is looked for at
the first opening tag.  Both depend on where tags stand only, so blanks between tags and the values
of other elements are passed over.
-/

namespace SourceAtlas
namespace Manifest
namespace Project

open Text Pattern

/-! ## Tags -/

/-- A name between angle brackets. -/
def mark (name : Text) : Text :=
  '<' :: (name ++ ['>'])

def opening (tag : String) : Text :=
  mark tag.toList

def closing (tag : String) : Text :=
  mark ('/' :: tag.toList)

theorem opening_ne_nil (tag : String) : opening tag ≠ [] :=
  List.cons_ne_nil _ _

theorem closing_ne_nil (tag : String) : closing tag ≠ [] :=
  List.cons_ne_nil _ _

theorem toList_opening (tag : String) : ("<" ++ tag ++ ">").toList = opening tag := by
  simp [opening, mark]

theorem toList_closing (tag : String) : ("</" ++ tag ++ ">").toList = closing tag := by
  simp [closing, mark]

/-- Whether a text can name an element. -/
def IsTag (tag : String) : Prop :=
  '<' ∉ tag.toList ∧ '>' ∉ tag.toList ∧ '/' ∉ tag.toList

instance (tag : String) : Decidable (IsTag tag) :=
  inferInstanceAs (Decidable (_ ∧ _))

/-- Whether a marked name is none of the tags of an element. -/
def IsForeign (name : Text) (tag : String) : Prop :=
  name ≠ tag.toList ∧ name ≠ '/' :: tag.toList

instance (name : Text) (tag : String) : Decidable (IsForeign name tag) :=
  inferInstanceAs (Decidable (_ ∧ _))

theorem IsTag.isForeign {tag other : String} (isTag : IsTag tag) (differs : tag ≠ other) :
    IsForeign tag.toList other := by
  refine ⟨fun same => differs (String.toList_inj.mp same), fun same => isTag.2.2 ?_⟩
  rw [same]
  exact List.mem_cons_self

theorem eq_of_mark_begins {name other rest : Text} (closed : '>' ∉ name) (alsoClosed : '>' ∉ other)
    (begins : mark name <+: mark other ++ rest) : name = other := by
  obtain ⟨behind, same⟩ := begins
  have tails : name ++ '>' :: behind = other ++ '>' :: rest := by
    simpa [mark] using same
  have front {word : Text} (closed : '>' ∉ word) (rest : Text) :
      (word ++ '>' :: rest).takeWhile (· != '>') = word := by
    have inside : ∀ c ∈ word, (c != '>') = true := by
      intro c member
      rw [bne_iff_ne]
      rintro rfl
      exact closed member
    rw [List.takeWhile_append_of_pos inside]
    simp
  rw [← front closed behind, tails, front alsoClosed]

theorem avoids_mark {name other : Text} (closed : '>' ∉ name) (alsoClosed : '>' ∉ other)
    (unopened : '<' ∉ other) (differs : name ≠ other) : Avoids (mark name) (mark other) := by
  rintro (- | ⟨c, front⟩) back rest split notEmpty
  · rw [List.nil_append] at split
    rw [← split]
    exact fun begins => differs (eq_of_mark_begins closed alsoClosed begins)
  · obtain ⟨rfl, behind⟩ := List.cons.inj split
    have absent : '<' ∉ other ++ ['>'] := by simpa using unopened
    exact avoids_of_notMem absent front back rest behind notEmpty

section Tags

variable {name : Text} {tag : String} (closed : '>' ∉ name) (isTag : IsTag tag)
  (foreign : IsForeign name tag)

include closed isTag foreign

theorem avoids_opening : Avoids (mark name) (opening tag) :=
  avoids_mark closed isTag.2.1 isTag.1 foreign.1

theorem avoids_closing : Avoids (mark name) (closing tag) :=
  avoids_mark closed (by simpa using isTag.2.1) (by simpa using isTag.1) foreign.2

end Tags

/-! ## Elements -/

section Elements

variable {tag : String} {inner : Text}

theorem opening_prefix_of_leads {place : Place} {captures : List Capture} {reached : Progress}
    (leads : (element tag).Leads ⟨place, captures⟩ reached) : opening tag <+: place.rest := by
  obtain ⟨_, first, -⟩ := leads
  obtain ⟨later, passes, -⟩ := leads_literal first
  rw [passes.rest_eq, toList_opening]
  exact List.prefix_append _ _

/-- An element is matched from its opening tag to the first closing one. -/
theorem exists_prefers_element {text rest : Text} {place : Place} (inside : place.IsIn text)
    (ahead : place.rest = opening tag ++ (inner ++ (closing tag ++ rest)))
    (unclosed : Avoids (closing tag) inner) :
    ∃ (later : Place) (taken : Capture),
      place.Passes (opening tag ++ (inner ++ closing tag)) later ∧ later.rest = rest ∧
        taken.index = 1 ∧ taken.text = inner ∧
        (element tag).Prefers ⟨place, []⟩ ⟨later, [taken]⟩ := by
  obtain ⟨opened, overOpening, ahead, prefersOpening⟩ :=
    exists_prefers_literal [] (toList_opening tag) _ ahead
  obtain ⟨ended, overInner, behind⟩ := Place.exists_passes inner _ ahead
  obtain ⟨later, overClosing, behind⟩ := Place.exists_passes (closing tag) rest behind
  obtain ⟨taken, index, listed, prefersTaken⟩ :=
    @exists_prefers_shortest opened ended inner text (fun _ => true)
      (literal ("</" ++ tag ++ ">")) later (inside.pass overOpening) overInner (fun _ _ => rfl)
      (fun _ _ _ => not_leads_literal_of_avoids ahead (toList_closing tag ▸ unclosed))
      (fun _ => prefers_literal (toList_closing tag ▸ overClosing)) 1 []
  exact ⟨later, taken, overOpening.append (overInner.append overClosing), behind, index, listed,
    prefersOpening.followedBy prefersTaken⟩

theorem opensWith_element (tag : String) : (element tag).OpensWith [opening tag] := by
  intro place found matched
  obtain ⟨reached, leads, -⟩ := exists_leads_of_matchAt? matched
  exact ⟨opening tag, List.mem_cons_self, opening_prefix_of_leads leads⟩

theorem reads_of_prefers_element {pattern : Pattern}
    (agrees : ∀ (place : Place) (reached : Progress), opening tag <+: place.rest →
      (element tag).Prefers ⟨place, []⟩ reached → pattern.Prefers ⟨place, []⟩ reached)
    (unclosed : Avoids (closing tag) inner) :
    pattern.Reads (fun _ => True) (·.text 1) (opening tag ++ (inner ++ closing tag)) [inner]
      [] := by
  intro text place rest inside _ ahead
  rw [List.append_assoc, List.append_assoc] at ahead
  obtain ⟨later, taken, passes, behind, index, listed, prefers⟩ :=
    exists_prefers_element inside ahead unclosed
  have prefers := agrees place _ (ahead ▸ List.prefix_append _ _) prefers
  refine ⟨later, _, passes, behind, trivial,
    scans_of_prefers passes (by simp [opening_ne_nil]) prefers, ?_⟩
  simp [Match.text, Match.capture?, index, listed]

theorem reads_element (unclosed : Avoids (closing tag) inner) :
    (element tag).Reads (fun _ => True) (·.text 1) (opening tag ++ (inner ++ closing tag)) [inner]
      [] :=
  reads_of_prefers_element (fun _ _ _ prefers => prefers) unclosed

/-- The tags of the elements whose coordinates are not those of the project. -/
def foreignTags : List String :=
  ["parent", "dependencies", "dependencyManagement", "build", "profiles"]

theorem foreignTags_isTag : ∀ tag ∈ foreignTags, IsTag tag := by
  decide

theorem opensWith_foreignElement : foreignElement.OpensWith (foreignTags.map opening) := by
  intro place found matched
  obtain ⟨reached, leads, -⟩ := exists_leads_of_matchAt? matched
  have among : (anyOf (foreignTags.map element)).Leads ⟨place, []⟩ reached := leads
  obtain ⟨tag, member, leads⟩ := leads_anyOf among
  exact ⟨opening tag, List.mem_map_of_mem member, opening_prefix_of_leads leads⟩

theorem reads_foreignElement (member : tag ∈ foreignTags) (unclosed : Avoids (closing tag) inner) :
    foreignElement.Reads (fun _ => True) (·.text 1) (opening tag ++ (inner ++ closing tag)) [inner]
      [] := by
  refine reads_of_prefers_element (fun place reached begins prefers => ?_) unclosed
  refine @Prefers.anyOf _ _ String element foreignTags tag prefers member ?_
  -- The text begins with the tag of one element, so no other element begins there.
  intro other alsoMember differs reached leads
  obtain ⟨behind, rest⟩ := begins
  have alsoBegins := opening_prefix_of_leads leads
  rw [← rest] at alsoBegins
  have same := eq_of_mark_begins (foreignTags_isTag other alsoMember).2.1
    (foreignTags_isTag tag member).2.1 alsoBegins
  exact differs (String.toList_inj.mp same)

end Elements

/-! ## Coordinates -/

/-- Blanks between two tags. -/
structure Margin where
  text : Text
  blank : ∀ c ∈ text, isBlank c = true

theorem Margin.avoids (margin : Margin) (name : Text) : Avoids (mark name) margin.text :=
  avoids_of_notMem fun member => absurd (margin.blank _ member) (by decide)

/-- What stands between the tags of an element that holds no others. -/
structure Value where
  text : Text
  notEmpty : text ≠ []
  trimmed : trim text = text
  plain : '<' ∉ text

/-- An element that holds a value, with the blanks in front of it. -/
structure Leaf where
  margin : Margin
  value : Value

namespace Leaf

def name (leaf : Leaf) : String :=
  String.ofList leaf.value.text

def text (tag : String) (leaf : Leaf) : Text :=
  leaf.margin.text ++ (opening tag ++ (leaf.value.text ++ closing tag))

theorem avoids (leaf : Leaf) {name : Text} {tag : String} (closed : '>' ∉ name) (isTag : IsTag tag)
    (foreign : IsForeign name tag) : Avoids (mark name) (leaf.text tag) :=
  (leaf.margin.avoids name).append ((avoids_opening closed isTag foreign).append
    ((avoids_of_notMem leaf.value.plain).append (avoids_closing closed isTag foreign)))

end Leaf

section ElementText

variable {tag : String} {front back : Text}

theorem elementText?_eq_none (absent : Avoids (opening tag) back) :
    elementText? back tag = none := by
  rw [elementText?, toList_opening, splitAtFirst?_eq_none absent (opening_ne_nil tag)]
  rfl

theorem elementText?_leaf (absent : Avoids (opening tag) front) (leaf : Leaf) (back : Text) :
    elementText? (front ++ (leaf.text tag ++ back)) tag = some leaf.name := by
  have split : front ++ (leaf.text tag ++ back) = front ++ leaf.margin.text ++
      (opening tag ++ (leaf.value.text ++ (closing tag ++ back))) := by
    simp [Leaf.text]
  have opened : splitAtFirst? (opening tag) (front ++ (leaf.text tag ++ back)) =
      some (front ++ leaf.margin.text, leaf.value.text ++ (closing tag ++ back)) := by
    rw [split]
    exact splitAtFirst?_append (absent.append (leaf.margin.avoids _)) (opening_ne_nil tag) _
  have closed : splitAtFirst? (closing tag) (leaf.value.text ++ (closing tag ++ back)) =
      some (leaf.value.text, back) :=
    splitAtFirst?_append (avoids_of_notMem leaf.value.plain) (closing_ne_nil tag) back
  simp only [elementText?, toList_opening, toList_closing, opened, closed, Option.bind_eq_bind,
    Option.bind_some, leaf.value.trimmed]
  simp [leaf.value.notEmpty, Leaf.name]

def leavesText (leaves : List (String × Leaf)) : Text :=
  leaves.flatMap fun leaf => leaf.2.text leaf.1

/-- Among elements with values, the first one with a tag gives the text for the tag. -/
theorem elementText?_leaves {leaves : List (String × Leaf)} (tags : ∀ leaf ∈ leaves, IsTag leaf.1)
    (isTag : IsTag tag) (front : Text) (before : Avoids (opening tag) front)
    (behind : Avoids (opening tag) back) :
    elementText? (front ++ (leavesText leaves ++ back)) tag =
      (leaves.lookup tag).map Leaf.name := by
  induction leaves generalizing front with
  | nil => exact elementText?_eq_none (before.append behind)
  | cons leaf leaves ih =>
      obtain ⟨other, leaf⟩ := leaf
      obtain ⟨alsoTag, tags⟩ := List.forall_mem_cons.mp tags
      have shift : leavesText ((other, leaf) :: leaves) ++ back =
          leaf.text other ++ (leavesText leaves ++ back) := by
        simp [leavesText]
      rw [shift]
      by_cases same : tag = other
      · subst same
        rw [elementText?_leaf before, List.lookup_cons_self]
        rfl
      · have passed := leaf.avoids isTag.2.1 alsoTag (isTag.isForeign same)
        rw [← List.append_assoc, ih tags _ (before.append passed), List.lookup_cons,
          beq_eq_false_iff_ne.mpr same]

end ElementText

/-- The coordinates of an artifact, of which any may be missing. -/
structure Coordinates where
  group : Option Leaf
  artifact : Option Leaf
  version : Option Leaf

namespace Coordinates

def tags : List String :=
  ["groupId", "artifactId", "version"]

def leaves (coordinates : Coordinates) : List (String × Leaf) :=
  coordinates.group.toList.map ("groupId", ·) ++
    (coordinates.artifact.toList.map ("artifactId", ·) ++
      coordinates.version.toList.map ("version", ·))

def text (coordinates : Coordinates) : Text :=
  leavesText coordinates.leaves

theorem tag_of_mem_leaves (coordinates : Coordinates) :
    ∀ leaf ∈ coordinates.leaves, leaf.1 ∈ tags := by
  obtain ⟨group, artifact, version⟩ := coordinates
  cases group <;> cases artifact <;> cases version <;> simp [leaves, tags]

theorem isTag_of_mem_tags : ∀ tag ∈ tags, IsTag tag := by
  decide

theorem avoids (coordinates : Coordinates) {name : Text} (closed : '>' ∉ name)
    (foreign : ∀ tag ∈ tags, IsForeign name tag) : Avoids (mark name) coordinates.text := by
  apply Avoids.flatMap
  intro leaf member
  have known := coordinates.tag_of_mem_leaves leaf member
  exact leaf.2.avoids closed (isTag_of_mem_tags _ known) (foreign _ known)

theorem elementText?_eq (coordinates : Coordinates) {front back : Text} {tag : String}
    (known : tag ∈ tags) (before : Avoids (opening tag) front)
    (behind : Avoids (opening tag) back) :
    elementText? (front ++ (coordinates.text ++ back)) tag =
      (coordinates.leaves.lookup tag).map Leaf.name := by
  refine elementText?_leaves (fun leaf member => ?_) (isTag_of_mem_tags tag known) front before
    behind
  exact isTag_of_mem_tags _ (coordinates.tag_of_mem_leaves leaf member)

theorem lookup_leaves (coordinates : Coordinates) :
    coordinates.leaves.lookup "groupId" = coordinates.group ∧
      coordinates.leaves.lookup "artifactId" = coordinates.artifact ∧
      coordinates.leaves.lookup "version" = coordinates.version := by
  obtain ⟨group, artifact, version⟩ := coordinates
  cases group <;> cases artifact <;> cases version <;> simp [leaves, List.lookup_cons]

end Coordinates

end Project
end Manifest
end SourceAtlas
