import SourceAtlas.Proofs.ProjectElements

/-!
# Projects written as elements

A project is written as nested elements: its parent, its own coordinates and one block of
dependencies, with blanks wherever one tag follows another.  Reading such a text gives back the
project's own coordinates and its dependencies, whatever coordinates its parent has.
-/

namespace SourceAtlas
namespace Manifest
namespace Project

open Text Pattern

/-- An artifact that a project takes its settings from. -/
structure Parent where
  margin : Margin
  coordinates : Coordinates
  ending : Margin

namespace Parent

def inner (parent : Parent) : Text :=
  parent.coordinates.text ++ parent.ending.text

def text (parent : Parent) : Text :=
  parent.margin.text ++ (opening "parent" ++ (parent.inner ++ closing "parent"))

theorem avoids (parent : Parent) {name : Text} (closed : '>' ∉ name)
    (foreign : ∀ tag ∈ "parent" :: Coordinates.tags, IsForeign name tag) :
    Avoids (mark name) parent.text := by
  obtain ⟨here, others⟩ := List.forall_mem_cons.mp foreign
  have inside : Avoids (mark name) parent.inner :=
    (parent.coordinates.avoids closed others).append (parent.ending.avoids name)
  exact (parent.margin.avoids name).append ((avoids_opening closed (by decide) here).append
    (inside.append (avoids_closing closed (by decide) here)))

end Parent

/-- An artifact that a project depends on. -/
structure Dependency where
  margin : Margin
  group : Leaf
  artifact : Leaf
  version : Option Leaf
  ending : Margin

namespace Dependency

def coordinates (dependency : Dependency) : Coordinates :=
  ⟨some dependency.group, some dependency.artifact, dependency.version⟩

def inner (dependency : Dependency) : Text :=
  dependency.coordinates.text ++ dependency.ending.text

def text (dependency : Dependency) : Text :=
  dependency.margin.text ++ (opening "dependency" ++ (dependency.inner ++ closing "dependency"))

def entry (dependency : Dependency) : String :=
  match dependency.version with
  | some version =>
      "Dependency:" ++ dependency.group.name ++ ":" ++ dependency.artifact.name ++ " (" ++
        version.name ++ ")"
  | none => "Dependency:" ++ dependency.group.name ++ ":" ++ dependency.artifact.name

theorem inner_avoids (dependency : Dependency) {name : Text} (closed : '>' ∉ name)
    (foreign : ∀ tag ∈ Coordinates.tags, IsForeign name tag) :
    Avoids (mark name) dependency.inner :=
  (dependency.coordinates.avoids closed foreign).append (dependency.ending.avoids name)

theorem avoids (dependency : Dependency) {name : Text} (closed : '>' ∉ name)
    (foreign : ∀ tag ∈ "dependency" :: Coordinates.tags, IsForeign name tag) :
    Avoids (mark name) dependency.text := by
  obtain ⟨here, others⟩ := List.forall_mem_cons.mp foreign
  exact (dependency.margin.avoids name).append ((avoids_opening closed (by decide) here).append
    ((dependency.inner_avoids closed others).append (avoids_closing closed (by decide) here)))

theorem dependencyName?_inner (dependency : Dependency) :
    dependencyName? dependency.inner = some dependency.entry := by
  obtain ⟨group, artifact, version⟩ := dependency.coordinates.lookup_leaves
  have read {tag : String} (known : tag ∈ Coordinates.tags) :
      elementText? dependency.inner tag =
        (dependency.coordinates.leaves.lookup tag).map Leaf.name :=
    @Coordinates.elementText?_eq dependency.coordinates [] dependency.ending.text tag known
      (avoids_of_notMem List.not_mem_nil) (dependency.ending.avoids _)
  rw [dependencyName?, read (by decide), read (by decide), read (by decide), group, artifact,
    version]
  simp only [coordinates, entry]
  cases dependency.version <;> rfl

end Dependency

/-- A project with its parent, its own coordinates and its dependencies, and with the blanks between
the tags. -/
structure Layout where
  parent : Option Parent
  group : Option Leaf
  artifact : Leaf
  version : Option Leaf
  margin : Margin
  dependencies : List Dependency
  blockEnding : Margin
  ending : Margin

namespace Layout

def coordinates (layout : Layout) : Coordinates :=
  ⟨layout.group, some layout.artifact, layout.version⟩

def parentText (layout : Layout) : Text :=
  layout.parent.toList.flatMap Parent.text

/-- What stands between the tags of the block of dependencies. -/
def block (layout : Layout) : Text :=
  layout.dependencies.flatMap Dependency.text ++ layout.blockEnding.text

def text (layout : Layout) : Text :=
  opening "project" ++ (layout.parentText ++ (layout.coordinates.text ++ (layout.margin.text ++
    (opening "dependencies" ++ (layout.block ++ closing "dependencies") ++
      (layout.ending.text ++ closing "project")))))

/-- What is left without the elements that describe other artifacts. -/
def own (layout : Layout) : Text :=
  opening "project" ++ (layout.parent.toList.flatMap (·.margin.text) ++ (layout.coordinates.text ++
    (layout.margin.text ++ (layout.ending.text ++ closing "project"))))

theorem block_avoids (layout : Layout) {name : Text} (closed : '>' ∉ name)
    (foreign : ∀ tag ∈ "dependency" :: Coordinates.tags, IsForeign name tag) :
    Avoids (mark name) layout.block :=
  (Avoids.flatMap fun dependency _ => dependency.avoids closed foreign).append
    (layout.blockEnding.avoids name)

theorem reads_passed {stretch : Text} (avoids : ∀ tag ∈ foreignTags, Avoids (opening tag) stretch) :
    foreignElement.Reads (fun _ => True) (·.text 1) stretch [] stretch := by
  apply Reads.of_avoids opensWith_foreignElement
  intro opened member
  obtain ⟨tag, listed, rfl⟩ := List.mem_map.mp member
  exact avoids tag listed

theorem reads_parent (parent : Parent) :
    foreignElement.Reads (fun _ => True) (·.text 1) parent.text [parent.inner]
      parent.margin.text := by
  have unclosed : Avoids (closing "parent") parent.inner :=
    (parent.coordinates.avoids (by decide) (by decide)).append (parent.ending.avoids _)
  have whole := (reads_passed fun tag _ => parent.margin.avoids _).append
    (reads_foreignElement (by decide) unclosed)
  rwa [List.append_nil] at whole

theorem erase_text (layout : Layout) : foreignElement.erase layout.text = layout.own := by
  have closed {tag : String} (listed : tag ∈ foreignTags) : '>' ∉ tag.toList :=
    (foreignTags_isTag tag listed).2.1
  have root : ∀ tag ∈ foreignTags, IsForeign tag.toList "project" := by decide
  have inner : ∀ tag ∈ foreignTags, ∀ other ∈ Coordinates.tags, IsForeign tag.toList other := by
    decide
  have start := @reads_passed (opening "project") fun tag listed =>
    avoids_opening (closed listed) (by decide) (root tag listed)
  have parents : foreignElement.Reads (fun _ => True) (·.text 1) layout.parentText _ _ :=
    Reads.flatMap fun parent _ => reads_parent parent
  have coordinates := @reads_passed layout.coordinates.text fun tag listed =>
    layout.coordinates.avoids (closed listed) (inner tag listed)
  have margin := @reads_passed layout.margin.text fun tag _ => layout.margin.avoids _
  have block := @reads_foreignElement "dependencies" _ (by decide)
    (layout.block_avoids (by decide) (by decide))
  have ending := @reads_passed (layout.ending.text ++ closing "project") fun tag listed =>
    (layout.ending.avoids _).append (avoids_closing (closed listed) (by decide) (root tag listed))
  have whole := start.append (parents.append (coordinates.append (margin.append
    (block.append ending))))
  exact whole.erase_eq trivial (opensWith_foreignElement.needsText (by decide))

theorem dependencies_text (layout : Layout) :
    ((element "dependency").matchesIn layout.text).map (·.text 1) =
      layout.dependencies.map Dependency.inner := by
  have passed {stretch : Text} (avoids : Avoids (opening "dependency") stretch) :
      (element "dependency").Reads (fun _ => True) (·.text 1) stretch [] stretch :=
    .of_avoids (opensWith_element _) (by simpa using avoids) _
  have single (dependency : Dependency) :
      (element "dependency").Reads (fun _ => True) (·.text 1) dependency.text [dependency.inner]
        dependency.margin.text := by
    have whole := (passed (dependency.margin.avoids _)).append
      (reads_element (dependency.inner_avoids (by decide) (by decide)))
    rwa [List.append_nil] at whole
  have front : Avoids (opening "dependency") (opening "project" ++ (layout.parentText ++
      (layout.coordinates.text ++ (layout.margin.text ++ opening "dependencies")))) :=
    (avoids_opening (by decide) (by decide) (by decide)).append <|
      (Avoids.flatMap fun parent _ => parent.avoids (by decide) (by decide)).append <|
      (layout.coordinates.avoids (by decide) (by decide)).append <|
      (layout.margin.avoids _).append (avoids_opening (by decide) (by decide) (by decide))
  have back : Avoids (opening "dependency") (layout.blockEnding.text ++ (closing "dependencies" ++
      (layout.ending.text ++ closing "project"))) :=
    (layout.blockEnding.avoids _).append <|
      (avoids_closing (by decide) (by decide) (by decide)).append <|
      (layout.ending.avoids _).append (avoids_closing (by decide) (by decide) (by decide))
  have items : (element "dependency").Reads (fun _ => True) (·.text 1)
      (layout.dependencies.flatMap Dependency.text) _ _ :=
    Reads.flatMap fun dependency _ => single dependency
  have whole := (passed front).append (items.append (passed back))
  have split : layout.text = (opening "project" ++ (layout.parentText ++
      (layout.coordinates.text ++ (layout.margin.text ++ opening "dependencies")))) ++
      (layout.dependencies.flatMap Dependency.text ++ (layout.blockEnding.text ++
        (closing "dependencies" ++ (layout.ending.text ++ closing "project")))) := by
    simp [text, block]
  rw [split, whole.map_matchesIn trivial ((opensWith_element _).needsText (by decide)),
    List.nil_append, List.append_nil]
  exact List.flatMap_pure_eq_map _ _

theorem elementText?_own (layout : Layout) {tag : String} (known : tag ∈ Coordinates.tags) :
    elementText? layout.own tag = (layout.coordinates.leaves.lookup tag).map Leaf.name := by
  have closed := (Coordinates.isTag_of_mem_tags tag known).2.1
  have foreign : ∀ tag ∈ Coordinates.tags, IsForeign tag.toList "project" := by decide
  have front : Avoids (opening tag)
      (opening "project" ++ layout.parent.toList.flatMap (·.margin.text)) :=
    (avoids_opening closed (by decide) (foreign tag known)).append
      (.flatMap fun parent _ => parent.margin.avoids _)
  have back : Avoids (opening tag)
      (layout.margin.text ++ (layout.ending.text ++ closing "project")) :=
    (layout.margin.avoids _).append ((layout.ending.avoids _).append
      (avoids_closing closed (by decide) (foreign tag known)))
  rw [own, ← List.append_assoc]
  exact layout.coordinates.elementText?_eq known front back

end Layout

/-- Reading a project gives its own coordinates and its dependencies, and nothing of what its parent
is or what coordinates the dependencies have on their own. -/
theorem project?_layout (layout : Layout) :
    project? layout.text = some
      { imports := NameSet.ofList (layout.dependencies.map Dependency.entry)
        exports := NameSet.ofList ["Artifact:" ++ layout.artifact.name]
        symbols := NameSet.ofList
          (layout.group.toList.map (fun group => "GroupId:" ++ group.name) ++
            layout.version.toList.map fun version => "Version:" ++ version.name) } := by
  obtain ⟨group, artifact, version⟩ := layout.coordinates.lookup_leaves
  have isProject : occursIn "<project".toList layout.text = true := rfl
  have imports : ((element "dependency").matchesIn layout.text).filterMap
      (fun found => dependencyName? (found.text 1)) = layout.dependencies.map Dependency.entry := by
    have bodies := congrArg (List.filterMap dependencyName?) layout.dependencies_text
    rw [List.filterMap_map, List.filterMap_map] at bodies
    refine bodies.trans ?_
    rw [← List.filterMap_eq_map]
    congr 1
    funext dependency
    exact dependency.dependencyName?_inner
  have read (tag : String) (known : tag ∈ Coordinates.tags) :
      elementText? layout.own tag = (layout.coordinates.leaves.lookup tag).map Leaf.name :=
    layout.elementText?_own known
  rw [project?, isProject]
  simp only [Bool.not_true, Bool.false_eq_true, if_false, layout.erase_text, imports,
    read "artifactId" (by decide), read "groupId" (by decide), read "version" (by decide), group,
    artifact, version]
  simp only [Layout.coordinates]
  cases layout.group <;> cases layout.version <;> rfl

example :
    let tight : Margin := ⟨[], by simp⟩
    let line : Margin := ⟨['\n'], by simp [isBlank]⟩
    let leaf : Leaf := ⟨line, ⟨['a'], by decide, by decide, by decide⟩⟩
    Layout.text ⟨some ⟨tight, ⟨some leaf, none, none⟩, line⟩, none, leaf,
      none, line, [⟨line, leaf, leaf, none, tight⟩], tight, tight⟩ =
    ("<project><parent>\n<groupId>a</groupId>\n</parent>\n<artifactId>a</artifactId>\n" ++
      "<dependencies>\n<dependency>\n<groupId>a</groupId>\n<artifactId>a</artifactId>" ++
      "</dependency></dependencies></project>").toList := by
  decide +kernel

end Project
end Manifest
end SourceAtlas
