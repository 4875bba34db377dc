import SourceAtlas.Dependencies
import SourceAtlas.Pattern.Match

/-!
# Project descriptions in XML

The project's own coordinates are those outside of the elements that describe other
artifacts.
-/

namespace SourceAtlas
namespace Manifest
namespace Project

open Pattern

/-- An element without attributes, up to its next closing tag. -/
def element (tag : String) : Pattern := sequence [
  literal ("<" ++ tag ++ ">"), captured 1 [shortRun fun _ => true],
  literal ("</" ++ tag ++ ">")]

/-- The elements whose coordinates are not those of the project. -/
def foreignElement : Pattern :=
  anyOf (["parent", "dependencies", "dependencyManagement", "build", "profiles"].map element)

/-- The trimmed text of the first element with a tag, unless nothing is left of it. -/
def elementText? (text : Text) (tag : String) : Option String := do
  let (_, inside) ← Text.splitAtFirst? ("<" ++ tag ++ ">").toList text
  let (content, _) ← Text.splitAtFirst? ("</" ++ tag ++ ">").toList inside
  let trimmed := Text.trim content
  if trimmed.isEmpty then none else some (String.ofList trimmed)

/-- The entry of a dependency, if it has a group and an artifact. -/
def dependencyName? (dependency : Text) : Option String := do
  let group ← elementText? dependency "groupId"
  let artifact ← elementText? dependency "artifactId"
  match elementText? dependency "version" with
  | some version => return "Dependency:" ++ group ++ ":" ++ artifact ++ " (" ++ version ++ ")"
  | none => return "Dependency:" ++ group ++ ":" ++ artifact

end Project

/-- The coordinates and dependencies of a project; none if there is no project. -/
def project? (text : Text) : Option Dependencies :=
  if !Text.occursIn "<project".toList text then none
  else
    let own := Project.foreignElement.erase text
    let artifact := Project.elementText? own "artifactId"
    let coordinates :=
      (Project.elementText? own "groupId").toList.map ("GroupId:" ++ ·) ++
        (Project.elementText? own "version").toList.map ("Version:" ++ ·)
    some
      { imports := NameSet.ofList
          (((Project.element "dependency").matchesIn text).filterMap fun found =>
            Project.dependencyName? (found.text 1))
        exports := NameSet.ofList (artifact.toList.map ("Artifact:" ++ ·))
        symbols := if artifact.isSome then NameSet.ofList coordinates else .empty }

end Manifest
end SourceAtlas
