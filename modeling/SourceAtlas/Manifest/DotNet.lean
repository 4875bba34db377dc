import SourceAtlas.Dependencies
import SourceAtlas.Pattern.Match

/-!
# Projects and solutions of .NET
-/

namespace SourceAtlas
namespace Manifest
namespace DotNet

open Pattern

/-- A reference to a package or to another project. -/
def reference : Pattern := sequence [
  "<", captured 1 [oneWordOf ["PackageReference", "ProjectReference"]], wordEdge,
  captured 2 [run (except ">")], ">"]

def elementAttribute : Pattern := sequence [
  captured 1 [identifier], blanks, "=", blanks, "\"", captured 2 [run (except "\"")], "\""]

/-- The frameworks that a project is built for. -/
def frameworks : Pattern := sequence [
  "<TargetFramework", maybe ["s"], ">", captured 1 [someOf (except "<")],
  "</TargetFramework", maybe ["s"], ">"]

def solutionProject : Pattern := sequence [
  lineStart, "Project(\"", run (except "\""), "\")", blanks, "=", blanks,
  "\"", captured 1 [someOf (except "\"")], "\",", blanks,
  "\"", captured 2 [someOf (except "\"")], "\""]

def value? (attributes : List Match) (name : String) : Option String :=
  (attributes.reverse.find? (·.name 1 == name)).map (·.name 2)

/-- The entry of a reference, if it says what it includes. -/
def referenceName? (found : Match) : Option String := do
  let attributes := elementAttribute.matchesIn (found.text 2)
  let target ← value? attributes "Include"
  let named := found.name 1 ++ ":" ++ target
  match value? attributes "Version" with
  | some version =>
      return if found.name 1 == "PackageReference" then named ++ " (" ++ version ++ ")"
        else named
  | none => return named

def frameworkNames (found : Match) : List String :=
  ((Text.splitWhere (· == ';') (found.text 1)).map Text.trim).filterMap fun name =>
    if name.isEmpty then none else some ("TargetFramework:" ++ String.ofList name)

end DotNet

/-- The references and frameworks of a project. -/
def buildProject (text : Text) : Dependencies where
  imports := NameSet.ofList ((DotNet.reference.matchesIn text).filterMap DotNet.referenceName?)
  symbols := NameSet.ofList ((DotNet.frameworks.matchesIn text).flatMap DotNet.frameworkNames)

def solution (text : Text) : Dependencies :=
  let projects := DotNet.solutionProject.matchesIn text
  { imports := NameSet.ofList (projects.map fun found => "ProjectReference:" ++ found.name 2)
    symbols := NameSet.ofList (projects.map fun found => "Project:" ++ found.name 1) }

end Manifest
end SourceAtlas
