import SourceAtlas.Dependencies
import SourceAtlas.Pattern.Match

/-!
# Module descriptions of Go
-/

namespace SourceAtlas
namespace Manifest
namespace GoModule

open Pattern

def moduleName : Pattern := sequence [lineStart, "module", gap, captured 1 [field]]

def singleRequire : Pattern := sequence [
  lineStart, "require", gap, captured 1 [someOf fun c => !Text.isBlank c && c != '('], gap,
  captured 2 [field]]

def requireBlock : Pattern := sequence [
  lineStart, "require", blanks, "(", captured 1 [shortRun fun _ => true], lineStart, ")"]

def entry (name version : String) : String :=
  "Require:" ++ name ++ " (" ++ version ++ ")"

def withoutComment (line : Text) : Text :=
  match Text.splitAtFirst? ['/', '/'] line with
  | some (before, _) => before
  | none => line

def lineRequirement? (line : Text) : Option String :=
  match Text.fields (withoutComment line) with
  | name :: version :: _ => some (entry (String.ofList name) (String.ofList version))
  | _ => none

end GoModule

/-- The name and the requirements of a module. -/
def goModule (text : Text) : Dependencies where
  imports := NameSet.ofList
    ((GoModule.singleRequire.matchesIn text).map (fun found =>
        GoModule.entry (found.name 1) (found.name 2)) ++
      (GoModule.requireBlock.matchesIn text).flatMap fun found =>
        (Text.lines (found.text 1)).filterMap GoModule.lineRequirement?)
  exports := NameSet.ofList
    ((GoModule.moduleName.firstMatch? text).toList.map fun found => "Module:" ++ found.name 1)

end Manifest
end SourceAtlas
