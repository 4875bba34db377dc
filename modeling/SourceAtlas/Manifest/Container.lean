import SourceAtlas.Dependencies
import SourceAtlas.Pattern.Match

/-!
# Recipes for container images
-/

namespace SourceAtlas
namespace Manifest
namespace Container

open Pattern

/-- A base image, and the stage that begins with it. -/
def baseImage : Pattern := sequence [
  lineStart, indentation, keyword "FROM", gap,
  repeated ["--", field, gap], captured 1 [field],
  maybe [gap, keyword "AS", gap, captured 2 [field]]]

def openPorts : Pattern := sequence [
  lineStart, indentation, keyword "EXPOSE", gap, captured 1 [someOf (except "\n")]]

def environmentVariable : Pattern := sequence [
  lineStart, indentation, keyword "ENV", gap,
  captured 1 [someOf fun c => !Text.isBlank c && c != '='], either gap "="]

end Container

/-- The base images, stages, ports and variables of a recipe. -/
def container (text : Text) : Dependencies :=
  let images := Container.baseImage.matchesIn text
  let ports := Container.openPorts.matchesIn text
  let environment := Container.environmentVariable.matchesIn text
  { imports := NameSet.ofList (images.map fun found => "BaseImage:" ++ found.name 1)
    symbols := NameSet.ofList
      (images.filterMap (fun found =>
          (found.capture? 2).map fun stage => "Stage:" ++ String.ofList stage.text) ++
        ports.flatMap (fun found =>
          (Text.fields (found.text 1)).map fun port => "Port:" ++ String.ofList port) ++
        environment.map fun found => "Env:" ++ found.name 1) }

end Manifest
end SourceAtlas
