import SourceAtlas.Dependencies
import SourceAtlas.Pattern.Match

/-!
# Build scripts of Gradle
-/

namespace SourceAtlas
namespace Manifest
namespace Gradle

open Pattern

/-- A text in quotes, captured under a number. -/
def quoted (index : Nat) : Pattern := sequence [
  one (among "'\""), captured index [someOf (except "'\"")], one (among "'\"")]

def configurations : List String :=
  ["implementation", "api", "compileOnly", "runtimeOnly", "testImplementation",
    "testRuntimeOnly", "testCompileOnly", "annotationProcessor", "kapt"]

def dependency : Pattern := sequence [
  wordEdge, captured 1 [oneWordOf configurations], blanks, maybe ["("], blanks, quoted 2]

/-- A plugin, applied by name or listed by identifier. -/
def plugin : Pattern := either
  (sequence ["apply", gap, "plugin", blanks, ":", blanks, quoted 1])
  (sequence [lineStart, indentation, "id", blanks, maybe ["("], blanks, quoted 1])

end Gradle

/-- The dependencies and plugins of a build script. -/
def gradle (text : Text) : Dependencies where
  imports := NameSet.ofList
    ((Gradle.dependency.matchesIn text).map fun found => found.name 1 ++ ":" ++ found.name 2)
  symbols := NameSet.ofList
    ((Gradle.plugin.matchesIn text).map fun found => "Plugin:" ++ found.name 1)

end Manifest
end SourceAtlas
