import SourceAtlas.Manifest.Container
import SourceAtlas.Manifest.Crate
import SourceAtlas.Manifest.DotNet
import SourceAtlas.Manifest.GoModule
import SourceAtlas.Manifest.Gradle
import SourceAtlas.Manifest.Package
import SourceAtlas.Manifest.Project
import SourceAtlas.Manifest.Requirements
import SourceAtlas.Path

/-!
# Manifests

A manifest describes a project to a tool.  It imports and exports names like a source
file, where every name says what it stands for.  A manifest that cannot be read, or that
no reader knows, stands for nothing.
-/

namespace SourceAtlas
namespace Manifest

def fileNames : List String :=
  ["package.json", "requirements.txt", "Dockerfile", "docker-compose.yml",
    "docker-compose.yaml", "go.mod", "pom.xml", "build.gradle", "Cargo.toml", "Gemfile",
    "pyproject.toml", "Pipfile", ".gitlab-ci.yml", ".travis.yml", "tsconfig.json",
    "CMakeLists.txt", "Makefile", "serverless.yml", "Chart.yaml", "kustomization.yaml"]

def extensions : List String :=
  ["csproj", "fsproj", "vbproj", "sln", "gradle", "tf"]

def isManifest (path : Bytes) : Bool :=
  fileNames.contains (Path.fileText path) ||
    extensions.contains (Path.lowerExtension path)

/-- The kinds of manifests that can be read. -/
inductive Kind where
  | package
  | requirements
  | container
  | goModule
  | project
  | crate
  | gradle
  | buildProject
  | solution
  deriving DecidableEq, Repr, Inhabited

/-- The kind of the manifest that a path leads to: by the file name, or else by the
extension. -/
def kind? (path : Bytes) : Option Kind :=
  match Path.fileText path with
  | "package.json" => some .package
  | "requirements.txt" => some .requirements
  | "Dockerfile" => some .container
  | "go.mod" => some .goModule
  | "pom.xml" => some .project
  | "Cargo.toml" => some .crate
  | _ =>
      match Path.lowerExtension path with
      | "gradle" => some .gradle
      | "csproj" => some .buildProject
      | "fsproj" => some .buildProject
      | "vbproj" => some .buildProject
      | "sln" => some .solution
      | _ => none

/-- What a manifest of a kind takes and gives; none if it cannot be read. -/
def Kind.read? (text : Text) : Kind → Option Dependencies
  | package => package? text
  | requirements => some (Manifest.requirements text)
  | container => some (Manifest.container text)
  | goModule => some (Manifest.goModule text)
  | project => project? text
  | crate => crate? text
  | gradle => some (Manifest.gradle text)
  | buildProject => some (Manifest.buildProject text)
  | solution => some (Manifest.solution text)

/-- What the manifest at a path takes and gives. -/
def dependencies (path : Bytes) (text : Text) : Dependencies :=
  ((kind? path).bind (Kind.read? text)).getD {}

end Manifest
end SourceAtlas
