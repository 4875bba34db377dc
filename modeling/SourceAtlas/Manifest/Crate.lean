import SourceAtlas.Dependencies
import SourceAtlas.Toml.Document

/-!
# Package descriptions in TOML
-/

namespace SourceAtlas
namespace Manifest
namespace Crate

def stringAt? (entries : Toml.Entries) (key : String) : Option String :=
  (entries.get? key).bind Toml.Node.string?

/-- The table under a key, empty if there is none. -/
def tableAt (entries : Toml.Entries) (key : String) : Toml.Entries :=
  ((entries.get? key).bind Toml.Node.table?).getD []

/-- The version that a dependency asks for. -/
def requirement? : Toml.Node → Option String
  | .string version => some version
  | .table _ entries => stringAt? entries "version"
  | _ => none

def entry (label name : String) (node : Toml.Node) : String :=
  match requirement? node with
  | some version => label ++ ":" ++ name ++ " (" ++ version ++ ")"
  | none => label ++ ":" ++ name

/-- The tables of dependencies, with what their entries are called. -/
def sections : List (String × String) := [
  ("dependencies", "dependency"),
  ("dev-dependencies", "devDependency"),
  ("build-dependencies", "buildDependency")]

/-- What a package takes and gives. -/
def dependencies (document : Toml.Entries) : Dependencies where
  imports := NameSet.ofList (sections.flatMap fun (heading, label) =>
    (tableAt document heading).map fun (name, node) => entry label name node)
  exports := NameSet.ofList
    ((stringAt? (tableAt document "package") "name").toList.map ("Crate:" ++ ·))
  symbols := NameSet.ofList
    ((stringAt? (tableAt document "package") "version").toList.map ("Version:" ++ ·))

end Crate

/-- What a package description takes and gives; none if it cannot be read. -/
def crate? (text : Text) : Option Dependencies :=
  (Toml.parse? text).map Crate.dependencies

end Manifest
end SourceAtlas
