import SourceAtlas.Dependencies
import SourceAtlas.Json.Value

/-!
# Package descriptions in JSON

A package description is a JSON object with known fields, or an array that lists the
values of the known fields in their order.  A known field may be given once.  Other fields
may hold anything.
-/

namespace SourceAtlas
namespace Manifest

/-- The known fields of a package description. -/
inductive PackageField where
  | name
  | version
  | dependencies
  | devDependencies
  | peerDependencies
  | scripts
  deriving DecidableEq, Repr, Inhabited

namespace PackageField

def all : List PackageField :=
  [name, version, dependencies, devDependencies, peerDependencies, scripts]

def key : PackageField → String
  | name => "name"
  | version => "version"
  | dependencies => "dependencies"
  | devDependencies => "devDependencies"
  | peerDependencies => "peerDependencies"
  | scripts => "scripts"

def ofKey? (key : String) : Option PackageField :=
  all.find? (·.key == key)

end PackageField

/-- What a package description says. -/
structure Package where
  name : Option String := none
  version : Option String := none
  /-- The packages it needs. -/
  dependencies : List (String × Json.Value) := []
  /-- The packages its development needs. -/
  devDependencies : List (String × Json.Value) := []
  /-- The packages that are expected beside it. -/
  peerDependencies : List (String × Json.Value) := []
  /-- Its commands. -/
  scripts : List (String × Json.Value) := []
  deriving Inhabited

namespace Package

/-- How deep a value in a list of dependencies may be nested: 127 containers less the
description and the list. -/
def maxValueDepth : Nat := 125

/-- A string, or null. -/
def optionalString? : Json.Tree → Option (Option String)
  | .null => some none
  | .string units => (Json.string? units).map some
  | _ => none

/-- An object of any values. -/
def members? : Json.Tree → Option (List (String × Json.Value))
  | .object members => Json.memberValues? members maxValueDepth []
  | _ => none

def set? (package : Package) (field : PackageField) (value : Json.Tree) : Option Package :=
  match field with
  | .name => (optionalString? value).map fun name => { package with name := name }
  | .version => (optionalString? value).map fun version => { package with version := version }
  | .dependencies =>
      (members? value).map fun members => { package with dependencies := members }
  | .devDependencies =>
      (members? value).map fun members => { package with devDependencies := members }
  | .peerDependencies =>
      (members? value).map fun members => { package with peerDependencies := members }
  | .scripts => (members? value).map fun members => { package with scripts := members }

/-- Reads the members of an object; the fields in `known` were given before. -/
def ofMembers? : (members : List (List Json.StringUnit × Json.Tree)) →
    (known : List PackageField) → Package → Option Package
  | [], _, package => some package
  | (key, value) :: others, known, package => do
      let key ← Json.string? key
      match PackageField.ofKey? key with
      | none => ofMembers? others known package
      | some field =>
          if known.contains field then none
          else ofMembers? others (field :: known) (← package.set? field value)

/-- Reads the items of an array as the values of some fields. -/
def ofItems? :
    (items : List Json.Tree) → (fields : List PackageField) → Package → Option Package
  | [], _, package => some package
  | _ :: _, [], _ => none
  | value :: items, field :: fields, package => do
      ofItems? items fields (← package.set? field value)

/-- Reads a package description. -/
def ofTree? : Json.Tree → Option Package
  | .object members => ofMembers? members [] {}
  | .array items => ofItems? items PackageField.all {}
  | _ => none

/-- A string as it is, any other value as it is written. -/
def requirement : Json.Value → String
  | .string text => text
  | other => other.render

def entries (label : String) (members : List (String × Json.Value)) : List String :=
  members.map fun (name, value) => label ++ ":" ++ name ++ " (" ++ requirement value ++ ")"

/-- What a package takes and gives. -/
def toDependencies (package : Package) : Dependencies where
  imports := NameSet.ofList
    (entries "dependency" package.dependencies ++
      entries "devDependency" package.devDependencies ++
      entries "peerDependency" package.peerDependencies)
  exports := NameSet.ofList (package.name.toList.map ("Package:" ++ ·))
  symbols := NameSet.ofList
    (package.version.toList.map ("Version:" ++ ·) ++
      package.scripts.map fun (name, _) => "Script:" ++ name)

end Package

/-- What a package description takes and gives; none if it cannot be read. -/
def package? (text : Text) : Option Dependencies := do
  let tree ← Json.parse? text
  let package ← Package.ofTree? tree
  return package.toDependencies

end Manifest
end SourceAtlas
