import SourceAtlas.Rules.Basic

/-!
# Rules for JavaScript and TypeScript

Both languages share their patterns; interfaces and enumerations are looked for in
TypeScript only.  Functions are found in three styles of declaration, and a name counts
once, where it is declared first.
-/

namespace SourceAtlas
namespace JavaScript

open Pattern

/-- The two languages. -/
inductive Dialect where
  | javascript
  | typescript
  deriving DecidableEq, Repr, Inhabited

/-- A module name in quotes, captured under a number. -/
def quotedModule (index : Nat) : Pattern := sequence [
  one (among "'\""), captured index [someOf (except "'\"")], one (among "'\"")]

def namedImport : Pattern := sequence [
  wordEdge, "import", gap, maybe ["type", gap], "\x7b",
  captured 1 [run (except "\x7d")], "\x7d", blanks, "from", blanks, quotedModule 2]

/-- An import of the default of a module, and of listed names beside it. -/
def defaultImport : Pattern := sequence [
  wordEdge, "import", gap, maybe ["type", gap], captured 1 [identifier], blanks,
  maybe [",", blanks, "\x7b", captured 2 [run (except "\x7d")], "\x7d"], blanks,
  "from", blanks, quotedModule 3]

/-- An import of a whole module under a name. -/
def namespaceImport : Pattern := sequence [
  wordEdge, "import", gap, "*", blanks, "as", gap, captured 1 [identifier], gap, "from",
  blanks, quotedModule 2]

/-- An import of a module for its effects. -/
def bareImport : Pattern := sequence [lineStart, blanks, "import", blanks, quotedModule 1]

/-- A call that loads a module. -/
def requireCall : Pattern := sequence [
  wordEdge, "require", blanks, "(", blanks, quotedModule 1, blanks, ")"]

/-- Type arguments that hold neither a closing angle nor a brace. -/
def typeArguments : Pattern := maybe [blanks, "<", run (except ">\x7b"), ">"]

/-- The header of a class up to its opening brace. -/
def classHeader : Pattern := sequence [
  wordEdge, "class", gap, captured 1 [identifier], typeArguments,
  maybe [gap, "extends", gap, captured 2 [someOf (identifierOr ".")], typeArguments],
  maybe [gap, "implements", gap,
    captured 3 [fewOf fun c => identifierOr ".,<>" c || Text.isBlank c]],
  blanks, "\x7b"]

/-- The header of an interface up to its opening brace. -/
def interfaceHeader : Pattern := sequence [
  wordEdge, "interface", gap, captured 1 [identifier], typeArguments,
  maybe [gap, "extends", gap, captured 2 [fewOf (except "\x7b")]], blanks, "\x7b"]

/-- The header of an enumeration up to its opening brace. -/
def enumHeader : Pattern := sequence [
  wordEdge, "enum", gap, captured 1 [identifier], blanks, "\x7b"]

/-- The words that declare a variable. -/
def binder : Pattern := oneWordOf ["const", "let", "var"]

/-- A parameter list, captured under a number. -/
def parameterList (index : Nat) : Pattern := sequence [
  "(", captured index [run (except ")")], ")"]

def functionDeclaration : Pattern := sequence [
  wordEdge, "function", wordEdge, blanks, maybe ["*"], blanks, captured 1 [identifier],
  blanks, maybe ["<", run (except ">("), ">"], blanks, parameterList 2]

def functionExpression : Pattern := sequence [
  wordEdge, binder, gap, captured 1 [identifier], blanks, "=", blanks,
  maybe ["async", gap], "function", wordEdge, blanks, maybe ["*"], blanks,
  run Text.isIdentifierChar, blanks, parameterList 2]

def arrowFunction : Pattern := sequence [
  wordEdge, binder, gap, captured 1 [identifier], blanks,
  maybe [":", someOf (except "=\n")], "=", blanks, maybe ["async", gap],
  either (parameterList 2) (captured 3 [identifier]), blanks,
  maybe [":", blanks, fewOf (except "=\n")], blanks, "=>"]

/-- A method with its opening brace. -/
def methodHeader : Pattern := sequence [
  lineStart, indentation,
  modifiers ["public", "private", "protected", "static", "async", "readonly", "abstract",
    "override", "get", "set"],
  maybe ["*"], blanks, captured 1 [maybe ["#"], identifier], blanks,
  maybe ["<", run (except ">("), ">"], blanks, parameterList 2, blanks,
  maybe [":", blanks, fewOf (except "\x7b;")], blanks, "\x7b"]

/-- A variable assigned at the beginning of a line. -/
def variableAssignment : Pattern := sequence [
  lineStart, maybe ["export", gap], binder, gap, captured 1 [identifier], blanks,
  maybe [":", someOf (except "=\n")], "="]

def exportedDeclaration : Pattern := sequence [
  wordEdge, "export", gap, maybe ["default", gap], maybe ["declare", gap],
  maybe ["async", gap], maybe ["abstract", gap],
  oneWordOf ["class", "function", "const", "let", "var", "interface", "type", "enum"],
  wordEdge, blanks, maybe ["*"], blanks, captured 1 [identifier]]

def exportList : Pattern := sequence [
  wordEdge, "export", blanks, maybe ["type", gap], "\x7b",
  captured 1 [run (except "\x7d")], "\x7d"]

def exportedDefault : Pattern := sequence [
  wordEdge, "export", gap, "default", gap, captured 1 [identifier]]

def declaredName : Pattern := either
  (sequence [wordEdge, oneWordOf ["class", "interface", "const", "let", "var"], gap,
    captured 1 [identifier]])
  (sequence [wordEdge, "function", wordEdge, blanks, maybe ["*"], blanks,
    captured 2 [identifier]])

/-- Words that look like the name of a method but are none. -/
def notMethods : List String :=
  ["if", "for", "while", "switch", "catch", "return", "function", "constructor", "super",
    "else", "do", "with"]

/-- Words that begin a declaration and are no exported name. -/
def declarationKeywords : List String :=
  ["class", "function", "async", "abstract", "interface", "new", "enum", "const", "let",
    "var"]

/-- A class as its header shows it. -/
structure ClassBlock where
  name : String
  /-- The class it extends. -/
  parent : Option String
  /-- The interfaces it implements, as they are written. -/
  interfaces : Option String
  body : Option Span
  deriving DecidableEq, Repr, Inhabited

/-- A function in any style of declaration. -/
structure FunctionBlock where
  name : String
  /-- The parameters as they are written. -/
  parameters : String
  /-- The offset at which the declaration begins. -/
  position : Nat
  body : Option Span
  deriving DecidableEq, Repr, Inhabited

/-- An entry of an import or export list: the name and the name it goes by. -/
def listEntry? (entry : Text) : Option (Text × Text) :=
  let trimmed := Text.trim entry
  let marker := "type ".toList
  let plain := if marker.isPrefixOf trimmed then trimmed.drop marker.length else trimmed
  match Text.fields plain with
  | [] => none
  | [name] => some (name, name)
  | name :: joint :: others =>
      match others with
      | shown :: _ => if joint == ['a', 's'] then some (name, shown) else some (name, name)
      | [] => some (name, name)

def listEntries (list : Text) : List (Text × Text) :=
  (Text.splitWhere (· == ',') list).filterMap listEntry?

def classOf (source : Text) (found : Match) : ClassBlock where
  name := found.name 1
  parent := (found.trimmed? 2).map String.ofList
  interfaces := found.compacted? 3
  body := found.braceBody? source

def classes (deadline : Deadline) (source : Text) : Except Timeout (List ClassBlock) := do
  return (← classHeader.matchesWithin deadline source).map (classOf source)

/-- The function of a declaration whose body begins within `window` bytes. -/
def functionOf (source : Text) (window : Nat) (found : Match) : FunctionBlock where
  name := found.name 1
  parameters :=
    String.ofList (Text.compact (((found.trimmed? 2).or (found.trimmed? 3)).getD []))
  position := found.start
  body := Text.braceBody? source found.stop window

/-- The functions of a list whose name does not occur before, neither in the list nor
among the names `seen`. -/
def firstByName : (seen : List String) → List FunctionBlock → List FunctionBlock
  | _, [] => []
  | seen, function :: others =>
      if seen.contains function.name then firstByName seen others
      else function :: firstByName (function.name :: seen) others

/-- The functions of a source text by position, each name at its first position only. -/
def functions (deadline : Deadline) (source : Text) :
    Except Timeout (List FunctionBlock) := do
  let declared ← functionDeclaration.matchesWithin deadline source
  let expressions ← functionExpression.matchesWithin deadline source
  let arrows ← arrowFunction.matchesWithin deadline source
  let found :=
    declared.map (functionOf source 200) ++ expressions.map (functionOf source 200) ++
      arrows.map (functionOf source 16)
  return firstByName [] (found.mergeSort fun first second => first.position ≤ second.position)

/-- The variables of a source text that hold none of some functions. -/
def variableNames (deadline : Deadline) (source : Text) (functions : List FunctionBlock) :
    Except Timeout (List String) := do
  let found ← variableAssignment.matchesWithin deadline source
  return (found.map (·.name 1)).filter fun name => !functions.any (·.name == name)

def namedImportLine (found : Match) : String :=
  let names := ((Text.splitWhere (· == ',') (found.text 1)).map Text.compact).filter
    (!·.isEmpty)
  "Import: \x7b" ++ ", ".intercalate (names.map String.ofList) ++ "\x7d from '" ++
    found.name 2 ++ "'"

/-- The line for an import under one name from the module in the group `module`. -/
def singleImportLine (module : Nat) (found : Match) : String :=
  "Import: " ++ found.name 1 ++ " from '" ++ found.name module ++ "'"

def importLines (deadline : Deadline) (source : Text) : Except Timeout (List String) := do
  let named ← namedImport.matchesWithin deadline source
  let defaults ← defaultImport.matchesWithin deadline source
  let namespaces ← namespaceImport.matchesWithin deadline source
  let placed (line : Match → String) (found : Match) := (found.start, line found)
  let lines :=
    named.map (placed namedImportLine) ++ defaults.map (placed (singleImportLine 3)) ++
      namespaces.map (placed (singleImportLine 2))
  return (lines.mergeSort fun first second => first.1 ≤ second.1).map (·.2)

/-- The matches of a pattern that only TypeScript has. -/
def typescriptOnly (dialect : Dialect) (pattern : Pattern) (deadline : Deadline)
    (source : Text) : Except Timeout (List Match) :=
  match dialect with
  | .javascript => .ok []
  | .typescript => pattern.matchesWithin deadline source

def classLine (block : ClassBlock) : String :=
  labelled "Class" block.name " extends " block.parent ++
    optionally " implements " block.interfaces

/-- The outline: imports, interfaces, classes, functions and top-level variables. -/
def outline (dialect : Dialect) (context : RuleContext) (source : Text) :
    Except Timeout (List String) := do
  let imports ← importLines context.deadline source
  let interfaces ← typescriptOnly dialect interfaceHeader context.deadline source
  let classes ← classes context.deadline source
  let functions ← functions context.deadline source
  let names ← variableNames context.deadline source functions
  let sections : List Section :=
    [⟨"Imports", imports, some ⟨context.caps.imports, "imports"⟩⟩,
      ⟨"Interfaces",
        interfaces.map fun found =>
          labelled "Interface" (found.name 1) " extends " (found.compacted? 2), none⟩,
      ⟨"Classes", classes.map classLine, none⟩,
      ⟨"Functions",
        functions.map fun function =>
          "Function: " ++ signature function.name function.parameters,
        some ⟨context.caps.functions, "functions"⟩⟩,
      ⟨"Top-level Variables", names.map ("Variable: " ++ ·),
        some ⟨context.caps.variableNames, "variables"⟩⟩]
  return sections.flatMap (·.lines)

/-- The names of an import list behind the module they come from. -/
def namesFrom (module : String) (list : Text) : List String :=
  (listEntries list).map fun (name, _) => module ++ "." ++ String.ofList name

/-- The imports, exports and declared names of a source text. -/
def dependencies (context : RuleContext) (source : Text) :
    Except Timeout Dependencies := do
  let find (pattern : Pattern) := pattern.matchesWithin context.deadline source
  let named ← find namedImport
  let defaults ← find defaultImport
  let namespaces ← find namespaceImport
  let bare ← find bareImport
  let required ← find requireCall
  let exported ← find exportedDeclaration
  let lists ← find exportList
  let default ← find exportedDefault
  let declared ← find declaredName
  let listed := lists.flatMap fun found =>
    (listEntries (found.text 1)).map fun (_, shown) => String.ofList shown
  return {
    imports := NameSet.ofList <|
      named.flatMap (fun found => namesFrom (found.name 2) (found.text 1)) ++
        defaults.flatMap (fun found =>
          (found.name 3 ++ "." ++ found.name 1) :: namesFrom (found.name 3) (found.text 2)) ++
        namespaces.map (fun found => found.name 2 ++ "." ++ found.name 1) ++
        (bare ++ required).map (·.name 1)
    exports := NameSet.ofList <|
      exported.map (·.name 1) ++ listed.filter (· != "default") ++
        (default.map (·.name 1)).filter (!declarationKeywords.contains ·)
    symbols := NameSet.ofList <| declared.filterMap fun found =>
      ((found.trimmed? 1).or (found.trimmed? 2)).map String.ofList }

/-- The declarations of a class: the type, its parent and its interfaces. -/
def classDeclarations (block : ClassBlock) : List Declaration :=
  let interfaces := (block.interfaces.map fun list => Text.splitNames list.toList).getD []
  .type block.name .class block.body ::
    (block.parent.toList ++ interfaces.map String.ofList).map (.base block.name)

/-- The declarations of an interface: the type and its parents. -/
def interfaceDeclarations (source : Text) (found : Match) : List Declaration :=
  .type (found.name 1) .interface (found.braceBody? source) ::
    (found.listedNames 2).map (.base (found.name 1))

def enumDeclaration (source : Text) (found : Match) : Declaration :=
  .type (found.name 1) .enum (found.braceBody? source)

/-- The declaration of a method, for a header inside the body of some class. -/
def methodDeclaration? (source : Text) (classes : List ClassBlock) (found : Match) :
    Option Declaration :=
  let inside := classes.any fun block => block.body.any (·.contains (found.place 1))
  if inside && !notMethods.contains (found.name 1) then
    some (.function (found.name 1) (found.place 1) (found.braceBody? source))
  else none

def declarations (dialect : Dialect) (deadline : Deadline) (source : Text) :
    Except Timeout (List Declaration) := do
  let classes ← classes deadline source
  let interfaces ← typescriptOnly dialect interfaceHeader deadline source
  let enums ← typescriptOnly dialect enumHeader deadline source
  let methods ← methodHeader.matchesWithin deadline source
  let functions ← functions deadline source
  let names ← variableNames deadline source functions
  return classes.flatMap classDeclarations ++
    interfaces.flatMap (interfaceDeclarations source) ++
    enums.map (enumDeclaration source) ++
    methods.filterMap (methodDeclaration? source classes) ++
    names.map (.symbol · .variable none) ++
    functions.map fun function => .function function.name function.position function.body

def relations (dialect : Dialect) (context : RuleContext) (source : Text) :
    Except Timeout Analysis := do
  resolve (← declarations dialect context.deadline source) source context.deadline

def Dialect.name : Dialect → String
  | .javascript => "javascript"
  | .typescript => "typescript"

/-- The rules for JavaScript or TypeScript. -/
def rules (dialect : Dialect) : RuleSet :=
  ⟨dialect.name, outline dialect, dependencies, relations dialect⟩

end JavaScript
end SourceAtlas
