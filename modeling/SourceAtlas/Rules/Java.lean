import SourceAtlas.Rules.Basic

/-!
# Rules for Java

Types are found by their keywords with the modifiers in front, methods by lines that
begin like a declaration.  Only public and protected names are offered to other files.
-/

namespace SourceAtlas
namespace Java

open Pattern

def packageClause : Pattern := sequence [
  wordEdge, "package", gap, captured 1 [someOf (identifierOr ".")], blanks, ";"]

/-- An import, plain or static. -/
def importClause : Pattern := sequence [
  wordEdge, "import", gap, maybe ["static", gap], captured 1 [someOf (identifierOr ".*")],
  blanks, ";"]

def typeModifiers : Pattern := captured 1 [
  modifiers ["public", "protected", "private", "abstract", "final", "static", "sealed",
    "non-sealed", "strictfp"]]

/-- Type arguments, as short as possible. -/
def typeArguments : Pattern := maybe [blanks, "<", shortRun (except "\x7b"), ">"]

/-- The header of a class up to its opening brace. -/
def classHeader : Pattern := sequence [
  typeModifiers, "class", gap, captured 2 [identifier], typeArguments,
  maybe [gap, "extends", gap, captured 3 [someOf (identifierOr ".")], typeArguments],
  maybe [gap, "implements", gap, captured 4 [fewOf (except "\x7b")]], blanks, "\x7b"]

/-- The header of an interface up to its opening brace. -/
def interfaceHeader : Pattern := sequence [
  typeModifiers, "interface", gap, captured 2 [identifier], typeArguments,
  maybe [gap, "extends", gap, captured 3 [fewOf (except "\x7b")]], blanks, "\x7b"]

/-- The header of an enumeration up to its opening brace. -/
def enumHeader : Pattern := sequence [
  typeModifiers, "enum", gap, captured 2 [identifier],
  maybe [gap, "implements", gap, captured 3 [fewOf (except "\x7b")]], blanks, "\x7b"]

/-- A method up to its opening brace or semicolon: modifiers, return type, name and
parameters. -/
def methodHeader : Pattern := sequence [
  lineStart, indentation,
  captured 1 [modifiers ["public", "protected", "private", "static", "final", "abstract",
    "synchronized", "native", "default"]],
  maybe ["<", run (except ">\n"), ">", gap],
  captured 2 [someOf (identifierOr "."), maybe ["<", run (except ";\x7b\x7d()\n"), ">"],
    repeated ["[]"]],
  gap, captured 3 [identifier], blanks, "(", captured 4 [run (except ")")], ")", blanks,
  maybe ["throws", gap, fewOf fun c => identifierOr ".," c || Text.isBlank c], blanks,
  captured 5 [one (among "\x7b;")]]

/-- Words that stand where a return type is expected although no method is declared. -/
def notReturnTypes : List String :=
  ["return", "new", "else", "throw", "case", "public", "protected", "private", "static",
    "final"]

/-- Words that look like the name of a method but are none. -/
def notMethods : List String :=
  ["if", "for", "while", "switch", "catch", "synchronized"]

/-- A method as its header shows it. -/
structure MethodBlock where
  name : String
  /-- The parameters as they are written. -/
  parameters : String
  /-- Whether other files can see the method. -/
  exported : Bool
  /-- The offset of the name. -/
  position : Nat
  body : Option Span
  deriving DecidableEq, Repr, Inhabited

/-- Whether modifiers make a declaration visible to other files. -/
def isExported (modifiers : Text) : Bool :=
  (Text.fields modifiers).any fun word => word == "public".toList || word == "protected".toList

/-- The method of a header, unless a statement only looks like one. -/
def methodOf? (source : Text) (found : Match) : Option MethodBlock :=
  if notReturnTypes.contains (found.name 2) || notMethods.contains (found.name 3) then none
  else
    some
      { name := found.name 3
        parameters := found.compacted 4
        exported := isExported (found.text 1)
        position := found.place 3
        body := if found.text 5 == ['\x7b'] then found.braceBody? source else none }

def methods (deadline : Deadline) (source : Text) : Except Timeout (List MethodBlock) := do
  return (← methodHeader.matchesWithin deadline source).filterMap (methodOf? source)

/-- The line that names the package. -/
def packageLines (package : Option Match) : List String :=
  match package with
  | some found => ["", "Package: " ++ found.name 1]
  | none => []

def classLine (found : Match) : String :=
  labelled "Class" (found.name 2) " extends " ((found.trimmed? 3).map String.ofList) ++
    optionally " implements " (found.compacted? 4)

/-- The outline: package, imports, classes, interfaces, enumerations and methods. -/
def outline (context : RuleContext) (source : Text) : Except Timeout (List String) := do
  let find (pattern : Pattern) := pattern.matchesWithin context.deadline source
  let package ← packageClause.firstWithin context.deadline source
  let imports ← find importClause
  let classes ← find classHeader
  let interfaces ← find interfaceHeader
  let enums ← find enumHeader
  let methods ← methods context.deadline source
  let classNames := classes.map (·.name 2)
  let shown := methods.filter (!classNames.contains ·.name)
  let sections : List Section :=
    [⟨"Imports", imports.map ("Import: " ++ ·.name 1),
        some ⟨context.caps.imports, "imports"⟩⟩,
      ⟨"Classes", classes.map classLine, none⟩,
      ⟨"Interfaces",
        interfaces.map fun found =>
          labelled "Interface" (found.name 2) " extends " (found.compacted? 3), none⟩,
      ⟨"Enums",
        enums.map fun found =>
          labelled "Enum" (found.name 2) " implements " (found.compacted? 3), none⟩,
      ⟨"Methods",
        shown.map fun method => "Method: " ++ signature method.name method.parameters,
        some ⟨context.caps.functions, "methods"⟩⟩]
  return packageLines package ++ sections.flatMap (·.lines)

/-- The imports, exports and declared names of a source text. -/
def dependencies (context : RuleContext) (source : Text) :
    Except Timeout Dependencies := do
  let find (pattern : Pattern) := pattern.matchesWithin context.deadline source
  let imports ← find importClause
  let classes ← find classHeader
  let interfaces ← find interfaceHeader
  let enums ← find enumHeader
  let methods ← methods context.deadline source
  let types := classes ++ interfaces ++ enums
  return {
    imports := NameSet.ofList (imports.map (·.name 1))
    exports := NameSet.ofList <|
      (types.filter fun found => isExported (found.text 1)).map (·.name 2)
    symbols := NameSet.ofList <|
      types.map (·.name 2) ++ (methods.filter (·.exported)).map (·.name) }

/-- The declarations of a type: the type itself and the bases listed in some groups. -/
def typeDeclarations (source : Text) (kind : SymbolKind) (groups : List Nat)
    (found : Match) : List Declaration :=
  .type (found.name 2) kind (found.braceBody? source) ::
    (groups.flatMap found.listedNames).map (.base (found.name 2))

def declarations (deadline : Deadline) (source : Text) :
    Except Timeout (List Declaration) := do
  let classes ← classHeader.matchesWithin deadline source
  let interfaces ← interfaceHeader.matchesWithin deadline source
  let enums ← enumHeader.matchesWithin deadline source
  let methods ← methods deadline source
  return classes.flatMap (typeDeclarations source .class [3, 4]) ++
    interfaces.flatMap (typeDeclarations source .interface [3]) ++
    enums.flatMap (typeDeclarations source .enum [3]) ++
    methods.map fun method => .function method.name method.position method.body

def relations (context : RuleContext) (source : Text) : Except Timeout Analysis := do
  resolve (← declarations context.deadline source) source context.deadline

def rules : RuleSet := ⟨"java", outline, dependencies, relations⟩

end Java
end SourceAtlas
