import SourceAtlas.Rules.Basic

/-!
# Rules for C#

Types are found by their keywords with the modifiers in front, methods and properties by
lines that begin like a declaration.  Every type of the file is offered to other files
under its namespace.
-/

namespace SourceAtlas
namespace CSharp

open Pattern

/-- A using directive, plain or static. -/
def usingDirective : Pattern := sequence [
  lineStart, indentation, maybe ["global", gap], "using", gap, maybe ["static", gap],
  captured 1 [someOf (identifierOr ".")], blanks, ";"]

/-- A namespace, for a block or for the whole file. -/
def namespaceClause : Pattern := sequence [
  wordEdge, "namespace", gap, captured 1 [someOf (identifierOr ".")], blanks,
  one (among "\x7b;")]

/-- The header of a type up to its opening brace or semicolon: modifiers, keyword, name
and bases. -/
def typeHeader : Pattern := sequence [
  captured 1 [modifiers ["public", "internal", "private", "protected", "abstract",
    "sealed", "static", "partial", "readonly", "ref", "file"]],
  wordEdge, captured 2 [oneWordOf ["class", "interface", "struct", "enum", "record"]], gap,
  maybe [oneWordOf ["class", "struct"], gap], captured 3 [identifier],
  maybe [blanks, "<", run (except ">\x7b;"), ">"],
  maybe [blanks, "(", run (except ")"), ")"],
  maybe [blanks, ":", blanks, captured 4 [fewOf (except "\x7b;")]], blanks,
  maybe [wordEdge, "where", wordEdge, run (except "\x7b;")],
  captured 5 [one (among "\x7b;")]]

def memberType : Pattern := captured 2 [
  someOf (identifierOr "."), maybe ["<", run (except ";\x7b\x7d()\n"), ">"],
  maybe ["[]"], maybe ["?"]]

/-- A method up to its opening brace, arrow or semicolon: modifiers, return type, name
and parameters. -/
def methodHeader : Pattern := sequence [
  lineStart, indentation,
  captured 1 [modifiers ["public", "internal", "private", "protected", "static",
    "virtual", "abstract", "override", "async", "sealed", "new", "extern", "partial",
    "unsafe"]],
  memberType, gap, captured 3 [identifier], blanks, maybe ["<", run (except ">(\n"), ">"],
  blanks, "(", captured 4 [run (except ")")], ")", blanks,
  maybe [wordEdge, "where", wordEdge, run (except "\x7b;=")],
  captured 5 [anyOf ["\x7b", "=>", ";"]]]

/-- A property up to its first accessor. -/
def propertyHeader : Pattern := sequence [
  lineStart, indentation,
  captured 1 [modifiers ["public", "internal", "private", "protected", "static",
    "virtual", "abstract", "override", "sealed", "new", "required"]],
  memberType, gap, captured 3 [identifier], blanks, captured 4 ["\x7b"], blanks,
  oneWordOf ["get", "set", "init"], wordEdge]

/-- Words that stand where a return type is expected although no member is declared. -/
def notReturnTypes : List String :=
  ["return", "new", "else", "throw", "case", "await", "public", "internal", "private",
    "protected", "static", "yield"]

/-- Words that look like the name of a method but are none. -/
def notMethods : List String :=
  ["if", "for", "foreach", "while", "switch", "catch", "using", "lock", "fixed", "nameof"]

/-- The keywords of types. -/
inductive TypeKeyword where
  | «class» | interface | struct | enum | record
  deriving DecidableEq, Repr, Inhabited

namespace TypeKeyword

/-- The keyword that a text spells; any other text counts as a class. -/
def ofText (text : Text) : TypeKeyword :=
  if text = "interface".toList then .interface
  else if text = "struct".toList then .struct
  else if text = "enum".toList then .enum
  else if text = "record".toList then .record
  else .class

def kind : TypeKeyword → SymbolKind
  | .class => .class
  | .interface => .interface
  | .struct => .struct
  | .enum => .enum
  | .record => .record

def title : TypeKeyword → String
  | .class => "Class"
  | .interface => "Interface"
  | .struct => "Struct"
  | .enum => "Enum"
  | .record => "Record"

end TypeKeyword

/-- A type as its header shows it. -/
structure TypeBlock where
  name : String
  keyword : TypeKeyword
  /-- The bases as they are written. -/
  bases : Option String
  body : Option Span
  deriving DecidableEq, Repr, Inhabited

/-- A method or property as its header shows it. -/
structure MemberBlock where
  name : String
  /-- The parameters as they are written; empty for a property. -/
  parameters : String
  /-- The offset of the name. -/
  position : Nat
  body : Option Span
  deriving DecidableEq, Repr, Inhabited

/-- The body that opens at a group, if that group is an opening brace. -/
def bodyAt? (source : Text) (found : Match) (index : Nat) : Option Span :=
  if found.text index == ['\x7b'] then Text.braceBody? source (found.place index) 0 else none

def typeOf (source : Text) (found : Match) : TypeBlock where
  name := found.name 3
  keyword := .ofText (found.text 2)
  bases := found.compacted? 4
  body := bodyAt? source found 5

/-- The method of a header, unless a statement only looks like one. -/
def methodOf? (source : Text) (found : Match) : Option MemberBlock :=
  if notReturnTypes.contains (found.name 2) || notMethods.contains (found.name 3) then none
  else some ⟨found.name 3, found.compacted 4, found.place 3, bodyAt? source found 5⟩

/-- The property of a header, unless a statement only looks like one. -/
def propertyOf? (source : Text) (found : Match) : Option MemberBlock :=
  if notReturnTypes.contains (found.name 2) then none
  else some ⟨found.name 3, "", found.place 3, bodyAt? source found 4⟩

def namespace? (deadline : Deadline) (source : Text) : Except Timeout (Option String) := do
  return (← namespaceClause.firstWithin deadline source).map (·.name 1)

def types (deadline : Deadline) (source : Text) : Except Timeout (List TypeBlock) := do
  return (← typeHeader.matchesWithin deadline source).map (typeOf source)

def methods (deadline : Deadline) (source : Text) : Except Timeout (List MemberBlock) := do
  return (← methodHeader.matchesWithin deadline source).filterMap (methodOf? source)

def properties (deadline : Deadline) (source : Text) :
    Except Timeout (List MemberBlock) := do
  return (← propertyHeader.matchesWithin deadline source).filterMap (propertyOf? source)

/-- The line that names the namespace. -/
def namespaceLines (name : Option String) : List String :=
  match name with
  | some name => ["", "Namespace: " ++ name]
  | none => []

/-- The outline: namespace, using directives, types and methods. -/
def outline (context : RuleContext) (source : Text) : Except Timeout (List String) := do
  let name ← namespace? context.deadline source
  let usings ← usingDirective.matchesWithin context.deadline source
  let types ← types context.deadline source
  let methods ← methods context.deadline source
  let shown := methods.filter fun method => !types.any (·.name == method.name)
  let sections : List Section :=
    [⟨"Usings", usings.map ("Using: " ++ ·.name 1), some ⟨context.caps.imports, "usings"⟩⟩,
      ⟨"Types", types.map fun type => labelled type.keyword.title type.name " : " type.bases,
        none⟩,
      ⟨"Methods",
        shown.map fun method => "Method: " ++ signature method.name method.parameters,
        some ⟨context.caps.functions, "methods"⟩⟩]
  return namespaceLines name ++ sections.flatMap (·.lines)

/-- A type name behind the namespace it is declared in. -/
def exportedName (space : Option String) (name : String) : String :=
  match space with
  | some space => space ++ "." ++ name
  | none => name

/-- The imports, exports and declared names of a source text. -/
def dependencies (context : RuleContext) (source : Text) :
    Except Timeout Dependencies := do
  let usings ← usingDirective.matchesWithin context.deadline source
  let space ← namespace? context.deadline source
  let types ← types context.deadline source
  let methods ← methods context.deadline source
  let properties ← properties context.deadline source
  return {
    imports := NameSet.ofList (usings.map (·.name 1))
    exports := NameSet.ofList <|
      (space.map ("namespace:" ++ ·)).toList ++ types.map fun type => exportedName space type.name
    symbols := NameSet.ofList <|
      types.map (·.name) ++ (methods ++ properties).map (·.name) }

/-- The declarations of a type: the type itself and its bases. -/
def typeDeclarations (type : TypeBlock) : List Declaration :=
  let bases := (type.bases.map fun list => Text.splitNames list.toList).getD []
  .type type.name type.keyword.kind type.body ::
    bases.map fun base => .base type.name (String.ofList base)

def declarations (deadline : Deadline) (source : Text) :
    Except Timeout (List Declaration) := do
  let space ← namespace? deadline source
  let types ← types deadline source
  let methods ← methods deadline source
  let properties ← properties deadline source
  return (space.map fun name => .symbol ("namespace:" ++ name) .namespace none).toList ++
    types.flatMap typeDeclarations ++
    methods.map (fun method => .function method.name method.position method.body) ++
    properties.map fun property =>
      .member property.name .property property.position property.body

def relations (context : RuleContext) (source : Text) : Except Timeout Analysis := do
  resolve (← declarations context.deadline source) source context.deadline

def rules : RuleSet := ⟨"csharp", outline, dependencies, relations⟩

end CSharp
end SourceAtlas
