import SourceAtlas.Rules.Basic

/-!
# Rules for C and C++

Both languages share their patterns; namespaces and classes are looked for in C++ only.
A function whose name is qualified is a method of the type in front of the name.
-/

namespace SourceAtlas
namespace CFamily

open Pattern

/-- The two languages. -/
inductive Dialect where
  | c
  | cpp
  deriving DecidableEq, Repr, Inhabited

/-- A namespace up to its opening brace. -/
def namespaceHeader : Pattern := sequence [
  wordEdge, "namespace", gap, captured 1 [identifier], blanks, "\x7b"]

/-- The header of a type with some keyword up to its opening brace. -/
def typeHeader (word : String) : Pattern := sequence [
  wordEdge, word, gap, captured 1 [identifier], maybe [gap, "final"],
  maybe [blanks, ":", blanks, captured 2 [someOf (except "\x7b;")]], blanks, "\x7b"]

def classHeader : Pattern := typeHeader "class"

def structHeader : Pattern := typeHeader "struct"

/-- One word of a return type with what separates it from the next. -/
def returnTypeWord : List Pattern :=
  [someOf (identifierOr ":<>,"), someOf (among " \t*&")]

/-- A function up to its opening brace or semicolon: return type, name and
parameters. -/
def functionHeader : Pattern := sequence [
  lineStart, indentation, maybe ["template", blanks, "<", run (except ">"), ">", blanks],
  captured 1 (returnTypeWord ++ [repeated returnTypeWord]),
  captured 2 [maybe ["~"], someOf (identifierOr ":")], blanks, "(",
  captured 3 [run (except ")")], ")", blanks, maybe ["const", blanks],
  maybe ["noexcept", blanks], maybe ["override", blanks], maybe ["final", blanks],
  captured 4 [one (among "\x7b;")]]

def includeLine : Pattern := sequence [
  lineStart, indentation, "#", blanks, "include", blanks, one (among "<\""),
  captured 1 [someOf (except ">\"")], one (among ">\"")]

/-- Words that begin a statement and no declaration. -/
def notReturnTypes : List String :=
  ["return", "else", "new", "delete", "throw", "case", "goto", "using", "typedef",
    "co_return"]

/-- Words that look like the name of a function but are none. -/
def notFunctions : List String :=
  ["if", "for", "while", "switch", "catch", "sizeof", "return"]

/-- Words that say how a base is inherited. -/
def accessWords : List String := ["public", "protected", "private", "virtual"]

/-- A function as its header shows it. -/
structure FunctionBlock where
  /-- The name of the function, with the qualifiers in front. -/
  name : Text
  /-- The parameters as they are written. -/
  parameters : String
  /-- The offset of the name. -/
  position : Nat
  body : Option Span
  deriving DecidableEq, Repr, Inhabited

/-- The function of a header, unless a statement only looks like one. -/
def functionOf? (source : Text) (found : Match) : Option FunctionBlock :=
  let firstWord := String.ofList ((Text.fields (found.text 1)).head?.getD [])
  if notReturnTypes.contains firstWord || notFunctions.contains (found.name 2) then none
  else
    some
      { name := found.text 2
        parameters := found.compacted 3
        position := found.place 2
        body := if found.text 4 == ['\x7b'] then found.braceBody? source else none }

def functions (deadline : Deadline) (source : Text) :
    Except Timeout (List FunctionBlock) := do
  return (← functionHeader.matchesWithin deadline source).filterMap (functionOf? source)

/-- The name of a base: the last of its words that does not say how it is inherited. -/
def baseName? (base : Text) : Option String :=
  ((Text.fields base).map String.ofList).reverse.find? (!accessWords.contains ·)

/-- The bases of a type, as its header lists them. -/
def baseNames (found : Match) : List String :=
  (Text.splitNames (found.text 2)).filterMap baseName?

/-- The matches of a pattern that only C++ has. -/
def cppOnly (dialect : Dialect) (pattern : Pattern) (deadline : Deadline) (source : Text) :
    Except Timeout (List Match) :=
  match dialect with
  | .c => .ok []
  | .cpp => pattern.matchesWithin deadline source

/-- Whether an outline lists a function: qualified names and operators are left out. -/
def isListed (function : FunctionBlock) : Bool :=
  !Text.occursIn "::".toList function.name && !"operator".toList.isPrefixOf function.name

/-- The outline: namespaces, classes, structures and functions. -/
def outline (dialect : Dialect) (context : RuleContext) (source : Text) :
    Except Timeout (List String) := do
  let namespaces ← cppOnly dialect namespaceHeader context.deadline source
  let classes ← cppOnly dialect classHeader context.deadline source
  let structs ← structHeader.matchesWithin context.deadline source
  let functions ← functions context.deadline source
  let sections : List Section :=
    [⟨"Namespaces", namespaces.map ("Namespace: " ++ ·.name 1), none⟩,
      ⟨"Classes",
        classes.map fun found => labelled "Class" (found.name 1) " : " (found.compacted? 2),
        none⟩,
      ⟨"Structs", structs.map ("Struct: " ++ ·.name 1), none⟩,
      ⟨"Functions",
        (functions.filter isListed).map fun function =>
          "Function: " ++ signature (String.ofList function.name) function.parameters,
        some ⟨context.caps.functions, "functions"⟩⟩]
  return sections.flatMap (·.lines)

/-- The included files and the declared names of a source text. -/
def dependencies (dialect : Dialect) (context : RuleContext) (source : Text) :
    Except Timeout Dependencies := do
  let includes ← includeLine.matchesWithin context.deadline source
  let structs ← structHeader.matchesWithin context.deadline source
  let classes ← cppOnly dialect classHeader context.deadline source
  let functions ← functions context.deadline source
  return {
    imports := NameSet.ofList (includes.map (·.name 1))
    symbols := NameSet.ofList <|
      (structs ++ classes).map (·.name 1) ++
        functions.map fun function => String.ofList (Text.lastPathSegment function.name) }

/-- The declarations of a type: the type itself and its bases. -/
def typeDeclarations (source : Text) (kind : SymbolKind) (found : Match) :
    List Declaration :=
  .type (found.name 1) kind (found.braceBody? source) ::
    (baseNames found).map (.base (found.name 1))

/-- The declaration of a function; a qualified one belongs to the type in front of its
name. -/
def functionDeclaration (function : FunctionBlock) : Declaration :=
  match Text.splitAtLast? "::".toList function.name with
  | some (owner, name) =>
      .methodOf (String.ofList (Text.lastPathSegment owner)) (String.ofList name)
        function.position function.body
  | none => .function (String.ofList function.name) function.position function.body

def declarations (dialect : Dialect) (deadline : Deadline) (source : Text) :
    Except Timeout (List Declaration) := do
  let namespaces ← cppOnly dialect namespaceHeader deadline source
  let classes ← cppOnly dialect classHeader deadline source
  let structs ← structHeader.matchesWithin deadline source
  let functions ← functions deadline source
  return namespaces.map (fun found => .symbol (found.name 1) .namespace none) ++
    classes.flatMap (typeDeclarations source .class) ++
    structs.flatMap (typeDeclarations source .struct) ++
    functions.map functionDeclaration

def relations (dialect : Dialect) (context : RuleContext) (source : Text) :
    Except Timeout Analysis := do
  resolve (← declarations dialect context.deadline source) source context.deadline

def Dialect.name : Dialect → String
  | .c => "c"
  | .cpp => "cpp"

/-- The rules for C or C++. -/
def rules (dialect : Dialect) : RuleSet :=
  ⟨dialect.name, outline dialect, dependencies dialect, relations dialect⟩

end CFamily
end SourceAtlas
