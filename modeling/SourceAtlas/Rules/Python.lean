import SourceAtlas.Rules.Basic

/-!
# Rules for Python

Classes and functions are found by their header lines, and their bodies by indentation.
Only names declared without indentation are offered to other files.
-/

namespace SourceAtlas
namespace Python

open Pattern

/-- The header of a class: indentation, name and bases. -/
def classHeader : Pattern := sequence [
  lineStart, captured 1 [indentation], "class", gap, captured 2 [identifier], blanks,
  maybe ["(", captured 3 [run (except ")")], ")"], blanks, ":"]

/-- The header of a function: indentation, name and parameters. -/
def functionHeader : Pattern := sequence [
  lineStart, captured 1 [indentation], maybe ["async", gap], "def", gap,
  captured 2 [identifier], blanks, "(", captured 3 [run (except ")")], ")", blanks,
  maybe ["->", blanks, someOf (except ":\n")], ":"]

/-- A dotted name with an alias, as it stands in an import. -/
def aliasedModule : List Pattern :=
  [someOf (identifierOr "."), maybe [gap, "as", gap, identifier]]

def moduleImport : Pattern := sequence [
  lineStart, indentation, "import", gap,
  captured 1 (aliasedModule ++ [repeated ([indentation, ",", indentation] ++ aliasedModule)])]

/-- An import of names from a module, in parentheses or to the end of the line. -/
def nameImport : Pattern := sequence [
  lineStart, indentation, "from", gap, captured 1 [someOf (identifierOr ".")], gap,
  "import", gap,
  either (sequence ["(", captured 2 [run (except ")")], ")"])
    (captured 3 [someOf (except "\n#")])]

def offeredNames : Pattern := sequence [
  lineStart, "__all__", blanks, maybe ["+"], "=", blanks, one (among "[("),
  captured 1 [run (except "])")], one (among "])")]

def quotedName : Pattern := sequence [
  one (among "'\""), captured 1 [identifier], one (among "'\"")]

/-- A class as its header shows it. -/
structure ClassBlock where
  name : String
  /-- The bases as they are written. -/
  bases : Option String
  /-- Whether the class is declared without indentation. -/
  topLevel : Bool
  body : Span
  deriving DecidableEq, Repr, Inhabited

/-- A function as its header shows it. -/
structure FunctionBlock where
  name : String
  /-- The parameters as they are written. -/
  parameters : String
  /-- Whether the function is declared without indentation. -/
  topLevel : Bool
  /-- The offset of the name. -/
  position : Nat
  body : Span
  deriving DecidableEq, Repr, Inhabited

/-- The width of the indentation in front of a header. -/
def indentOf (found : Match) : Nat :=
  Text.byteLength (found.text 1)

def classOf (source : Text) (found : Match) : ClassBlock where
  name := found.name 2
  bases := found.compacted? 3
  topLevel := indentOf found == 0
  body := Text.indentedBody source found.stop (indentOf found)

def functionOf (source : Text) (found : Match) : FunctionBlock where
  name := found.name 2
  parameters := found.compacted 3
  topLevel := indentOf found == 0
  position := found.place 2
  body := Text.indentedBody source found.stop (indentOf found)

def blocks (deadline : Deadline) (source : Text) :
    Except Timeout (List ClassBlock × List FunctionBlock) := do
  let classes ← classHeader.matchesWithin deadline source
  let functions ← functionHeader.matchesWithin deadline source
  return (classes.map (classOf source), functions.map (functionOf source))

/-- The index of the innermost class around a position: the one with the shortest body,
and the first among equally short ones. -/
def enclosingClass? (classes : List ClassBlock) (position : Nat) : Option Nat :=
  ((classes.zipIdx.filter (·.1.body.contains position)).foldl
    (fun (best : Option (ClassBlock × Nat)) candidate =>
      match best with
      | none => some candidate
      | some shortest =>
          if candidate.1.body.length < shortest.1.body.length then some candidate
          else some shortest)
    none).map (·.2)

/-- Names with a leading underscore are private, unless they have two on either side. -/
def isPublic (name : String) : Bool :=
  let text := name.toList
  text.head? != some '_' ||
    (['_', '_'].isPrefixOf text && ['_', '_'].isSuffixOf text)

/-- The name in an entry of an import list, without its alias.  The wildcard names
nothing. -/
def importedName? (entry : Text) : Option Text := do
  let trimmed := Text.trimEndings ['\\'] (Text.trim entry)
  let name ← (Text.fields trimmed).head?
  if name == ['*'] then none else some name

def importedNames (list : Text) : List Text :=
  (Text.splitWhere (· == ',') list).filterMap importedName?

def qualified (module name : Text) : String :=
  String.ofList (if module.getLast? == some '.' then module ++ name else module ++ '.' :: name)

/-- The names that an import from a module brings in. -/
def namesFrom (found : Match) : List String :=
  let list := ((found.trimmed? 2).or (found.trimmed? 3)).getD []
  (importedNames list).map (qualified (found.text 1))

def classLine (block : ClassBlock) : String :=
  labelled "Class" block.name " extends " block.bases

/-- The functions, each with the index of the innermost class around it. -/
def locate (classes : List ClassBlock) (functions : List FunctionBlock) :
    List (FunctionBlock × Option Nat) :=
  functions.map fun function => (function, enclosingClass? classes function.position)

/-- The functions listed under a class, or outside every class. -/
def functionsIn (located : List (FunctionBlock × Option Nat)) (place : Option Nat) :
    List FunctionBlock :=
  (located.filter (·.2 == place)).map (·.1)

def FunctionBlock.signature (function : FunctionBlock) : String :=
  SourceAtlas.signature function.name function.parameters

/-- The outline: every class with its methods, then the functions outside classes. -/
def outline (context : RuleContext) (source : Text) : Except Timeout (List String) := do
  let (classes, functions) ← blocks context.deadline source
  let located := locate classes functions
  let cap := context.caps.functions
  let classLines := classes.zipIdx.flatMap fun (block, index) =>
    let methods := (functionsIn located (some index)).map fun method =>
      "Method: " ++ method.signature
    "" :: classLine block :: itemLines "  " methods (some ⟨cap, "methods"⟩)
  let free : Section :=
    { title := "Functions"
      items := (functionsIn located none).map (·.signature)
      cap := some ⟨cap, "functions"⟩ }
  return classLines ++ free.lines

/-- The imports, the names offered or declared at top level, and all declared names. -/
def dependencies (context : RuleContext) (source : Text) :
    Except Timeout Dependencies := do
  let modules ← moduleImport.matchesWithin context.deadline source
  let names ← nameImport.matchesWithin context.deadline source
  let offered ← offeredNames.firstWithin context.deadline source
  let (classes, functions) ← blocks context.deadline source
  let declared :=
    classes.map (fun block => (block.name, block.topLevel)) ++
      functions.map (fun block => (block.name, block.topLevel))
  let quoted := offered.toList.flatMap fun found =>
    (quotedName.matchesIn (found.text 1)).map (·.name 1)
  let shown := (declared.filter fun (name, topLevel) => topLevel && isPublic name).map (·.1)
  return {
    imports := NameSet.ofList <|
      (modules.flatMap fun found => (importedNames (found.text 1)).map String.ofList) ++
        names.flatMap namesFrom
    exports := NameSet.ofList (quoted ++ shown)
    symbols := NameSet.ofList (declared.map (·.1)) }

/-- The declarations of a class: the type and its bases, keyword arguments left out. -/
def classDeclarations (block : ClassBlock) : List Declaration :=
  let listed := (block.bases.map fun bases => Text.splitNames bases.toList).getD []
  .type block.name .class (some block.body) ::
    (listed.filter (!·.contains '=')).map fun base => .base block.name (String.ofList base)

def functionDeclaration (block : FunctionBlock) : Declaration :=
  .function block.name block.position (some block.body)

def declarations (deadline : Deadline) (source : Text) :
    Except Timeout (List Declaration) := do
  let (classes, functions) ← blocks deadline source
  return classes.flatMap classDeclarations ++ functions.map functionDeclaration

def relations (context : RuleContext) (source : Text) : Except Timeout Analysis := do
  resolve (← declarations context.deadline source) source context.deadline

def rules : RuleSet := ⟨"python", outline, dependencies, relations⟩

end Python
end SourceAtlas
