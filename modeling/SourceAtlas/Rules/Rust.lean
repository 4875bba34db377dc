import SourceAtlas.Rules.Basic

/-!
# Rules for Rust

Types, traits, implementations and functions are found by their keywords.  A use tree is
expanded by one level of grouping, and the methods of an implementation belong to the
type it is for.
-/

namespace SourceAtlas
namespace Rust

open Pattern

def structItem : Pattern := sequence [wordEdge, "struct", gap, captured 1 [identifier]]

/-- An enumeration by its keyword. -/
def enumItem : Pattern := sequence [wordEdge, "enum", gap, captured 1 [identifier]]

def whereClause : Pattern := maybe ["where", wordEdge, run (except "\x7b")]

/-- The header of a trait up to its opening brace. -/
def traitHeader : Pattern := sequence [
  wordEdge, "trait", gap, captured 1 [identifier],
  maybe [blanks, "<", run (except ">\x7b"), ">"],
  maybe [blanks, ":", blanks, captured 2 [fewOf (except "\x7b")]], blanks, whereClause,
  "\x7b"]

/-- The header of an implementation up to its opening brace: a trait, if one is
implemented, and a type. -/
def implHeader : Pattern := sequence [
  wordEdge, "impl", wordEdge, maybe [blanks, "<", run (except ">\x7b"), ">"], gap,
  maybe [captured 1 [someOf fun c => !Text.isBlank c && c != '\x7b'], gap, "for", gap],
  captured 2 [someOf fun c => !Text.isBlank c && c != '\x7b' && c != '<'],
  maybe ["<", shortRun (except "\x7b"), ">"], blanks, whereClause, "\x7b"]

def functionHeader : Pattern := sequence [
  wordEdge, "fn", gap, captured 1 [identifier], blanks,
  maybe ["<", run (except ">("), ">"], blanks, "(", captured 2 [run (except ")")], ")"]

/-- The scope behind a visibility keyword. -/
def visibilityScope : Pattern := maybe ["(", run (except ")"), ")"]

/-- A use declaration, which a visibility keyword makes an export. -/
def useDeclaration : Pattern := sequence [
  lineStart, indentation, maybe [captured 1 ["pub", visibilityScope, gap]], "use", gap,
  captured 2 [someOf (except ";")], ";"]

/-- An item that others can see. -/
def visibleItem : Pattern := sequence [
  wordEdge, "pub", visibilityScope, gap,
  repeated [anyOf ["async", "unsafe", "const",
    sequence ["extern", gap, "\"", run (except "\""), "\""]], gap],
  oneWordOf ["struct", "enum", "trait", "fn", "type", "mod", "const", "static", "union"],
  gap, captured 1 [identifier]]

def anyItem : Pattern := sequence [
  wordEdge, oneWordOf ["struct", "enum", "trait", "fn", "type", "mod", "union"], gap,
  captured 1 [identifier]]

/-- The pieces of a text between the commas outside braces; `depth` braces are open at
its beginning. -/
def splitOutsideBraces : (depth : Nat) → Text → List Text
  | _, [] => [[]]
  | depth, c :: rest =>
      let deeper :=
        if c = '\x7b' then depth + 1 else if c = '\x7d' then depth - 1 else depth
      Text.splitStep (fun c => c == ',' && depth == 0) c (splitOutsideBraces deeper rest)

/-- The path of one item of a group behind `stem`, where `self` stands for the stem. -/
def groupedPath (stem item : Text) : Text :=
  if item = "self".toList then Text.trimEndings [':', ':'] stem else stem ++ item

/-- The paths of a use tree, with one level of grouping expanded. -/
def expandUse (tree : Text) : List Text :=
  let compacted := Text.replaceAll " :: ".toList "::".toList (Text.compact tree)
  match Text.splitAtFirst? ['\x7b'] compacted with
  | none => [compacted]
  | some (stem, behind) =>
      match Text.splitAtLast? ['\x7d'] behind with
      | none => [compacted]
      | some (inside, _) =>
          let items := (splitOutsideBraces 0 inside).map Text.trim
          (items.filter (!·.isEmpty)).map (groupedPath stem)

/-- The name that a use path brings in: its alias or its last segment.  A wildcard, a
group and `self` bring in no name of their own. -/
def boundName? (path : Text) : Option Text :=
  let name :=
    match Text.splitAtFirst? " as ".toList path with
    | some (_, shown) => Text.trim shown
    | none => Text.trim (Text.lastPathSegment path)
  if name.isEmpty || name == ['*'] || name == "self".toList || name.contains '\x7b' then none
  else some name

/-- The name of a type without its path and arguments. -/
def plainType (path : Text) : Text :=
  Text.lastPathSegment (path.takeWhile (· != '<'))

/-- The type that an implementation is for. -/
def implTarget (found : Match) : String :=
  String.ofList (plainType (found.text 2))

def implTrait? (found : Match) : Option String :=
  (found.trimmed? 1).map fun path => String.ofList (plainType path)

def implLine (found : Match) : String :=
  match found.trimmed? 1 with
  | some name => "Impl: " ++ String.ofList name ++ " for " ++ found.name 2
  | none => "Impl: " ++ found.name 2

/-- The outline: structures, enumerations, traits, implementations and functions. -/
def outline (context : RuleContext) (source : Text) : Except Timeout (List String) := do
  let find (pattern : Pattern) := pattern.matchesWithin context.deadline source
  let structs ← find structItem
  let enums ← find enumItem
  let traits ← find traitHeader
  let impls ← find implHeader
  let functions ← find functionHeader
  let sections : List Section :=
    [⟨"Structs", structs.map ("Struct: " ++ ·.name 1), none⟩,
      ⟨"Enums", enums.map ("Enum: " ++ ·.name 1), none⟩,
      ⟨"Traits",
        traits.map fun found => labelled "Trait" (found.name 1) " : " (found.compacted? 2),
        none⟩,
      ⟨"Implementations", impls.map implLine, none⟩,
      ⟨"Functions",
        functions.map fun found => "Function: " ++ signature (found.name 1) (found.compacted 2),
        some ⟨context.caps.functions, "functions"⟩⟩]
  return sections.flatMap (·.lines)

/-- The imports, exports and declared names of a source text. -/
def dependencies (context : RuleContext) (source : Text) :
    Except Timeout Dependencies := do
  let find (pattern : Pattern) := pattern.matchesWithin context.deadline source
  let uses ← find useDeclaration
  let visible ← find visibleItem
  let items ← find anyItem
  let impls ← find implHeader
  let shown := (uses.filter fun found => (found.capture? 1).isSome).flatMap fun found =>
    (expandUse (found.text 2)).filterMap boundName?
  return {
    imports := NameSet.ofList <| uses.flatMap fun found =>
      (expandUse (found.text 2)).map String.ofList
    exports := NameSet.ofList (shown.map String.ofList ++ visible.map (·.name 1))
    symbols := NameSet.ofList <|
      items.map (·.name 1) ++
        impls.flatMap fun found => (implTrait? found).toList ++ [implTarget found] }

/-- The declaration of a structure or enumeration. -/
def typeDeclaration (source : Text) (kind : SymbolKind) (found : Match) : Declaration :=
  .type (found.name 1) kind (Text.braceBody? source found.stop 200)

/-- The declarations of an implementation: its block belongs to the type, and the trait
is a base of the type. -/
def implDeclarations (source : Text) (found : Match) : List Declaration :=
  let target := implTarget found
  ((found.braceBody? source).map (Declaration.scope target)).toList ++
    ((implTrait? found).map fun name => Declaration.base target ("trait:" ++ name)).toList

def functionDeclaration (source : Text) (found : Match) : Declaration :=
  .function (found.name 1) (found.place 1) (Text.braceBody? source found.stop 200)

def declarations (deadline : Deadline) (source : Text) :
    Except Timeout (List Declaration) := do
  let structs ← structItem.matchesWithin deadline source
  let enums ← enumItem.matchesWithin deadline source
  let traits ← traitHeader.matchesWithin deadline source
  let impls ← implHeader.matchesWithin deadline source
  let functions ← functionHeader.matchesWithin deadline source
  return structs.map (typeDeclaration source .struct) ++
    enums.map (typeDeclaration source .enum) ++
    traits.map (fun found => .type (found.name 1) .trait (found.braceBody? source)) ++
    impls.flatMap (implDeclarations source) ++
    functions.map (functionDeclaration source)

def relations (context : RuleContext) (source : Text) : Except Timeout Analysis := do
  resolve (← declarations context.deadline source) source context.deadline

def rules : RuleSet := ⟨"rust", outline, dependencies, relations⟩

end Rust
end SourceAtlas
