import SourceAtlas.Deadline
import SourceAtlas.Relation
import SourceAtlas.Text.Block

/-!
# From declarations to an analysis

The rules of a language report what they see in a file as a list of declarations: types,
blocks that own what is declared in them, base types, callables and other symbols.
`resolve` classifies the declared names and finds the relations between them.  A name is
classified in three steps: types come first, then callables in the order of their
positions, then all other symbols.
-/

namespace SourceAtlas

/-- A function, method or property, before it is known which type owns it. -/
structure Callable where
  name : String
  /-- What it is as a member. -/
  kind : SymbolKind
  /-- The offset at which it is declared. -/
  position : Nat
  body : Option Span
  /-- The owner, where the declaration spells it out. -/
  owner : Option String := none
  deriving DecidableEq, Repr, Inhabited

/-- A block whose callables belong to a type. -/
structure Scope where
  /-- The type that owns the callables. -/
  owner : String
  /-- Where the block is. -/
  body : Span
  deriving DecidableEq, Repr, Inhabited

/-- One thing that the rules of a language saw in a file. -/
inductive Declaration where
  | type (name : String) (kind : SymbolKind) (body : Option Span)
  /-- A block that belongs to a type without being its declaration. -/
  | scope (owner : String) (body : Span)
  /-- A type or trait that another one is built on. -/
  | base (child parent : String)
  /-- A function, method or property. -/
  | callable (callable : Callable)
  /-- A variable, namespace or anything else that owns nothing. -/
  | symbol (name : String) (kind : SymbolKind) (body : Option Span)
  deriving DecidableEq, Repr, Inhabited

namespace Declaration

/-- A function or method whose owner is decided by the scopes around it. -/
def function (name : String) (position : Nat) (body : Option Span) : Declaration :=
  callable ⟨name, .method, position, body, none⟩

/-- A member of some kind whose owner is decided by the scopes around it. -/
def member (name : String) (kind : SymbolKind) (position : Nat) (body : Option Span) :
    Declaration :=
  callable ⟨name, kind, position, body, none⟩

/-- A method whose owner is spelled out. -/
def methodOf (owner name : String) (position : Nat) (body : Option Span) : Declaration :=
  callable ⟨name, .method, position, body, some owner⟩

def typeSymbol? : Declaration → Option Symbol
  | type name kind _ => some ⟨name, kind, none⟩
  | _ => none

def plainSymbol? : Declaration → Option Symbol
  | symbol name kind _ => some ⟨name, kind, none⟩
  | _ => none

/-- The block in which a declaration owns callables. -/
def scope? : Declaration → Option Scope
  | type name _ (some body) => some ⟨name, body⟩
  | scope owner body => some ⟨owner, body⟩
  | _ => none

/-- The body of a type or plain symbol, under its name. -/
def body? : Declaration → Option (String × Span)
  | type name _ (some body) => some (name, body)
  | symbol name _ (some body) => some (name, body)
  | _ => none

def callable? : Declaration → Option Callable
  | callable declared => some declared
  | _ => none

def baseOf? (child : String) : Declaration → Option String
  | base name parent => if name = child then some parent else none
  | _ => none

end Declaration

/-- The innermost of the scopes around a position: the shortest, and the first declared
among equally short ones. -/
def enclosingScope? (scopes : List Scope) (position : Nat) : Option Scope :=
  (scopes.filter (·.body.contains position)).foldl
    (fun best scope =>
      match best with
      | none => some scope
      | some shortest =>
          if scope.body.length < shortest.body.length then some scope else some shortest)
    none

/-- The callables of some declarations by position; those at one position stay in the
order of their declaration. -/
def callablesByPosition (declarations : List Declaration) : List Callable :=
  (declarations.filterMap Declaration.callable?).mergeSort fun first second =>
    first.position ≤ second.position

def typeTable (declarations : List Declaration) : SymbolTable :=
  ({} : SymbolTable).insertAll (declarations.filterMap Declaration.typeSymbol?)

/-- The owner of a callable: the one spelled out, or else that of the innermost scope
around it, and in either case only if it is a declared type. -/
def Callable.ownerAmong (callable : Callable) (types : SymbolTable) (scopes : List Scope) :
    Option String :=
  (callable.owner.or ((enclosingScope? scopes callable.position).map (·.owner))).filter
    types.hasType

/-- The callables of some declarations by position, each with its owner. -/
def ownedCallables (declarations : List Declaration) : List (Callable × Option String) :=
  let types := typeTable declarations
  let scopes := declarations.filterMap Declaration.scope?
  (callablesByPosition declarations).map fun callable =>
    (callable, callable.ownerAmong types scopes)

/-- What is known after some of the callables are classified. -/
structure Classification where
  /-- The names classified so far. -/
  table : SymbolTable
  /-- The methods of each type as pairs of owner and method, in order. -/
  methods : List (String × String) := []
  /-- The bodies under each name, the first one first. -/
  bodies : List (String × Span) := []

namespace Classification

/-- Records that a type has a method, if the table agrees on the owner. -/
def addMethod (known : Classification) (owner name : String) : Classification :=
  if (known.table.get? name).any (·.owner == some owner) then
    { known with methods := known.methods ++ [(owner, name)] }
  else known

/-- Enters a callable into the table.  A method without owner is a function, unless a
type elsewhere in the file owns one of its name; any other member without owner is
dropped. -/
def enter (namesOwned : List String) (known : Classification) (callable : Callable) :
    Option String → Classification
  | some owner =>
      let symbol : Symbol := ⟨callable.name, callable.kind, some owner⟩
      { known with table := known.table.insert symbol }.addMethod owner callable.name
  | none =>
      if callable.kind = .method && !namesOwned.contains callable.name then
        { known with table := known.table.insert ⟨callable.name, .function, none⟩ }
      else known

/-- Classifies the name of a callable and records its body.  A callable named like a
type is passed over. -/
def add (namesOwned : List String) (known : Classification)
    (owned : Callable × Option String) : Classification :=
  let (callable, owner) := owned
  if known.table.hasType callable.name then known
  else
    let entered := known.enter namesOwned callable owner
    match callable.body with
    | some body => { entered with bodies := entered.bodies ++ [(callable.name, body)] }
    | none => entered

end Classification

def ownedNames (callables : List (Callable × Option String)) : List String :=
  (callables.filter (·.2.isSome)).map (·.1.name)

def classifyNames (declarations : List Declaration) : Classification :=
  let callables := ownedCallables declarations
  let types : Classification :=
    { table := typeTable declarations
      bodies := declarations.filterMap Declaration.body? }
  let known := callables.foldl (Classification.add (ownedNames callables)) types
  { known with
    table := known.table.insertAll (declarations.filterMap Declaration.plainSymbol?) }

/-- How many bytes of the body of a type are searched for uses. -/
def typeSlice : Nat := 2000

/-- How many bytes of any other body are searched for uses. -/
def callableSlice : Nat := 1000

/-- Base types that every type has anyway. -/
def implicitBases : List String := ["object"]

/-- How many bytes of the body of a symbol are searched for uses. -/
def SymbolKind.sliceLimit (kind : SymbolKind) : Nat :=
  if kind.isType then typeSlice else callableSlice

/-- The names that a body can use: those of no member and no namespace. -/
def referableNames (table : SymbolTable) : List String :=
  (table.symbols.filter fun symbol => !symbol.isMember && symbol.kind != .namespace).map
    (·.name)

namespace Classification

/-- The names among those that can be used that occur as words in the body of a symbol,
the symbol's own name left out. -/
def usedNames (known : Classification) (source : Text) (symbol : Symbol) : List String :=
  match known.bodies.lookup symbol.name with
  | none => []
  | some body =>
      let seen :=
        (Text.words (Text.boundedSlice source body symbol.kind.sliceLimit)).map String.ofList
      (referableNames known.table).filter fun target =>
        target != symbol.name && seen.contains target

/-- All relations of a symbol: its bases, then its methods, then its uses. -/
def relationsOf (known : Classification) (declarations : List Declaration) (source : Text)
    (symbol : Symbol) : List Relation :=
  let bases := declarations.filterMap (Declaration.baseOf? symbol.name)
  let methods := (known.methods.filter (·.1 == symbol.name)).map (·.2)
  (bases.filter (!implicitBases.contains ·)).map .inheritsFrom ++
    methods.map .hasMethod ++ (known.usedNames source symbol).map .uses

end Classification

/-- The symbols that some declarations of a source text introduce, and the relations
between them.  The deadline is looked at for every symbol that is no member. -/
def resolve (declarations : List Declaration) (source : Text) (deadline : Deadline) :
    Except Timeout Analysis := do
  let known := classifyNames declarations
  let sources := known.table.symbols.filter (!·.isMember)
  let found ← sources.mapM fun symbol => do
    deadline.check
    return (symbol.name, known.relationsOf declarations source symbol)
  return {
    table := known.table
    relations := found.foldl (fun map (name, relations) => map.pushAll name relations) {} }

end SourceAtlas
