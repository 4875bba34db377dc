/-!
# Symbols and symbol tables

A symbol is a declared name with the kind of thing it names, and with the type it belongs
to when it is a member.  A symbol table lists symbols in the order of their first
insertion and classifies every name once.
-/

namespace SourceAtlas

/-- The kinds of things a name can be declared as. -/
inductive SymbolKind where
  | «class» | interface | enum | struct | trait | record
  | function | method | property | variable | «namespace»
  deriving DecidableEq, Repr, Inhabited

namespace SymbolKind

def all : List SymbolKind :=
  [.class, .interface, .enum, .struct, .trait, .record, .function, .method, .property,
    .variable, .namespace]

def word : SymbolKind → String
  | .class => "class"
  | .interface => "interface"
  | .enum => "enum"
  | .struct => "struct"
  | .trait => "trait"
  | .record => "record"
  | .function => "function"
  | .method => "method"
  | .property => "property"
  | .variable => "variable"
  | .namespace => "namespace"

def ofWord? (text : String) : Option SymbolKind :=
  all.find? (·.word == text)

/-- The kinds of types: these own methods and inherit. -/
def isType : SymbolKind → Bool
  | .class | .interface | .enum | .struct | .trait | .record => true
  | .function | .method | .property | .variable | .namespace => false

end SymbolKind

/-- A declared name, its kind and, for a member, the type that owns it. -/
structure Symbol where
  name : String
  /-- What the name is declared as. -/
  kind : SymbolKind
  /-- The type the symbol is a member of. -/
  owner : Option String := none
  deriving DecidableEq, Repr, Inhabited

namespace Symbol

/-- Whether the symbol belongs to a type. -/
def isMember (symbol : Symbol) : Bool :=
  symbol.owner.isSome

/-- The kind of the symbol and its owner in words. -/
def describe (symbol : Symbol) : String :=
  match symbol.owner with
  | some owner => symbol.kind.word ++ " of " ++ owner
  | none => symbol.kind.word

end Symbol

/-- Symbols in the order of their insertion, at most one of a name. -/
structure SymbolTable where
  /-- The symbols, the earliest first. -/
  symbols : List Symbol := []
  deriving DecidableEq, Repr, Inhabited

namespace SymbolTable

def get? (table : SymbolTable) (name : String) : Option Symbol :=
  table.symbols.find? (·.name == name)

def contains (table : SymbolTable) (name : String) : Bool :=
  table.symbols.any (·.name == name)

/-- Adds a symbol unless its name is classified already. -/
def insert (table : SymbolTable) (symbol : Symbol) : SymbolTable :=
  if table.contains symbol.name then table else ⟨table.symbols ++ [symbol]⟩

/-- Whether inserting a symbol adds it to the table. -/
def admits (table : SymbolTable) (symbol : Symbol) : Bool :=
  !table.contains symbol.name

/-- Adds the symbols of a list one after another. -/
def insertAll (table : SymbolTable) (symbols : List Symbol) : SymbolTable :=
  symbols.foldl insert table

def size (table : SymbolTable) : Nat :=
  table.symbols.length

def isEmpty (table : SymbolTable) : Bool :=
  table.symbols.isEmpty

/-- The kind and owner of a name in words; empty for a name that is not classified. -/
def describe (table : SymbolTable) (name : String) : String :=
  match table.get? name with
  | some symbol => symbol.describe
  | none => ""

def hasType (table : SymbolTable) (name : String) : Bool :=
  (table.get? name).any (·.kind.isType)

end SymbolTable
end SourceAtlas
