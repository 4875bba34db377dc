import SourceAtlas.Symbol

/-!
# Relations between the symbols of a file

A relation map lists the relations of every symbol in the order of their discovery.  The
symbols stand in the order of their first relation, and repeated relations are kept.
-/

namespace SourceAtlas

/-- What one symbol has to do with another. -/
inductive Relation where
  | inheritsFrom (parent : String)
  | hasMethod (method : String)
  | uses (target : String)
  deriving DecidableEq, Repr, Inhabited

def Relation.label : Relation → String
  | .inheritsFrom parent => "inherits from " ++ parent
  | .hasMethod method => "has method " ++ method
  | .uses target => "uses " ++ target

/-- The relations of each symbol. -/
structure RelationMap where
  /-- The symbols with their relations, the earliest first. -/
  entries : List (String × List Relation) := []
  deriving DecidableEq, Repr, Inhabited

namespace RelationMap

/-- Adds a relation to the entry of its symbol, opening one at the end if there is
none. -/
def pushEntry (source : String) (relation : Relation) :
    List (String × List Relation) → List (String × List Relation)
  | [] => [(source, [relation])]
  | (name, relations) :: others =>
      if name = source then (name, relations ++ [relation]) :: others
      else (name, relations) :: pushEntry source relation others

/-- Adds a relation of a symbol. -/
def push (relations : RelationMap) (source : String) (relation : Relation) : RelationMap :=
  ⟨pushEntry source relation relations.entries⟩

/-- Adds relations of a symbol one after another. -/
def pushAll (relations : RelationMap) (source : String) (found : List Relation) :
    RelationMap :=
  found.foldl (·.push source ·) relations

def get (relations : RelationMap) (source : String) : List Relation :=
  (relations.entries.lookup source).getD []

/-- The number of symbols that have relations. -/
def size (relations : RelationMap) : Nat :=
  relations.entries.length

def isEmpty (relations : RelationMap) : Bool :=
  relations.entries.isEmpty

end RelationMap

/-- The symbols of a file and the relations between them. -/
structure Analysis where
  /-- The declared names. -/
  table : SymbolTable := {}
  /-- What they have to do with each other. -/
  relations : RelationMap := {}
  deriving DecidableEq, Repr, Inhabited

/-- Whether there are neither symbols nor relations. -/
def Analysis.isEmpty (analysis : Analysis) : Bool :=
  analysis.table.isEmpty && analysis.relations.isEmpty

end SourceAtlas
