/-!
# TOML tables

A TOML document is a tree of tables.  How a table came to be decides what may still be
added to it: a table with a header of its own is complete, one that was only passed
through by a longer header may get its header later, and one made by a dotted key may be
extended by further dotted keys.
-/

namespace SourceAtlas
namespace Toml

/-- How a table came to be. -/
inductive TableOrigin where
  /-- Written in braces. -/
  | inline
  /-- By a header of its own. -/
  | header
  /-- On the way of a longer header. -/
  | passage
  /-- On the way of a dotted key. -/
  | dotted
  deriving DecidableEq, Repr, Inhabited

/-- A node of a document. -/
inductive Node where
  | string (text : String)
  | boolean (value : Bool)
  | integer (value : Int)
  /-- A number with a fraction or an exponent, as it is written. -/
  | float (written : String)
  /-- A date, a time of day, or both, as they are written. -/
  | moment (written : String)
  | array (items : List Node)
  | table (origin : TableOrigin) (entries : List (String × Node))
  /-- The tables of a repeated header, the last one apart. -/
  | tables (earlier : List (List (String × Node))) (latest : List (String × Node))
  deriving Inhabited

/-- The entries of a table, in the order in which their keys first appear. -/
abbrev Entries := List (String × Node)

namespace Entries

def get? (entries : Entries) (key : String) : Option Node :=
  (entries.find? (·.1 == key)).map (·.2)

/-- Puts another node in place of the one of a key. -/
def replace (entries : Entries) (key : String) (node : Node) : Entries :=
  entries.map fun entry => if entry.1 == key then (key, node) else entry

def add (entries : Entries) (key : String) (node : Node) : Entries :=
  entries ++ [(key, node)]

/-- Adds a node under a dotted key.  The tables on the way must be new or come from dotted
keys or passages; the last of them must come from dotted keys; and the last part of the
key must be new. -/
def addDotted? (last : String) (node : Node) : (path : List String) → Entries → Option Entries
  | [], entries => if (get? entries last).isSome then none else some (add entries last node)
  | key :: others, entries =>
      match get? entries key with
      | none => do
          let inner ← addDotted? last node others []
          return add entries key (.table .dotted inner)
      | some (.table origin inner) =>
          if origin = .dotted || (origin = .passage && !others.isEmpty) then do
            let inner ← addDotted? last node others inner
            return replace entries key (.table origin inner)
          else none
      | some (.tables earlier latest) =>
          if others.isEmpty then none
          else do
            let latest ← addDotted? last node others latest
            return replace entries key (.tables earlier latest)
      | some _ => none

/-- Changes the table of a header path.  Tables on the way that do not exist are made; of
the tables of a repeated header the latest is meant. -/
def modifyAt? (change : Entries → Option Entries) :
    (path : List String) → Entries → Option Entries
  | [], entries => change entries
  | key :: others, entries =>
      match get? entries key with
      | none => do
          let inner ← modifyAt? change others []
          return add entries key (.table .passage inner)
      | some (.table origin inner) =>
          if origin = .inline then none
          else do
            let inner ← modifyAt? change others inner
            return replace entries key (.table origin inner)
      | some (.tables earlier latest) => do
          let latest ← modifyAt? change others latest
          return replace entries key (.tables earlier latest)
      | some _ => none

/-- Opens the table of a header: a new one, or one that was only passed through. -/
def openTable? (key : String) (entries : Entries) : Option Entries :=
  match get? entries key with
  | none => some (add entries key (.table .header []))
  | some (.table .passage inner) => some (replace entries key (.table .header inner))
  | some _ => none

/-- Opens another table of a repeated header. -/
def openElement? (key : String) (entries : Entries) : Option Entries :=
  match get? entries key with
  | none => some (add entries key (.tables [] []))
  | some (.tables earlier latest) =>
      some (replace entries key (.tables (earlier ++ [latest]) []))
  | some _ => none

end Entries

namespace Node

def string? : Node → Option String
  | .string text => some text
  | _ => none

def table? : Node → Option Entries
  | .table _ entries => some entries
  | _ => none

end Node
end Toml
end SourceAtlas
