import SourceAtlas.Declaration
import SourceAtlas.Dependencies
import SourceAtlas.Listing

/-!
# Rule sets

A rule set reads source text of one language with patterns, without parsing it.  It
offers an outline for display, the names that the file takes and gives, and the symbols
of the file with their relations.
-/

namespace SourceAtlas

/-- What a rule set may spend and show. -/
structure RuleContext where
  /-- The time the patterns may take. -/
  deadline : Deadline := .unbounded
  /-- How many items of each kind are shown. -/
  caps : DisplayCaps := {}
  deriving DecidableEq, Repr, Inhabited

/-- What is read off the source text of one language. -/
structure RuleSet where
  language : String
  outline : RuleContext → Text → Except Timeout (List String)
  /-- The names that the text imports, exports and declares. -/
  dependencies : RuleContext → Text → Except Timeout Dependencies
  /-- The declared symbols and their relations. -/
  relations : RuleContext → Text → Except Timeout Analysis

namespace Match

/-- The compacted text of a group as a name. -/
def compacted (found : Match) (index : Nat) : String :=
  String.ofList (Text.compact (found.text index))

/-- The compacted text of a group, unless it is blank. -/
def compacted? (found : Match) (index : Nat) : Option String :=
  (found.trimmed? index).map fun text => String.ofList (Text.compact text)

/-- The names listed in a group; none when the group is blank or took no part. -/
def listedNames (found : Match) (index : Nat) : List String :=
  (Text.splitNames (found.text index)).map String.ofList

/-- The body in braces that opens with the last character of the match. -/
def braceBody? (found : Match) (source : Text) : Option Span :=
  Text.braceBody? source (found.stop - 1) 0

end Match

/-- A part of a line behind the words that introduce it; nothing if the part is
missing. -/
def optionally (joint : String) : Option String → String
  | some part => joint ++ part
  | none => ""

/-- A line that names a thing, followed by the part introduced by `joint` if there is
one. -/
def labelled (label name joint : String) (part : Option String) : String :=
  label ++ ": " ++ name ++ optionally joint part

/-- A line that names a callable with its parameters. -/
def signature (name parameters : String) : String :=
  name ++ "(" ++ parameters ++ ")"

end SourceAtlas
