import SourceAtlas.Text.Words

/-!
# Listings

The outline of a file is a list of lines, grouped into sections.  A section shows its
items one to a line, and a cap cuts it short with a line that counts the rest.
-/

namespace SourceAtlas

/-- How many items of each kind an outline shows. -/
structure DisplayCaps where
  imports : Nat := 5
  variableNames : Nat := 10
  /-- The cap on functions and methods. -/
  functions : Nat := 15
  deriving DecidableEq, Repr, Inhabited

/-- A limit on the items shown, with the word for the items that are left out. -/
structure Cap where
  /-- The number of items shown at most. -/
  limit : Nat
  /-- What the items are called. -/
  noun : String
  deriving DecidableEq, Repr, Inhabited

def itemMark : String := "└── "

/-- One line per item, and behind a cap a line that counts the items left out. -/
def itemLines (indent : String) (items : List String) (cap : Option Cap) : List String :=
  let line (item : String) := indent ++ itemMark ++ item
  match cap with
  | none => items.map line
  | some cap =>
      let rest := items.length - cap.limit
      (items.take cap.limit).map line ++
        if rest = 0 then []
        else [line ("... and " ++ toString rest ++ " more " ++ cap.noun)]

/-- A titled group of items. -/
structure Section where
  title : String
  items : List String
  cap : Option Cap := none
  deriving DecidableEq, Repr, Inhabited

/-- The lines of a section, which is left out when it has no items. -/
def Section.lines (listed : Section) : List String :=
  if listed.items.isEmpty then []
  else "" :: (listed.title ++ ":") :: itemLines "  " listed.items listed.cap

/-- How a line starts that holds nothing but a comment. -/
def commentMarks : List String := ["//", "#", "/*", "*", "*/"]

/-- Whether a line without the blanks around it holds more than a comment. -/
def isMeaningful (line : Text) : Bool :=
  !line.isEmpty && !commentMarks.any fun mark => mark.toList.isPrefixOf line

/-- The summary of a file in a language without rules: its lines are counted. -/
def lineSummary (source : Text) (language : String) : List String :=
  let lines := Text.lines source
  let meaningful := (lines.map Text.trim).countP isMeaningful
  ["",
    "Language '" ++ language ++ "' parsing not fully implemented.",
    "Showing basic file information:",
    "  " ++ itemMark ++ "Lines of code: " ++ toString lines.length,
    "  " ++ itemMark ++ "Non-empty, non-comment lines: " ++ toString meaningful]

end SourceAtlas
