import SourceAtlas.Text.Words

/-!
# Text patterns

A pattern describes a stretch of text by its characters.  Where several stretches fit,
a pattern also says which one is preferred: an alternative prefers its left branch, and
a repetition either as many or as few rounds as possible.
-/

namespace SourceAtlas

/-- A pattern for a stretch of text, with an order of preference among the stretches
that fit. -/
inductive Pattern where
  /-- The empty stretch. -/
  | nothing
  /-- One character of a class. -/
  | one (accepts : Char → Bool)
  /-- Any number of characters of a class, the longest run preferred. -/
  | run (accepts : Char → Bool)
  /-- Any number of characters of a class, the shortest run preferred. -/
  | shortRun (accepts : Char → Bool)
  /-- The empty stretch at the beginning of a line. -/
  | lineStart
  /-- The empty stretch between an identifier character and any other, or an end of the
  text. -/
  | wordEdge
  /-- One pattern after another. -/
  | followedBy (first second : Pattern)
  | either (first second : Pattern)
  /-- Any number of rounds of a pattern, as many as possible preferred. -/
  | rounds (body : Pattern)
  /-- A pattern whose stretch is reported under a number. -/
  | group (index : Nat) (body : Pattern)

namespace Pattern

/-- All of a list of patterns, one after another. -/
def sequence : List Pattern → Pattern
  | [] => nothing
  | [last] => last
  | first :: others => followedBy first (sequence others)

/-- Any of a list of patterns, the earlier ones preferred. -/
def anyOf : List Pattern → Pattern
  | [] => one fun _ => false
  | [last] => last
  | first :: others => either first (anyOf others)

/-- Exactly the given characters. -/
def literal (text : String) : Pattern :=
  sequence (text.toList.map fun letter => one (· == letter))

instance : Coe String Pattern := ⟨literal⟩

/-- Some patterns in sequence, or the empty stretch if they do not fit. -/
def maybe (parts : List Pattern) : Pattern :=
  either (sequence parts) nothing

/-- A numbered group around some patterns in sequence. -/
def captured (index : Nat) (parts : List Pattern) : Pattern :=
  group index (sequence parts)

/-- Any number of rounds of some patterns in sequence. -/
def repeated (parts : List Pattern) : Pattern :=
  rounds (sequence parts)

/-- At least one character of a class, as many as possible. -/
def someOf (accepts : Char → Bool) : Pattern :=
  followedBy (one accepts) (run accepts)

/-- At least one character of a class, as few as possible. -/
def fewOf (accepts : Char → Bool) : Pattern :=
  followedBy (one accepts) (shortRun accepts)

def among (characters : String) (c : Char) : Bool :=
  characters.toList.contains c

def except (characters : String) (c : Char) : Bool :=
  !among characters c

/-- Whether a character may stand in an identifier or is one of those of a string. -/
def identifierOr (characters : String) (c : Char) : Bool :=
  Text.isIdentifierChar c || among characters c

def blanks : Pattern := run Text.isBlank

/-- At least one blank. -/
def gap : Pattern := someOf Text.isBlank

/-- Spaces and tabs, which do not leave the line. -/
def indentation : Pattern := run (among " \t")

/-- At least one identifier character. -/
def identifier : Pattern := someOf Text.isIdentifierChar

/-- At least one character that is not blank. -/
def field : Pattern := someOf fun c => !Text.isBlank c

/-- Any of some words. -/
def oneWordOf (choices : List String) : Pattern :=
  anyOf (choices.map literal)

/-- Any number of words out of some, each with a gap behind it. -/
def modifiers (choices : List String) : Pattern :=
  repeated [oneWordOf choices, gap]

/-- Whether two characters agree up to case, where the first is an ASCII letter.  The
long s and the Kelvin sign fold to ASCII letters too. -/
def sameLetter (letter c : Char) : Bool :=
  c.toLower == letter.toLower ||
    (letter.toLower == 's' && c == 'ſ') || (letter.toLower == 'k' && c == 'K')

/-- The given ASCII letters in upper or lower case. -/
def keyword (text : String) : Pattern :=
  sequence (text.toList.map fun letter => one (sameLetter letter))

end Pattern
end SourceAtlas
