import SourceAtlas.Text.Basic

/-!
# TOML strings and keys

Strings stand in double quotes, where a backslash begins an escape, or in single quotes,
where every character stands for itself.  With three quotes they may go over several
lines.
-/

namespace SourceAtlas
namespace Toml

/-- The blanks inside a line. -/
def isSpace (c : Char) : Bool :=
  c == ' ' || c == '\t'

/-- A text without the blanks at its beginning. -/
def skipSpace (text : Text) : Text :=
  text.dropWhile isSpace

/-- Whether a character may stand in a comment: any but the control characters, of which
the tab is allowed. -/
def isPrintable (c : Char) : Bool :=
  c == '\t' || (0x20 ≤ c.toNat && c.toNat != 0x7F)

/-- Whether a character may stand for itself between double quotes. -/
def isUnescaped (c : Char) : Bool :=
  isPrintable c && c != '"' && c != '\\'

/-- Whether a character may stand between single quotes. -/
def isLiteral (c : Char) : Bool :=
  isPrintable c && c != '\''

/-- The rest of a text behind the line break at its beginning. -/
def newline? : Text → Option Text
  | '\n' :: rest => some rest
  | '\r' :: '\n' :: rest => some rest
  | _ => none

/-- The value of a hexadecimal digit. -/
def hexDigit? (c : Char) : Option Nat :=
  if c.isDigit then some (c.toNat - '0'.toNat)
  else if 'a' ≤ c && c ≤ 'f' then some (c.toNat - 'a'.toNat + 10)
  else if 'A' ≤ c && c ≤ 'F' then some (c.toNat - 'A'.toNat + 10)
  else none

/-- The number of some hexadecimal digits, behind those of `high`. -/
def hexNumber? (high : Nat) : Text → Option Nat
  | [] => some high
  | c :: rest => (hexDigit? c).bind fun digit => hexNumber? (high * 16 + digit) rest

/-- The character whose number has some hexadecimal digits. -/
def scalar? (digits : Text) : Option Char :=
  (hexNumber? 0 digits).bind fun number =>
    if number.isValidChar then some (Char.ofNat number) else none

def shortEscape? : Char → Option Char
  | 'b' => some '\x08'
  | 'f' => some '\x0c'
  | 'n' => some '\n'
  | 'r' => some '\r'
  | 't' => some '\t'
  | '"' => some '"'
  | '\\' => some '\\'
  | _ => none

/-- The rest of a string behind its double quote, with the characters read so far in
reverse. -/
def readBasic (found : Text) : Text → Option (Text × Text)
  | [] => none
  | '"' :: rest => some (found.reverse, rest)
  | '\\' :: 'u' :: a :: b :: c :: d :: rest =>
      match scalar? [a, b, c, d] with
      | some letter => readBasic (letter :: found) rest
      | none => none
  | '\\' :: 'U' :: a :: b :: c :: d :: e :: f :: g :: h :: rest =>
      match scalar? [a, b, c, d, e, f, g, h] with
      | some letter => readBasic (letter :: found) rest
      | none => none
  | '\\' :: escape :: rest =>
      match shortEscape? escape with
      | some letter => readBasic (letter :: found) rest
      | none => none
  | c :: rest => if isUnescaped c then readBasic (c :: found) rest else none

/-- The rest of a string behind its single quote. -/
def readLiteral (found : Text) : Text → Option (Text × Text)
  | [] => none
  | '\'' :: rest => some (found.reverse, rest)
  | c :: rest => if isLiteral c then readLiteral (c :: found) rest else none

/-- Where a string over several lines stands with a backslash at the end of a line. -/
inductive Folding where
  /-- Not behind such a backslash. -/
  | inactive
  /-- Between the backslash and the end of its line. -/
  | pending
  /-- Among the blanks and line breaks that are left out. -/
  | active
  deriving DecidableEq, Repr, Inhabited

/-- The rest of a string behind three double quotes.  Up to two quotes may stand right
before the closing ones. -/
def readFoldedBasic : (folding : Folding) → (found : Text) → Text → Option (Text × Text)
  | _, _, [] => none
  | .pending, found, '\r' :: '\n' :: rest => readFoldedBasic .active found rest
  | .pending, found, c :: rest =>
      if c == '\n' then readFoldedBasic .active found rest
      else if isSpace c then readFoldedBasic .pending found rest
      else none
  | .active, found, '\r' :: '\n' :: rest => readFoldedBasic .active found rest
  | .inactive, found, '\r' :: '\n' :: rest => readFoldedBasic .inactive ('\n' :: found) rest
  | _, found, '"' :: '"' :: '"' :: '"' :: '"' :: rest =>
      some (('"' :: '"' :: found).reverse, rest)
  | _, found, '"' :: '"' :: '"' :: '"' :: rest => some (('"' :: found).reverse, rest)
  | _, found, '"' :: '"' :: '"' :: rest => some (found.reverse, rest)
  | _, found, '"' :: rest => readFoldedBasic .inactive ('"' :: found) rest
  | _, found, '\\' :: 'u' :: a :: b :: c :: d :: rest =>
      match scalar? [a, b, c, d] with
      | some letter => readFoldedBasic .inactive (letter :: found) rest
      | none => none
  | _, found, '\\' :: 'U' :: a :: b :: c :: d :: e :: f :: g :: h :: rest =>
      match scalar? [a, b, c, d, e, f, g, h] with
      | some letter => readFoldedBasic .inactive (letter :: found) rest
      | none => none
  | _, found, '\\' :: escape :: rest =>
      match shortEscape? escape with
      | some letter => readFoldedBasic .inactive (letter :: found) rest
      | none => readFoldedBasic .pending found (escape :: rest)
  | folding, found, c :: rest =>
      if folding = .active && (isSpace c || c == '\n') then readFoldedBasic .active found rest
      else if c == '\n' || isUnescaped c then readFoldedBasic .inactive (c :: found) rest
      else none

/-- The rest of a string behind three single quotes. -/
def readLongLiteral (found : Text) : Text → Option (Text × Text)
  | [] => none
  | '\'' :: '\'' :: '\'' :: '\'' :: '\'' :: rest =>
      some (('\'' :: '\'' :: found).reverse, rest)
  | '\'' :: '\'' :: '\'' :: '\'' :: rest => some (('\'' :: found).reverse, rest)
  | '\'' :: '\'' :: '\'' :: rest => some (found.reverse, rest)
  | '\r' :: '\n' :: rest => readLongLiteral ('\n' :: found) rest
  | c :: rest =>
      if c == '\n' || isPrintable c then readLongLiteral (c :: found) rest else none

/-- A text without the line break at its beginning. -/
def skipNewline (text : Text) : Text :=
  (newline? text).getD text

def readString : Text → Option (Text × Text)
  | '"' :: '"' :: '"' :: rest => readFoldedBasic .inactive [] (skipNewline rest)
  | '"' :: rest => readBasic [] rest
  | '\'' :: '\'' :: '\'' :: rest => readLongLiteral [] (skipNewline rest)
  | '\'' :: rest => readLiteral [] rest
  | _ => none

/-- Whether a character may stand in a key without quotes. -/
def isBare (c : Char) : Bool :=
  c.isAlphanum || c == '_' || c == '-'

def readKeyPart : Text → Option (Text × Text)
  | '"' :: rest => readBasic [] rest
  | '\'' :: rest => readLiteral [] rest
  | text =>
      match text.takeWhile isBare with
      | [] => none
      | part => some (part, text.dropWhile isBare)

/-- The greatest number of parts of a key, and of containers inside each other. -/
def maxNesting : Nat := 79

/-- A key of at most `limit` parts with points between them, and the blanks around it. -/
def readKey : (limit : Nat) → Text → Option (List String × Text)
  | 0, _ => none
  | limit + 1, text => do
      let (part, rest) ← readKeyPart (skipSpace text)
      match skipSpace rest with
      | '.' :: rest => do
          let (others, rest) ← readKey limit rest
          return (String.ofList part :: others, rest)
      | rest => return ([String.ofList part], rest)

end Toml
end SourceAtlas
