import SourceAtlas.Text.Basic

/-!
# JSON as it is written

A JSON text is first read into a tree that keeps numbers and strings as they are written.
Whether a number is in range or an escape stands for a character is asked later, and only
of the parts that are used.
-/

namespace SourceAtlas
namespace Json

/-- A number as it is written. -/
structure NumberLiteral where
  /-- Whether there is a minus sign in front. -/
  negative : Bool
  /-- The digits before the point. -/
  whole : List Nat
  /-- The digits behind the point, if there is one. -/
  fraction : Option (List Nat)
  /-- The exponent, if there is one: whether it is negative, and its digits. -/
  exponent : Option (Bool × List Nat)
  deriving DecidableEq, Repr, Inhabited

/-- A piece of a string as it is written. -/
inductive StringUnit where
  /-- A character, written as such or with a short escape. -/
  | char (c : Char)
  /-- A sixteen-bit unit written with four hexadecimal digits. -/
  | code (unit : Nat)
  deriving DecidableEq, Repr, Inhabited

/-- A JSON text as it is written. -/
inductive Tree where
  | null
  | bool (value : Bool)
  | number (literal : NumberLiteral)
  | string (units : List StringUnit)
  | array (items : List Tree)
  | object (members : List (List StringUnit × Tree))
  deriving Inhabited

/-- The blanks between the parts of a JSON text. -/
def isSpace (c : Char) : Bool :=
  c == ' ' || c == '\t' || c == '\n' || c == '\r'

/-- A text without the blanks at its beginning. -/
def skipSpace (text : Text) : Text :=
  text.dropWhile isSpace

def readDigits (text : Text) : List Nat × Text :=
  ((text.takeWhile Char.isDigit).map fun c => c.toNat - '0'.toNat, text.dropWhile Char.isDigit)

/-- The digits at the beginning of a text, at least one. -/
def readSomeDigits (text : Text) : Option (List Nat × Text) :=
  match readDigits text with
  | ([], _) => none
  | found => some found

/-- The part of a number behind a point. -/
def readFraction : Text → Option (Option (List Nat) × Text)
  | '.' :: rest => (readSomeDigits rest).map fun (digits, rest) => (some digits, rest)
  | text => some (none, text)

def readSignedDigits : Text → Option ((Bool × List Nat) × Text)
  | '-' :: rest => (readSomeDigits rest).map fun (digits, rest) => ((true, digits), rest)
  | '+' :: rest => (readSomeDigits rest).map fun (digits, rest) => ((false, digits), rest)
  | text => (readSomeDigits text).map fun (digits, rest) => ((false, digits), rest)

def readExponent : Text → Option (Option (Bool × List Nat) × Text)
  | 'e' :: rest => (readSignedDigits rest).map fun (found, rest) => (some found, rest)
  | 'E' :: rest => (readSignedDigits rest).map fun (found, rest) => (some found, rest)
  | text => some (none, text)

/-- A number without its sign.  A zero at the beginning stands alone. -/
def readUnsigned (negative : Bool) (text : Text) : Option (NumberLiteral × Text) := do
  let (whole, rest) ← readSomeDigits text
  if whole.head? == some 0 && whole.length != 1 then none
  let (fraction, rest) ← readFraction rest
  let (exponent, rest) ← readExponent rest
  return (⟨negative, whole, fraction, exponent⟩, rest)

/-- The value of a hexadecimal digit. -/
def hexDigit? (c : Char) : Option Nat :=
  if c.isDigit then some (c.toNat - '0'.toNat)
  else if 'a' ≤ c && c ≤ 'f' then some (c.toNat - 'a'.toNat + 10)
  else if 'A' ≤ c && c ≤ 'F' then some (c.toNat - 'A'.toNat + 10)
  else none

def shortEscape? : Char → Option Char
  | '"' => some '"'
  | '\\' => some '\\'
  | '/' => some '/'
  | 'b' => some '\x08'
  | 'f' => some '\x0c'
  | 'n' => some '\n'
  | 'r' => some '\r'
  | 't' => some '\t'
  | _ => none

/-- The rest of a string behind its opening quote, with the units read so far in
reverse. -/
def readString (units : List StringUnit) : Text → Option (List StringUnit × Text)
  | [] => none
  | '"' :: rest => some (units.reverse, rest)
  | '\\' :: 'u' :: a :: b :: c :: d :: rest => do
      let unit := (((← hexDigit? a) * 16 + (← hexDigit? b)) * 16 + (← hexDigit? c)) * 16 +
        (← hexDigit? d)
      readString (.code unit :: units) rest
  | '\\' :: escape :: rest => do
      let c ← shortEscape? escape
      readString (.char c :: units) rest
  | c :: rest =>
      if c == '\\' || c.toNat < 0x20 then none else readString (.char c :: units) rest

/-- The rest of a text behind given characters. -/
def readWord (word : String) (text : Text) : Option Text :=
  if word.toList.isPrefixOf text then some (text.drop word.length) else none

mutual

/-- A value at the beginning of a text; `fuel` bounds the number of steps. -/
def readValue : (fuel : Nat) → Text → Option (Tree × Text)
  | 0, _ => none
  | fuel + 1, text =>
      match skipSpace text with
      | 'n' :: rest => (readWord "ull" rest).map (.null, ·)
      | 't' :: rest => (readWord "rue" rest).map (.bool true, ·)
      | 'f' :: rest => (readWord "alse" rest).map (.bool false, ·)
      | '"' :: rest => (readString [] rest).map fun (units, rest) => (.string units, rest)
      | '-' :: rest =>
          (readUnsigned true rest).map fun (literal, rest) => (.number literal, rest)
      | '[' :: rest =>
          match skipSpace rest with
          | ']' :: rest => some (.array [], rest)
          | _ => (readItems fuel [] rest).map fun (items, rest) => (.array items, rest)
      | '\x7b' :: rest =>
          match skipSpace rest with
          | '\x7d' :: rest => some (.object [], rest)
          | _ => (readMembers fuel [] rest).map fun (members, rest) => (.object members, rest)
      | found => (readUnsigned false found).map fun (literal, rest) => (.number literal, rest)

/-- The items of an array up to its closing bracket, those read so far in reverse. -/
def readItems : (fuel : Nat) → (items : List Tree) → Text → Option (List Tree × Text)
  | 0, _, _ => none
  | fuel + 1, items, text =>
      match readValue fuel text with
      | none => none
      | some (item, rest) =>
          match skipSpace rest with
          | ',' :: rest => readItems fuel (item :: items) rest
          | ']' :: rest => some ((item :: items).reverse, rest)
          | _ => none

/-- The members of an object up to its closing brace, those read so far in reverse. -/
def readMembers : (fuel : Nat) → (members : List (List StringUnit × Tree)) → Text →
    Option (List (List StringUnit × Tree) × Text)
  | 0, _, _ => none
  | fuel + 1, members, text =>
      match skipSpace text with
      | '"' :: rest =>
          match readString [] rest with
          | none => none
          | some (key, rest) =>
              match skipSpace rest with
              | ':' :: rest =>
                  match readValue fuel rest with
                  | none => none
                  | some (value, rest) =>
                      match skipSpace rest with
                      | ',' :: rest => readMembers fuel ((key, value) :: members) rest
                      | '\x7d' :: rest => some (((key, value) :: members).reverse, rest)
                      | _ => none
              | _ => none
      | _ => none

end

/-- The tree of a text that holds one value and nothing else. -/
def parse? (text : Text) : Option Tree := do
  let (value, rest) ← readValue (2 * text.length + 2) text
  if (skipSpace rest).isEmpty then some value else none

end Json
end SourceAtlas
