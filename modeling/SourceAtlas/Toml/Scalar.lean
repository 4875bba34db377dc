import SourceAtlas.Decimal.Binary64
import SourceAtlas.Toml.Quoted
import SourceAtlas.Toml.Table

/-!
# TOML numbers, dates and truth values

Whole numbers have 64 bits.  A number with a fraction or an exponent may be as long as it
likes but must not round to positive infinity.  Dates must be dates of the calendar.
-/

namespace SourceAtlas
namespace Toml

def written (text tail : Text) : String :=
  String.ofList (text.take (text.length - tail.length))

def digitBelow? (base : Nat) (c : Char) : Option Nat :=
  (hexDigit? c).filter (· < base)

/-- Digits with single underscores between them, behind those in `found`, which is in
reverse. -/
def readMoreDigits (base : Nat) (found : List Nat) : Text → List Nat × Text
  | [] => (found.reverse, [])
  | '_' :: c :: rest =>
      match digitBelow? base c with
      | some digit => readMoreDigits base (digit :: found) rest
      | none => (found.reverse, '_' :: c :: rest)
  | c :: rest =>
      match digitBelow? base c with
      | some digit => readMoreDigits base (digit :: found) rest
      | none => (found.reverse, c :: rest)

/-- At least one digit, with single underscores between digits. -/
def readDigits? (base : Nat) : Text → Option (List Nat × Text)
  | [] => none
  | c :: rest => (digitBelow? base c).map fun digit => readMoreDigits base [digit] rest

def ofDigits (base : Nat) (digits : List Nat) : Nat :=
  digits.foldl (fun number digit => number * base + digit) 0

/-- A sign, if there is one: whether it is a minus. -/
def readSign : Text → Bool × Text
  | '-' :: rest => (true, rest)
  | '+' :: rest => (false, rest)
  | text => (false, text)

/-- The digits of a whole number, where a zero at the beginning stands alone. -/
def readWhole? : Text → Option (List Nat × Text)
  | '0' :: rest => some ([0], rest)
  | text => readDigits? 10 text

/-- A number of another base that has 63 bits at most. -/
def readBased (base : Nat) (text : Text) : Option (Node × Text) := do
  let (digits, rest) ← readDigits? base text
  if ofDigits base digits < Nat.pow 2 63 then some (.integer (ofDigits base digits), rest) else none

/-- A whole number of 64 bits with a sign. -/
def readDecimal (text : Text) : Option (Node × Text) := do
  let (negative, rest) := readSign text
  let (digits, rest) ← readWhole? rest
  let size := ofDigits 10 digits
  if negative then
    if size ≤ Nat.pow 2 63 then some (.integer (-(size : Int)), rest) else none
  else
    if size < Nat.pow 2 63 then some (.integer size, rest) else none

/-- A whole number. -/
def readInteger : Text → Option (Node × Text)
  | '0' :: 'x' :: rest => readBased 16 rest
  | '0' :: 'o' :: rest => readBased 8 rest
  | '0' :: 'b' :: rest => readBased 2 rest
  | text => readDecimal text

def readExponent? : Text → Option (Int × Text)
  | mark :: rest =>
      if mark == 'e' || mark == 'E' then do
        let (negative, rest) := readSign rest
        let (digits, rest) ← readDigits? 10 rest
        let size := ofDigits 10 digits
        return (if negative then -(size : Int) else size, rest)
      else none
  | [] => none

/-- The digits behind the point of a number. -/
def readFraction? : Text → Option (List Nat × Text)
  | '.' :: rest => readDigits? 10 rest
  | _ => none

/-- Whether digits times a power of ten round to a finite number.  Only near the limit is
the product worked out. -/
def isFinite (digits : List Nat) (power : Int) : Bool :=
  let significant := digits.dropWhile (· == 0)
  let places := significant.length + power
  if significant.isEmpty || places < 300 then true
  else if 320 < places then false
  else if 0 ≤ power then
    (Binary64.ofRatio? (ofDigits 10 significant * Nat.pow 10 power.toNat) 1).isSome
  else (Binary64.ofRatio? (ofDigits 10 significant) (Nat.pow 10 (-power).toNat)).isSome

/-- A number with a fraction, an exponent, or both. -/
def readFloat (text : Text) : Option (Node × Text) := do
  let (negative, rest) := readSign text
  let (whole, rest) ← readWhole? rest
  let (fraction, rest, hasFraction) :=
    match readFraction? rest with
    | some (fraction, rest) => (fraction, rest, true)
    | none => ([], rest, false)
  let (exponent, rest, hasExponent) :=
    match readExponent? rest with
    | some (exponent, rest) => (exponent, rest, true)
    | none => (0, rest, false)
  if !hasFraction && !hasExponent then none
  else if !negative && !isFinite (whole ++ fraction) (exponent - fraction.length) then none
  else some (.float (written text rest), rest)

/-- The rest of a text behind given characters. -/
def skipWord? (word : String) (text : Text) : Option Text :=
  if word.toList.isPrefixOf text then some (text.drop word.length) else none

/-- Infinity, or no number. -/
def readSpecialFloat (text : Text) : Option (Node × Text) :=
  let (_, rest) := readSign text
  ((skipWord? "inf" rest).or (skipWord? "nan" rest)).map fun tail =>
    (.float (written text tail), tail)

/-- A truth value. -/
def readBoolean (text : Text) : Option (Node × Text) :=
  ((skipWord? "true" text).map (Node.boolean true, ·)).or
    ((skipWord? "false" text).map (Node.boolean false, ·))

/-- A number from `low` to `high` with exactly `count` digits. -/
def readFixed (count low high : Nat) (text : Text) : Option (Nat × Text) :=
  let digits := text.take count
  if digits.length = count && digits.all Char.isDigit then
    let number := ofDigits 10 (digits.map fun c => c.toNat - '0'.toNat)
    if low ≤ number && number ≤ high then some (number, text.drop count) else none
  else none

def daysIn (year month : Nat) : Nat :=
  if month = 2 then
    if year % 4 = 0 && (year % 100 != 0 || year % 400 = 0) then 29 else 28
  else if month = 4 || month = 6 || month = 9 || month = 11 then 30
  else 31

def skipDate? (text : Text) : Option Text := do
  let (year, rest) ← readFixed 4 0 9999 text
  let rest ← skipWord? "-" rest
  let (month, rest) ← readFixed 2 1 12 rest
  let rest ← skipWord? "-" rest
  let (_, rest) ← readFixed 2 1 (daysIn year month) rest
  return rest

/-- The rest of a text behind parts of a second, if there are any. -/
def skipSecondParts : Text → Text
  | '.' :: c :: rest => if c.isDigit then rest.dropWhile Char.isDigit else '.' :: c :: rest
  | text => text

/-- The rest of a text behind a time of day. -/
def skipTime? (text : Text) : Option Text := do
  let (_, rest) ← readFixed 2 0 23 text
  let rest ← skipWord? ":" rest
  let (_, rest) ← readFixed 2 0 59 rest
  let rest ← skipWord? ":" rest
  let (_, rest) ← readFixed 2 0 60 rest
  return skipSecondParts rest

/-- The rest of a text behind a distance from universal time. -/
def skipOffset? : Text → Option Text
  | 'Z' :: rest => some rest
  | 'z' :: rest => some rest
  | sign :: rest =>
      if sign == '+' || sign == '-' then do
        let (_, rest) ← readFixed 2 0 23 rest
        let rest ← skipWord? ":" rest
        let (_, rest) ← readFixed 2 0 59 rest
        return rest
      else none
  | [] => none

/-- The rest of a text behind a time of day and a distance from universal time. -/
def skipClock? (text : Text) : Option Text :=
  (skipTime? text).map fun rest => (skipOffset? rest).getD rest

/-- The rest of a text behind a date, a time of day, or both. -/
def skipMoment? (text : Text) : Option Text :=
  match skipDate? text with
  | none => skipTime? text
  | some [] => some []
  | some (mark :: rest) =>
      if mark == 'T' || mark == 't' || mark == ' ' then
        some ((skipClock? rest).getD (mark :: rest))
      else some (mark :: rest)

/-- A date, a time of day, or both. -/
def readMoment (text : Text) : Option (Node × Text) :=
  (skipMoment? text).map fun rest => (.moment (written text rest), rest)

/-- A number, a date or a truth value. -/
def readScalar (text : Text) : Option (Node × Text) :=
  (readMoment text) <|> (readFloat text) <|> (readInteger text) <|>
    (readSpecialFloat text) <|> (readBoolean text)

end Toml
end SourceAtlas
