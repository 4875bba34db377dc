import SourceAtlas.Decimal.Shortest
import SourceAtlas.Json.Tree

/-!
# JSON values

A value is what a written JSON text stands for.  Strings hold characters, so an escape
must not leave half of a surrogate pair; numbers are 64-bit integers or binary64 numbers,
and must be in range; values must not be nested too deeply.  The members of an object are
kept in ascending order of their keys, and of equal keys the last one counts.
-/

namespace SourceAtlas
namespace Json

/-- The value of a number. -/
inductive Number where
  /-- A whole number below `2 ^ 64`. -/
  | natural (value : Nat)
  /-- The negative of a whole number from 1 to `2 ^ 63`. -/
  | negative (value : Nat)
  /-- Any other number. -/
  | float (negative : Bool) (value : Binary64)
  deriving DecidableEq, Repr, Inhabited

/-- What a JSON text stands for. -/
inductive Value where
  | null
  | bool (value : Bool)
  | number (value : Number)
  | string (text : String)
  | array (items : List Value)
  | object (members : List (String × Value))
  deriving Inhabited

/-- The greatest unsigned 64-bit integer. -/
def maxNatural : Nat := Nat.pow 2 64 - 1

/-- The greatest exponent that is looked at. -/
def maxExponent : Nat := Nat.pow 2 31 - 1

/-- A number with one more digit, unless it grows too large. -/
def pushDigit? (limit value digit : Nat) : Option Nat :=
  if value * 10 + digit ≤ limit then some (value * 10 + digit) else none

/-- Takes digits into a number as long as it does not grow too large; the result has the
number of digits left over. -/
def takeDigits (limit : Nat) : (value : Nat) → (digits : List Nat) → Nat × Nat
  | value, [] => (value, 0)
  | value, digit :: others =>
      match pushDigit? limit value digit with
      | some grown => takeDigits limit grown others
      | none => (value, others.length + 1)

/-- The value of a number with a fraction or an exponent, or of a whole number that is too
large.  Digits beyond 64 bits only count for the power of ten. -/
def floatValue? (literal : NumberLiteral) (significand : Nat) (power : Int) :
    Option Binary64 :=
  let fraction := literal.fraction.getD []
  let (significand, left) := takeDigits maxNatural significand fraction
  let power := power - (fraction.length - left : Int)
  match literal.exponent with
  | none => Binary64.ofScientific? significand power
  | some (negative, digits) =>
      match takeDigits maxExponent 0 digits with
      | (exponent, 0) =>
          let shift : Int := if negative then -(exponent : Int) else exponent
          Binary64.ofScientific? significand (power + shift)
      | _ => if significand = 0 || negative then some Binary64.zero else none

def NumberLiteral.value? (literal : NumberLiteral) : Option Number :=
  let (significand, left) := takeDigits maxNatural 0 literal.whole
  let whole := left == 0 && literal.fraction.isNone && literal.exponent.isNone
  if whole && !literal.negative then some (.natural significand)
  else if whole && 0 < significand && significand ≤ Nat.pow 2 63 then some (.negative significand)
  else (floatValue? literal significand left).map (.float literal.negative)

def isHighSurrogate (unit : Nat) : Bool := 0xD800 ≤ unit && unit ≤ 0xDBFF

def isLowSurrogate (unit : Nat) : Bool := 0xDC00 ≤ unit && unit ≤ 0xDFFF

/-- The characters that units stand for; none if half of a surrogate pair stands alone. -/
def decodeUnits? : List StringUnit → Option Text
  | [] => some []
  | .code high :: .code low :: rest =>
      if isHighSurrogate high then
        if isLowSurrogate low then
          (decodeUnits? rest).map
            (Char.ofNat (0x10000 + (high - 0xD800) * 0x400 + (low - 0xDC00)) :: ·)
        else none
      else if isLowSurrogate high then none
      else (decodeUnits? (.code low :: rest)).map (Char.ofNat high :: ·)
  | .code unit :: rest =>
      if isHighSurrogate unit || isLowSurrogate unit then none
      else (decodeUnits? rest).map (Char.ofNat unit :: ·)
  | .char c :: rest => (decodeUnits? rest).map (c :: ·)

def string? (units : List StringUnit) : Option String :=
  (decodeUnits? units).map String.ofList

/-- Puts a member at its place among members in ascending order of their keys, replacing
the one with the same key. -/
def putMember {α : Type} (key : String) (value : α) : List (String × α) → List (String × α)
  | [] => [(key, value)]
  | (first, old) :: others =>
      if key < first then (key, value) :: (first, old) :: others
      else if key = first then (key, value) :: others
      else (first, old) :: putMember key value others

mutual

/-- The value of a written text, with at most `depth` containers inside each other. -/
def Tree.value? : (written : Tree) → (depth : Nat) → Option Value
  | .null, _ => some .null
  | .bool value, _ => some (.bool value)
  | .number literal, _ => literal.value?.map .number
  | .string units, _ => (string? units).map .string
  | .array items, depth =>
      if depth = 0 then none else (itemValues? items (depth - 1)).map .array
  | .object members, depth =>
      if depth = 0 then none else (memberValues? members (depth - 1) []).map .object

def itemValues? : (items : List Tree) → (depth : Nat) → Option (List Value)
  | [], _ => some []
  | item :: others, depth =>
      match item.value? depth with
      | none => none
      | some value => (itemValues? others depth).map (value :: ·)

/-- The members of an object, added to those in `known`. -/
def memberValues? : (members : List (List StringUnit × Tree)) → (depth : Nat) →
    (known : List (String × Value)) → Option (List (String × Value))
  | [], _, known => some known
  | (key, member) :: others, depth, known =>
      match string? key, member.value? depth with
      | some name, some value => memberValues? others depth (putMember name value known)
      | _, _ => none

end

/-- Whole numbers are plain up to sixteen digits before the point and five zeros behind
it, and exponents always have a sign. -/
def numberFormat : DecimalFormat := ⟨-5, 15, "+"⟩

def Number.render : Number → String
  | .natural value => toString value
  | .negative value => "-" ++ toString value
  | .float isNegative value => numberFormat.write isNegative value

def hexDigit (value : Nat) : Char :=
  if value < 10 then Char.ofNat ('0'.toNat + value) else Char.ofNat ('a'.toNat + value - 10)

/-- A character inside a string. -/
def escapeChar (c : Char) : Text :=
  if c = '"' then ['\\', '"']
  else if c = '\\' then ['\\', '\\']
  else if c = '\x08' then ['\\', 'b']
  else if c = '\x0c' then ['\\', 'f']
  else if c = '\n' then ['\\', 'n']
  else if c = '\r' then ['\\', 'r']
  else if c = '\t' then ['\\', 't']
  else if c.toNat < 0x20 then
    ['\\', 'u', '0', '0', hexDigit (c.toNat / 16), hexDigit (c.toNat % 16)]
  else [c]

def quote (text : String) : String :=
  "\"" ++ String.ofList (text.toList.flatMap escapeChar) ++ "\""

mutual

/-- The text of a value without blanks. -/
def Value.render : Value → String
  | .null => "null"
  | .bool true => "true"
  | .bool false => "false"
  | .number value => value.render
  | .string text => quote text
  | .array items => "[" ++ ",".intercalate (renderItems items) ++ "]"
  | .object members => "\x7b" ++ ",".intercalate (renderMembers members) ++ "\x7d"

/-- The texts of the items of an array. -/
def renderItems : List Value → List String
  | [] => []
  | item :: others => item.render :: renderItems others

/-- The texts of the members of an object. -/
def renderMembers : List (String × Value) → List String
  | [] => []
  | (key, value) :: others => (quote key ++ ":" ++ value.render) :: renderMembers others

end

end Json
end SourceAtlas
