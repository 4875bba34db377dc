import SourceAtlas.Text.Alphabetic
import SourceAtlas.Text.Mark
import SourceAtlas.Text.Number

/-!
# Classes of characters

Which characters count as blank, which may stand in an identifier, and which make up a
word of running text.  An identifier character and a word character are different
notions: an identifier may continue with a combining mark or a connector, while a word
may hold any number sign.
-/

namespace SourceAtlas
namespace Text

/-- Binary search for a code point among ascending ranges, halving the half-open window
`low ≤ index < high` at every step. -/
def searchRanges (ranges : Array (Nat × Nat)) (code : Nat) : (steps low high : Nat) → Bool
  | 0, _, _ => false
  | steps + 1, low, high =>
      let middle := (low + high) / 2
      if low < high then
        match ranges[middle]? with
        | none => false
        | some (first, last) =>
            if code < first then searchRanges ranges code steps low middle
            else if last < code then searchRanges ranges code steps (middle + 1) high
            else true
      else false

/-- Whether a code point lies in one of some ascending, disjoint ranges. -/
def inRanges (ranges : Array (Nat × Nat)) (code : Nat) : Bool :=
  searchRanges ranges code (ranges.size.log2 + 1) 0 ranges.size

/-- The characters with the Unicode property `White_Space`. -/
def isBlank (c : Char) : Bool :=
  let code := c.toNat
  (9 ≤ code && code ≤ 13) || code == 0x20 || code == 0x85 || code == 0xA0 ||
    code == 0x1680 || (0x2000 ≤ code && code ≤ 0x200A) || code == 0x2028 ||
    code == 0x2029 || code == 0x202F || code == 0x205F || code == 0x3000

/-- Punctuation that joins the parts of an identifier (general category `Pc`). -/
def isConnector (c : Char) : Bool :=
  let code := c.toNat
  code == 0x5F || code == 0x203F || code == 0x2040 || code == 0x2054 ||
    code == 0xFE33 || code == 0xFE34 || (0xFE4D ≤ code && code ≤ 0xFE4F) ||
    code == 0xFF3F

/-- The zero-width joiner and non-joiner (property `Join_Control`). -/
def isJoiner (c : Char) : Bool :=
  c.toNat == 0x200C || c.toNat == 0x200D

/-- The characters an identifier is made of: alphabetic characters, marks, decimal
digits, connectors and joiners. -/
def isIdentifierChar (c : Char) : Bool :=
  if c.toNat < 0x80 then c.isAlphanum || c == '_'
  else
    inRanges alphabeticRanges c.toNat || inRanges markRanges c.toNat ||
      inRanges decimalDigitRanges c.toNat || isConnector c || isJoiner c

/-- Alphabetic characters and numbers of every kind. -/
def isAlphanumeric (c : Char) : Bool :=
  if c.toNat < 0x80 then c.isAlphanum
  else
    inRanges alphabeticRanges c.toNat || inRanges decimalDigitRanges c.toNat ||
      inRanges otherNumberRanges c.toNat

/-- The characters of a word in running text: alphanumeric ones and the underscore. -/
def isWordChar (c : Char) : Bool :=
  isAlphanumeric c || c == '_'

end Text
end SourceAtlas
