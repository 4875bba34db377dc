import SourceAtlas.Decimal.Binary64

/-!
# Shortest decimals

A binary64 number is written with the fewest decimal digits that read back as the same
number, and among those with the digits nearest to it.  Reading back means to lie between
the middles to the two neighbouring binary64 numbers, the middles included if the mantissa
is even.
-/

namespace SourceAtlas
namespace Binary64

/-- Decimal digits with a point in front of them, shifted by `power` places. -/
structure Digits where
  /-- The digits as one number. -/
  value : Nat
  /-- How many digits there are. -/
  count : Nat
  /-- The power of ten that the point in front of the digits is multiplied by. -/
  power : Int
  deriving DecidableEq, Repr, Inhabited

/-- The decimals that read back as a number, as quotients over `unit`: those from `low` to
`high`. -/
structure Interval where
  low : Nat
  /-- The number itself. -/
  value : Nat
  /-- The upper end. -/
  high : Nat
  /-- What all three are divided by. -/
  unit : Nat
  /-- Whether the ends read back too. -/
  closed : Bool
  deriving DecidableEq, Repr, Inhabited

/-- The decimals that read back as a positive number.  The neighbour below a power of two
is half as far away as the one above. -/
def interval (number : Binary64) : Interval :=
  let narrow := number.mantissa == Nat.pow 2 52 && minExponent < number.exponent
  let middle := 4 * number.mantissa
  let (value, unit) := scaleRatio middle 1 (2 - number.exponent)
  let (low, _) := scaleRatio (middle - if narrow then 1 else 2) 1 (2 - number.exponent)
  let (high, _) := scaleRatio (middle + 2) 1 (2 - number.exponent)
  ⟨low, value, high, unit, number.mantissa % 2 == 0⟩

/-- A quotient divided by a power of ten, as a quotient again. -/
def scaleTen (numerator denominator : Nat) (power : Int) : Nat × Nat :=
  if 0 ≤ power then (numerator, denominator * Nat.pow 10 power.toNat)
  else (numerator * Nat.pow 10 (-power).toNat, denominator)

/-- The least power of ten above a quotient, looked for from `power` on downwards and
upwards for at most `steps` steps. -/
def powerAbove (numerator denominator : Nat) : (steps : Nat) → (power : Int) → Int
  | 0, power => power
  | steps + 1, power =>
      let (above, below) := scaleTen numerator denominator power
      if below ≤ above then powerAbove numerator denominator steps (power + 1)
      else
        let (above, below) := scaleTen numerator denominator (power - 1)
        if above < below then powerAbove numerator denominator steps (power - 1) else power

/-- Whether `candidate` units of a grid read back as the number; all parts of the interval
are given in `unit` parts of a grid unit. -/
def Interval.holds (bounds : Interval) (candidate : Nat) : Bool :=
  let point := candidate * bounds.unit
  if bounds.closed then bounds.low ≤ point && point ≤ bounds.high
  else bounds.low < point && point < bounds.high

/-- An interval measured in units of a power of ten. -/
def Interval.onGrid (bounds : Interval) (power : Int) : Interval :=
  if 0 ≤ power then { bounds with unit := bounds.unit * Nat.pow 10 power.toNat }
  else
    let factor := Nat.pow 10 (-power).toNat
    { bounds with
      low := bounds.low * factor
      value := bounds.value * factor
      high := bounds.high * factor }

/-- The nearer of the two grid points around the number that reads back; from the middle
the even one. -/
def Interval.nearest? (bounds : Interval) : Option Nat :=
  let below := bounds.value / bounds.unit
  let above := below + 1
  let preferred := roundRatio bounds.value bounds.unit
  let other := if preferred == below then above else below
  if bounds.holds preferred then some preferred
  else if bounds.holds other then some other
  else none

/-- The digits of a number below the power of ten `power`, with `count` digits or, within
`steps` steps, more. -/
def digitsFrom (bounds : Interval) (power : Int) : (steps count : Nat) → Digits
  | 0, count => ⟨bounds.value, count, power⟩
  | steps + 1, count =>
      match (bounds.onGrid (power - count)).nearest? with
      | some value =>
          if value == Nat.pow 10 count then ⟨1, 1, power + 1⟩ else ⟨value, count, power⟩
      | none => digitsFrom bounds power steps (count + 1)

/-- The shortest digits of a positive number. -/
def shortest (number : Binary64) : Digits :=
  let bounds := number.interval
  let guess := log2Ratio bounds.value bounds.unit * 3 / 10
  digitsFrom bounds (powerAbove bounds.value bounds.unit 40 guess) 17 1

end Binary64

/-- How a decimal number is written. -/
structure DecimalFormat where
  /-- The least power of ten of the first digit that is written without an exponent. -/
  lowestPlain : Int
  /-- The greatest power of ten of the first digit that is written without an exponent. -/
  highestPlain : Int
  /-- What stands in front of an exponent that is not negative. -/
  plusSign : String
  deriving DecidableEq, Repr, Inhabited

namespace DecimalFormat

def zeros (count : Nat) : String :=
  String.ofList (List.replicate count '0')

/-- Digits without an exponent: with a point inside, or with a zero behind the point. -/
def plain (digits : String) (count : Nat) (power : Int) : String :=
  if power ≤ 0 then "0." ++ zeros (-power).toNat ++ digits
  else if (count : Int) ≤ power then digits ++ zeros (power.toNat - count) ++ ".0"
  else
    let characters := digits.toList
    String.ofList (characters.take power.toNat) ++ "." ++
      String.ofList (characters.drop power.toNat)

/-- Digits with an exponent, the point behind the first digit. -/
def withExponent (format : DecimalFormat) (digits : String) (power : Int) : String :=
  let characters := digits.toList
  let first := String.ofList (characters.take 1)
  let others := characters.drop 1
  let exponent := power - 1
  let sign := if exponent < 0 then "-" else format.plusSign
  first ++ (if others.isEmpty then "" else "." ++ String.ofList others) ++ "e" ++ sign ++
    toString exponent.natAbs

def write (format : DecimalFormat) (negative : Bool) (number : Binary64) : String :=
  let sign := if negative then "-" else ""
  if number.mantissa = 0 then sign ++ "0.0"
  else
    let found := number.shortest
    let digits := toString found.value
    let leading := found.power - 1
    if format.lowestPlain ≤ leading && leading ≤ format.highestPlain then
      sign ++ plain digits found.count found.power
    else sign ++ format.withExponent digits found.power

end DecimalFormat
end SourceAtlas
