/-!
# Rounding to binary64

A finite binary64 number that is not negative is a whole mantissa times a power of two.
Rounding goes to the nearest such number, and from the middle between two to the one with
an even mantissa.  All arithmetic is exact arithmetic on natural numbers followed by one
rounding.
-/

namespace SourceAtlas

/-- The number `mantissa * 2 ^ exponent`. -/
structure Binary64 where
  mantissa : Nat
  /-- The power of two, from -1074 to 971. -/
  exponent : Int
  deriving DecidableEq, Repr, Inhabited

namespace Binary64

/-- The least power of two. -/
def minExponent : Int := -1074

/-- The greatest power of two. -/
def maxExponent : Int := 971

/-- The quotient of two numbers divided by a power of two, as a quotient again. -/
def scaleRatio (numerator denominator : Nat) (power : Int) : Nat × Nat :=
  if 0 ≤ power then (numerator, denominator * Nat.pow 2 power.toNat)
  else (numerator * Nat.pow 2 (-power).toNat, denominator)

/-- The whole part of the binary logarithm of a quotient of positive numbers. -/
def log2Ratio (numerator denominator : Nat) : Int :=
  let estimate : Int := (numerator.log2 : Int) - (denominator.log2 : Int)
  let (above, below) := scaleRatio numerator denominator estimate
  if above < below then estimate - 1 else estimate

/-- The nearest whole number to a quotient; from the middle to the even one. -/
def roundRatio (numerator denominator : Nat) : Nat :=
  let quotient := numerator / denominator
  let twice := 2 * (numerator % denominator)
  if denominator < twice || (twice == denominator && quotient % 2 == 1) then quotient + 1
  else quotient

/-- The quotient of two numbers rounded to binary64; nothing if it is too large. -/
def ofRatio? (numerator denominator : Nat) : Option Binary64 :=
  if numerator = 0 then some ⟨0, minExponent⟩
  else
    let exponent := max (log2Ratio numerator denominator - 52) minExponent
    let (above, below) := scaleRatio numerator denominator exponent
    let mantissa := roundRatio above below
    let rounded : Binary64 :=
      if mantissa = Nat.pow 2 53 then ⟨Nat.pow 2 52, exponent + 1⟩ else ⟨mantissa, exponent⟩
    if maxExponent < rounded.exponent then none else some rounded

def zero : Binary64 := ⟨0, minExponent⟩

def ratio (number : Binary64) : Nat × Nat :=
  scaleRatio number.mantissa 1 (-number.exponent)

/-- A product, rounded. -/
def mul? (first second : Binary64) : Option Binary64 :=
  let (above, below) := first.ratio
  let (above', below') := second.ratio
  ofRatio? (above * above') (below * below')

/-- A quotient, rounded. -/
def div? (first second : Binary64) : Option Binary64 :=
  let (above, below) := first.ratio
  let (above', below') := second.ratio
  ofRatio? (above * below') (below * above')

/-- A power of ten, rounded. -/
def powerOfTen? (power : Nat) : Option Binary64 :=
  ofRatio? (Nat.pow 10 power) 1

/-- The greatest power of ten that is not too large. -/
def maxPowerOfTen : Nat := 308

/-- Divides by a power of ten, rounding after every division by a power within range. -/
def divPowerOfTen? (number : Binary64) (power : Nat) : Option Binary64 :=
  if power ≤ maxPowerOfTen then (powerOfTen? power).bind number.div?
  else if number.mantissa = 0 then some number
  else do
    let next ← (powerOfTen? maxPowerOfTen).bind number.div?
    next.divPowerOfTen? (power - maxPowerOfTen)
termination_by power
decreasing_by simp only [maxPowerOfTen] at *; omega

/-- Multiplies by a power of ten; nothing if the product is too large. -/
def mulPowerOfTen? (number : Binary64) (power : Nat) : Option Binary64 :=
  if power ≤ maxPowerOfTen then (powerOfTen? power).bind number.mul?
  else if number.mantissa = 0 then some number
  else none

/-- A whole number times a power of ten.  The number is rounded first, then the product or
quotient. -/
def ofScientific? (significand : Nat) (power : Int) : Option Binary64 := do
  let number ← ofRatio? significand 1
  if 0 ≤ power then number.mulPowerOfTen? power.toNat
  else number.divPowerOfTen? (-power).toNat

end Binary64
end SourceAtlas
