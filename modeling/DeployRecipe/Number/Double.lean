/-!
Double-precision numbers held exactly. A double is its bit pattern; its value is a ratio of natural
numbers, and every rounding is done in exact arithmetic, to the nearest double and to the even one of two.
-/

namespace DeployRecipe

/-- A double is a binary64 datum, held as its bit pattern. -/
structure Double where
  bits : UInt64
deriving DecidableEq, Repr, Inhabited

namespace Double

/-- The sign bit. -/
def isNegative (number : Double) : Bool :=
  Nat.pow 2 63 ≤ number.bits.toNat

/-- The exponent field, from 0 to 2047. -/
def exponentField (number : Double) : Nat :=
  number.bits.toNat / Nat.pow 2 52 % Nat.pow 2 11

/-- The fraction field, below 2 ^ 52. -/
def fractionField (number : Double) : Nat :=
  number.bits.toNat % Nat.pow 2 52

def isInfinite (number : Double) : Bool :=
  number.exponentField = 2047 ∧ number.fractionField = 0

def isNaN (number : Double) : Bool :=
  number.exponentField = 2047 ∧ number.fractionField ≠ 0

def isFinite (number : Double) : Bool :=
  number.exponentField ≠ 2047

/-- The integer coefficient of a finite double, whose size is `coefficient * 2 ^ power`. -/
def coefficient (number : Double) : Nat :=
  if number.exponentField = 0 then number.fractionField else Nat.pow 2 52 + number.fractionField

/-- The power of two of a finite double, shifted by 1074 so that it is a natural number. -/
def shiftedPower (number : Double) : Nat :=
  number.exponentField - 1

/-- The double with the given sign and the bits of its size. -/
def ofMagnitudeBits (negative : Bool) (magnitude : Nat) : Double :=
  ⟨UInt64.ofNat (if negative then Nat.pow 2 63 + magnitude else magnitude)⟩

/-- The bits of positive infinity. -/
def infinityBits : Nat := 2047 * Nat.pow 2 52

def infinity (negative : Bool) : Double :=
  ofMagnitudeBits negative infinityBits

/-- The canonical value that is not a number. -/
def nan : Double :=
  ofMagnitudeBits false (infinityBits + Nat.pow 2 51)

/-- The quotient rounded to the nearest natural number, a half going to the even one. -/
def roundQuotient (numerator denominator : Nat) : Nat :=
  let quotient := numerator / denominator
  let twice := 2 * (numerator % denominator)
  if twice > denominator ∨ (twice = denominator ∧ quotient % 2 = 1) then quotient + 1 else quotient

/-- The bits of the double nearest to a positive ratio. -/
def magnitudeBitsOfRatio (numerator denominator : Nat) : Nat :=
  -- The power is chosen so that the coefficient has 53 bits, or fewer at the bottom of the range.
  let scaled (power : Nat) : Nat × Nat :=
    if power ≥ 1074 then (numerator, denominator * Nat.pow 2 (power - 1074))
    else (numerator * Nat.pow 2 (1074 - power), denominator)
  let guess := (numerator.log2 + 1074) - (denominator.log2 + 53)
  let fits (power : Nat) : Bool :=
    let (upper, lower) := scaled power
    upper / lower < Nat.pow 2 53
  let power := if fits guess then guess else guess + 1
  let (upper, lower) := scaled power
  let rounded := roundQuotient upper lower
  let magnitude := if rounded < Nat.pow 2 52 then rounded else power * Nat.pow 2 52 + rounded
  min magnitude infinityBits

/-- The double nearest to a ratio; the denominator is positive. -/
def ofRatio (negative : Bool) (numerator denominator : Nat) : Double :=
  if numerator = 0 then ofMagnitudeBits negative 0
  else ofMagnitudeBits negative (magnitudeBitsOfRatio numerator denominator)

/-- The double nearest to an integer. -/
def ofInt (number : Int) : Double :=
  ofRatio (number < 0) number.natAbs 1

/-- The double nearest to `digits * 10 ^ power`. Sizes far outside the range of doubles are settled
without computing the power of ten. -/
def ofDecimal (negative : Bool) (digits : Nat) (power : Int) : Double :=
  let places : Int := (Nat.toDigits 10 digits).length
  if digits = 0 ∨ places + power < -400 then ofMagnitudeBits negative 0
  else if places + power > 400 then infinity negative
  else if 0 ≤ power then ofRatio negative (digits * Nat.pow 10 power.toNat) 1
  else ofRatio negative digits (Nat.pow 10 (-power).toNat)

/-- Equality of numbers: the two zeros are equal, and so are any two data that are no number. -/
def same (left right : Double) : Bool :=
  left = right ∨ (left.isNaN ∧ right.isNaN) ∨
    (left.bits.toNat % Nat.pow 2 63 = 0 ∧ right.bits.toNat % Nat.pow 2 63 = 0)

end Double

end DeployRecipe
