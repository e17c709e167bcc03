import DeployRecipe.Number.Double

/-!
Decimal text of doubles: the fewest digits that read back as the same double, the nearest of those to
the exact value, and a layout that says where positional notation ends.
-/

namespace DeployRecipe

/-- A positive decimal number: its value is `digits * 10 ^ power`. -/
structure Decimal where
  digits : Nat
  power : Int
deriving DecidableEq, Repr

namespace Decimal

/-- The decimal digits, most significant first. -/
def digitText (number : Decimal) : List Char :=
  Nat.toDigits 10 number.digits

/-- The value lies in `[10 ^ (top - 1), 10 ^ top)`. -/
def top (number : Decimal) : Int :=
  number.digitText.length + number.power

/-- Removes trailing zeros from the digits. -/
def dropZeros : Nat → Decimal → Decimal
  | 0, number => number
  | fuel + 1, number =>
    if number.digits ≠ 0 ∧ number.digits % 10 = 0 then
      dropZeros fuel ⟨number.digits / 10, number.power + 1⟩
    else number

end Decimal

namespace Double

/-- The reals that round to a positive finite double, in units of a quarter of its last place: the value
is `middle`, the interval reaches from `low` to `high`, and its ends belong to it if `closed`. -/
structure Interval where
  low : Nat
  middle : Nat
  high : Nat
  closed : Bool

def interval (number : Double) : Interval :=
  let coefficient := number.coefficient
  let below := if number.fractionField = 0 ∧ 1 < number.exponentField then 1 else 2
  { low := 4 * coefficient - below
    middle := 4 * coefficient
    high := 4 * coefficient + 2
    closed := coefficient % 2 = 0 }

/-- A ratio of natural numbers for `units` quarters of the last place of the double, times `10 ^ -power`. -/
def scaledUnits (number : Double) (units : Nat) (power : Int) : Nat × Nat :=
  let exponent : Int := (number.shiftedPower : Int) - 1076
  let upper := if 0 ≤ exponent then units * Nat.pow 2 exponent.toNat else units
  let lower := if 0 ≤ exponent then 1 else Nat.pow 2 (-exponent).toNat
  if 0 ≤ power then (upper, lower * Nat.pow 10 power.toNat)
  else (upper * Nat.pow 10 (-power).toNat, lower)

/-- The `grid * 10 ^ power` lies among the reals that round to the double. -/
def covers (number : Double) (grid : Nat) (power : Int) : Bool :=
  let range := number.interval
  let (lowUpper, lowLower) := number.scaledUnits range.low power
  let (highUpper, highLower) := number.scaledUnits range.high power
  if range.closed then decide (lowUpper ≤ grid * lowLower ∧ grid * highLower ≤ highUpper)
  else decide (lowUpper < grid * lowLower ∧ grid * highLower < highUpper)

/-- The decimal exponent of a positive finite double: the greatest `power` with `10 ^ power` not above it. -/
def decimalExponent (number : Double) : Int :=
  let atLeast (power : Int) : Bool :=
    let (upper, lower) := number.scaledUnits number.interval.middle power
    lower ≤ upper
  -- 78913 / 2 ^ 18 is close to the decimal logarithm of 2; one of three neighbours is right.
  let binary : Int := (number.coefficient.log2 : Int) + number.shiftedPower - 1074
  let guess := (binary * 78913) / Nat.pow 2 18 + 1
  if atLeast guess then guess
  else if atLeast (guess - 1) then guess - 1
  else guess - 2

/-- The best decimal with the given number of digits, if one reads back as the double: of the two
neighbours on the decimal grid the one nearer to the exact value, or the even one. -/
def decimalWith? (number : Double) (places : Nat) : Option Decimal :=
  let power := number.decimalExponent + 1 - places
  let (upper, lower) := number.scaledUnits number.interval.middle power
  let floor := upper / lower
  let nearest := roundQuotient upper lower
  if number.covers nearest power then some ⟨nearest, power⟩
  else if number.covers floor power then some ⟨floor, power⟩
  else if number.covers (floor + 1) power then some ⟨floor + 1, power⟩
  else none

/-- The first number of digits, from `places` on, with which some decimal reads back. -/
def shortestFrom (number : Double) : Nat → Nat → Decimal
  | 0, places => ⟨number.coefficient, places⟩
  | fuel + 1, places =>
    match number.decimalWith? places with
    | some decimal => decimal
    | none => shortestFrom number fuel (places + 1)

/-- The fewest digits that read back as the positive finite double; 17 always suffice. -/
def shortest (number : Double) : Decimal :=
  Decimal.dropZeros 17 (shortestFrom number 17 1)

/-- How a format writes doubles. -/
structure Layout where
  /-- The least `top` of a decimal that is written positionally. -/
  leastTop : Int
  /-- The greatest `top` of a decimal that is written positionally. -/
  greatestTop : Int
  /-- A whole number gets a fraction of one zero. -/
  keepsPoint : Bool
  /-- A positive exponent gets a plus sign. -/
  signsExponent : Bool
  positiveInfinity : String
  negativeInfinity : String
  notANumber : String

/-- A positive decimal in positional notation. -/
def positionalText (layout : Layout) (decimal : Decimal) : List Char :=
  let digits := decimal.digitText
  if 0 ≤ decimal.power then
    digits ++ List.replicate decimal.power.toNat '0' ++ (if layout.keepsPoint then ['.', '0'] else [])
  else if 0 < decimal.top then
    digits.take decimal.top.toNat ++ ['.'] ++ digits.drop decimal.top.toNat
  else
    ['0', '.'] ++ List.replicate (-decimal.top).toNat '0' ++ digits

/-- A positive decimal in scientific notation. -/
def scientificText (layout : Layout) (decimal : Decimal) : List Char :=
  let mantissa : List Char :=
    match decimal.digitText with
    | [] => []
    | [digit] => [digit]
    | digit :: rest => digit :: '.' :: rest
  let exponent := decimal.top - 1
  let sign : List Char :=
    if exponent < 0 then ['-'] else if layout.signsExponent then ['+'] else []
  mantissa ++ ['e'] ++ sign ++ Nat.toDigits 10 exponent.natAbs

/-- The text of a double in a layout. -/
def text (layout : Layout) (number : Double) : String :=
  if number.isNaN then layout.notANumber
  else if number.isInfinite then
    if number.isNegative then layout.negativeInfinity else layout.positiveInfinity
  else
    let sign : List Char := if number.isNegative then ['-'] else []
    if number.coefficient = 0 then
      String.ofList (sign ++ ['0'] ++ (if layout.keepsPoint then ['.', '0'] else []))
    else
      let decimal := number.shortest
      if layout.leastTop ≤ decimal.top ∧ decimal.top ≤ layout.greatestTop then
        String.ofList (sign ++ positionalText layout decimal)
      else
        String.ofList (sign ++ scientificText layout decimal)

end Double

end DeployRecipe
