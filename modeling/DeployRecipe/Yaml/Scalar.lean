import DeployRecipe.Number.Double

/-!
Plain scalars of YAML: which texts denote null, a truth value or a number. Every other text denotes
itself.
-/

namespace DeployRecipe.Yaml

/-- What a plain scalar denotes. -/
inductive Scalar where
  | null
  | bool (value : Bool)
  | int (value : Int)
  | float (value : Double)
  | text
deriving DecidableEq, Repr

namespace Scalar

/-- The value of a digit in a radix of at most 16. -/
def digit? (radix : Nat) (character : Char) : Option Nat :=
  let value :=
    if character.isDigit then some (character.toNat - '0'.toNat)
    else if 'a' ≤ character ∧ character ≤ 'f' then some (character.toNat - 'a'.toNat + 10)
    else if 'A' ≤ character ∧ character ≤ 'F' then some (character.toNat - 'A'.toNat + 10)
    else none
  value.filter (· < radix)

/-- The number that one or more digits denote. -/
def natural? (radix : Nat) (digits : List Char) : Option Nat :=
  if digits.isEmpty then none
  else digits.foldlM (fun value character => (digit? radix character).map (radix * value + ·)) 0

def isSign (character : Char) : Bool :=
  character = '+' || character = '-'

/-- Digits that start with a zero and go on denote a text, also after a sign. -/
def isPaddedDigits (text : List Char) : Bool :=
  let digits :=
    match text with
    | first :: rest => if isSign first then rest else text
    | [] => []
  match digits with
  | '0' :: next :: rest => (next :: rest).all Char.isDigit
  | _ => false

/-- The number that digits in some radix denote, with the radix marked in front. -/
def magnitude? : List Char → Option Nat
  | '0' :: 'x' :: digits => natural? 16 digits
  | '0' :: 'o' :: digits => natural? 8 digits
  | '0' :: 'b' :: digits => natural? 2 digits
  | digits => natural? 10 digits

/-- Whole numbers of up to 128 bits. -/
def int? (text : List Char) : Option Int :=
  if isPaddedDigits text then none
  else
    match text with
    | '-' :: rest => do
      let size ← magnitude? rest
      if size ≤ Nat.pow 2 127 then some (-(size : Int)) else none
    | '+' :: rest => do
      let size ← magnitude? rest
      if size < Nat.pow 2 128 then some size else none
    | rest => do
      let size ← magnitude? rest
      if size < Nat.pow 2 128 then some size else none

/-- The exponent of a decimal number; no text is an exponent of zero. -/
def exponent? : List Char → Option Int
  | [] => some 0
  | mark :: rest =>
    if mark = 'e' ∨ mark = 'E' then
      match rest with
      | '-' :: digits => (natural? 10 digits).map fun size => -(size : Int)
      | '+' :: digits => (natural? 10 digits).map Int.ofNat
      | digits => (natural? 10 digits).map Int.ofNat
    else none

/-- Decimal notation without a sign: digits with a point anywhere among them, and an exponent. -/
def decimal? (negative : Bool) (text : List Char) : Option Double := do
  let whole := text.takeWhile Char.isDigit
  let rest := text.dropWhile Char.isDigit
  let (fraction, rest) :=
    match rest with
    | '.' :: after => (after.takeWhile Char.isDigit, after.dropWhile Char.isDigit)
    | _ => ([], rest)
  let digits ← natural? 10 (whole ++ fraction)
  let exponent ← exponent? rest
  some (Double.ofDecimal negative digits (exponent - fraction.length))

/-- Floating point numbers; a number outside the range of doubles is a text. -/
def float? (text : List Char) : Option Double :=
  let named := String.ofList text
  if named = ".inf" ∨ named = ".Inf" ∨ named = ".INF" ∨ named = "+.inf" ∨ named = "+.Inf" ∨
      named = "+.INF" then
    some (Double.infinity false)
  else if named = "-.inf" ∨ named = "-.Inf" ∨ named = "-.INF" then some (Double.infinity true)
  else if named = ".nan" ∨ named = ".NaN" ∨ named = ".NAN" then some Double.nan
  else
    let number :=
      match text with
      | '+' :: rest => decimal? false rest
      | '-' :: rest => decimal? true rest
      | rest => decimal? false rest
    number.filter Double.isFinite

/-- What a plain scalar denotes. -/
def resolve (scalar : String) : Scalar :=
  let text := scalar.toList
  if scalar = "" ∨ scalar = "null" ∨ scalar = "Null" ∨ scalar = "NULL" ∨ scalar = "~" then .null
  else if scalar = "true" ∨ scalar = "True" ∨ scalar = "TRUE" then .bool true
  else if scalar = "false" ∨ scalar = "False" ∨ scalar = "FALSE" then .bool false
  else
    match int? text with
    | some number => .int number
    | none =>
      if isPaddedDigits text then .text
      else
        match float? text with
        | some number => .float number
        | none => .text

end Scalar

end DeployRecipe.Yaml
