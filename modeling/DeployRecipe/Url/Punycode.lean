/-!
Labels of domains that are written in ASCII: a run of plain characters, and numbers that say which other
characters stand where. Each number is the distance from the last character that was put in, counted over
characters first and over places then.
-/

namespace DeployRecipe.Url.Punycode

/-- The value of a digit in base 36. -/
def digit? (character : Char) : Option Nat :=
  if 'a' ≤ character ∧ character ≤ 'z' then some (character.toNat - 'a'.toNat)
  else if '0' ≤ character ∧ character ≤ '9' then some (character.toNat - '0'.toNat + 26)
  else none

/-- A label that is being decoded. -/
structure Decoding where
  characters : List Char
  /-- The last character that was put in. -/
  code : Nat
  /-- The place after that character. -/
  place : Nat
  bias : Nat
  /-- What the digits of the current number add up to. -/
  distance : Nat
  /-- What the next digit counts. -/
  weight : Nat
  /-- Where the next digit stands; each digit moves it on by the base. -/
  position : Nat

/-- The state before the first number. -/
def Decoding.start (plain : List Char) : Decoding :=
  ⟨plain, 128, 0, 72, 0, 1, 36⟩

/-- A digit below this ends its number. -/
def Decoding.threshold (state : Decoding) : Nat :=
  min 26 (max 1 (state.position - state.bias))

/-- The bias after a scaled distance. -/
def settle (distance shift : Nat) : Nat :=
  if 455 < distance then settle (distance / 35) (shift + 36)
  else shift + 36 * distance / (distance + 38)
termination_by distance
decreasing_by omega

/-- The bias for the next number. -/
def Decoding.nextBias (state : Decoding) : Nat :=
  let scaled := if state.place = 0 then state.distance / 700 else state.distance / 2
  settle (scaled + scaled / (state.characters.length + 1)) 0

/-- Puts in the character that the finished number says. -/
def Decoding.putIn (state : Decoding) : Option Decoding :=
  let places := state.characters.length + 1
  let total := state.place + state.distance
  let code := state.code + total / places
  let place := total % places
  if code.isValidChar then
    some
      { characters := state.characters.insertIdx place (Char.ofNat code)
        code
        place := place + 1
        bias := state.nextBias
        distance := 0
        weight := 1
        position := 36 }
  else none

/-- Reads a digit. -/
def Decoding.step (state : Decoding) (character : Char) : Option Decoding := do
  let digit ← digit? character
  let read := { state with distance := state.distance + digit * state.weight }
  if digit < state.threshold then read.putIn
  else
    some
      { read with
        weight := state.weight * (36 - state.threshold)
        position := state.position + 36 }

/-- The plain characters stand before the last hyphen, unless that comes first, and the digits after
it. -/
def parts (label : List Char) : List Char × List Char :=
  let digits := (label.reverse.takeWhile (· ≠ '-')).reverse
  let plain := label.take (label.length - digits.length - 1)
  if plain.isEmpty then ([], label) else (plain, digits)

/-- The label that an ASCII text stands for. -/
def decode? (label : List Char) : Option (List Char) := do
  let (plain, digits) := parts label
  let finished ← digits.foldlM Decoding.step (.start plain)
  if finished.position = 36 then some finished.characters else none

end DeployRecipe.Url.Punycode
