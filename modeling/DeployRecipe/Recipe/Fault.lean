import DeployRecipe.Text.Blank

/-!
Faults of recipe text: what was expected, where, and how the place is described.
-/

namespace DeployRecipe.Recipe

/-- What the text should have held at the place where reading stopped. -/
inductive Expectation where
  | value
  | closingBrace
  | closingBracket
  | closingParenthesis
  | closingQuote
  | closingInterpolation
  | interpolatedName
  | literalLoadPath
  | endOfText
deriving DecidableEq, Repr

/-- Why reading stops. -/
inductive Halt where
  /-- The text cannot be read; `rest` is the text from the place of the fault on. -/
  | fault (expected : Expectation) (rest : List Char)
  /-- The bound on nested calls was reached. -/
  | outOfFuel
deriving DecidableEq, Repr

/-- How the place of a fault is described. -/
inductive Place where
  | endOfInput
  | endOfLine
  | before (snippet : String)
deriving DecidableEq, Repr

/-- A fault with its line, counted from 1. -/
inductive SyntaxError where
  | unexpected (line : Nat) (expected : Expectation) (place : Place)
  | tooDeep
deriving DecidableEq, Repr

/-- The number of line feeds. -/
def lineFeeds (text : List Char) : Nat :=
  text.count '\n'

/-- The line of a place in a text with `feeds` line feeds, given the text from the place on. -/
def lineOf (feeds : Nat) (rest : List Char) : Nat :=
  feeds - lineFeeds rest + 1

/-- The greatest number of characters of the text that a fault shows. -/
def snippetLength : Nat := 32

/-- Describes a place by the text that follows it on its line. -/
def Place.ofRest (rest : List Char) : Place :=
  let snippet := (rest.takeWhile (· ≠ '\n')).take snippetLength
  if Text.isBlankText rest then .endOfInput
  else if Text.isBlankText snippet then .endOfLine
  else .before (String.ofList (Text.trimEnd snippet))

/-- The fault of a text with `feeds` line feeds. -/
def SyntaxError.ofHalt (feeds : Nat) : Halt → SyntaxError
  | .fault expected rest => .unexpected (lineOf feeds rest) expected (Place.ofRest rest)
  | .outOfFuel => .tooDeep

def Expectation.message : Expectation → String
  | .value => "expected value"
  | .closingBrace => "expected closing brace"
  | .closingBracket => "expected closing bracket"
  | .closingParenthesis => "expected closing parenthesis"
  | .closingQuote => "expected closing quote"
  | .closingInterpolation => "expected closing '\x7d' of interpolation"
  | .interpolatedName => "expected interpolated name"
  | .literalLoadPath => "expected literal load path"
  | .endOfText => "unexpected input (Eof)"

def Place.message : Place → String
  | .endOfInput => "at end of input"
  | .endOfLine => "at end of line"
  | .before snippet => "at '" ++ snippet ++ "'"

namespace SyntaxError

def line? : SyntaxError → Option Nat
  | .unexpected line _ _ => some line
  | .tooDeep => none

def message : SyntaxError → String
  | .unexpected _ expected place => expected.message ++ " " ++ place.message
  | .tooDeep => "the text is nested too deeply"

/-- The message with its line. -/
def display (error : SyntaxError) : String :=
  match error.line? with
  | some line => "line " ++ toString line ++ ": " ++ error.message
  | none => error.message

end SyntaxError

end DeployRecipe.Recipe
