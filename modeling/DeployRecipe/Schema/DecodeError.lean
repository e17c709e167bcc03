import DeployRecipe.Number.Shortest
import DeployRecipe.Text.Quoted
import DeployRecipe.Value.Basic

/-!
Why a value does not have a shape.
-/

namespace DeployRecipe

/-- Why a value does not have a shape. -/
inductive DecodeError where
  /-- The value is of another kind. -/
  | wrongKind (found : Value) (expected : String)
  /-- The number is of the right kind but out of range. -/
  | outOfRange (found : Int) (expected : String)
  /-- The text is no spelling of a choice. -/
  | unknownChoice (found : String) (spellings : List String)
  /-- A closed record has no such field. -/
  | unknownField (found : String) (names : List String)
  /-- None of the alternatives fits. -/
  | noAlternative (expected : String)

namespace DecodeError

/-- Numbers in messages are positional and show a point. -/
def numberLayout : Double.Layout where
  leastTop := -400
  greatestTop := 400
  keepsPoint := true
  signsExponent := false
  positiveInfinity := "inf"
  negativeInfinity := "-inf"
  notANumber := "NaN"

/-- What messages say that a value is. -/
def kindText : Value → String
  | .null => "unit value"
  | .bool value => "boolean `" ++ (if value then "true" else "false") ++ "`"
  | .int value => "integer `" ++ toString value ++ "`"
  | .float value => "floating point `" ++ value.text numberLayout ++ "`"
  | .text value => "string " ++ Text.quote value
  | .sequence _ => "sequence"
  | .mapping _ => "map"
  | .tagged _ _ => "enum"

/-- Names between backquotes. -/
def alternatives (names : List String) : String :=
  let quoted := names.map fun name => "`" ++ name ++ "`"
  match quoted with
  | [] => "there are no alternatives"
  | [only] => "expected " ++ only
  | [first, second] => "expected " ++ first ++ " or " ++ second
  | _ => "expected one of " ++ String.intercalate ", " quoted

def message : DecodeError → String
  | .wrongKind found expected => "invalid type: " ++ kindText found ++ ", expected " ++ expected
  | .outOfRange found expected =>
    "invalid value: integer `" ++ toString found ++ "`, expected " ++ expected
  | .unknownChoice found spellings => "unknown variant `" ++ found ++ "`, " ++ alternatives spellings
  | .unknownField found names => "unknown field `" ++ found ++ "`, " ++ alternatives names
  | .noAlternative expected => "data did not match any variant of untagged enum " ++ expected

end DecodeError

end DeployRecipe
