import DeployRecipe.Text.Quoted
import DeployRecipe.Yaml.Printer

/-!
The form in which messages show a value: each part names its kind.
-/

namespace DeployRecipe.Value

/-- Parts with a comma and a blank between them. -/
def commaSeparated (parts : List String) : String :=
  String.intercalate ", " parts

mutual

/-- The form of a value in messages. -/
def inspect : Value → String
  | .null => "Null"
  | .bool value => "Bool(" ++ (if value then "true" else "false") ++ ")"
  | .int value => "Number(" ++ toString value ++ ")"
  | .float value => "Number(" ++ value.text Yaml.numberLayout ++ ")"
  | .text value => "String(" ++ Text.quote value ++ ")"
  | .sequence items => "Sequence [" ++ commaSeparated (inspectItems items) ++ "]"
  | .mapping entries => "Mapping \x7b" ++ commaSeparated (inspectEntries entries) ++ "\x7d"
  | .tagged tag value => "TaggedValue \x7b tag: " ++ tag ++ ", value: " ++ inspect value ++ " \x7d"

def inspectItems : List Value → List String
  | [] => []
  | first :: rest => inspect first :: inspectItems rest

/-- Scalar keys are shown without their kind. -/
def inspectEntries : List (Value × Value) → List String
  | [] => []
  | (key, value) :: rest =>
    let keyText :=
      match key with
      | .text content => Text.quote content
      | .bool value => if value then "true" else "false"
      | .int number => toString number
      | .float number => number.text Yaml.numberLayout
      | _ => inspect key
    (keyText ++ ": " ++ inspect value) :: inspectEntries rest

end

end DeployRecipe.Value
