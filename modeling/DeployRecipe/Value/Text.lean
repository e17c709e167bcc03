import DeployRecipe.Text.Blank
import DeployRecipe.Value.Inspect

/-!
The text of a value where it is put into another text or stored as one.
-/

namespace DeployRecipe.Value

/-- Scalars are written without quotes, null as nothing; sequences and mappings as YAML without the
blanks at its end, or as messages show them where YAML has no text for them. -/
def toText : Value → String
  | .text value => value
  | .int value => toString value
  | .float value => value.text Yaml.numberLayout
  | .bool value => if value then "true" else "false"
  | .null => ""
  | value =>
    match Yaml.render? value with
    | some written => String.ofList (Text.trimEnd written.toList)
    | none => value.inspect

end DeployRecipe.Value
