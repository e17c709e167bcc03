import DeployRecipe.Recipe.Declaration
import DeployRecipe.Value.Text

/-!
The text that the parts of a quoted text make up, given a way to resolve names.
-/

namespace DeployRecipe

/-- Puts parts together, with the text of its value for each name. A name that does not resolve is the
error. -/
def TextPart.interpolate (resolve : String → Option Value) : List TextPart → Except String String
  | [] => .ok ""
  | .literal text :: rest => (interpolate resolve rest).map (text ++ ·)
  | .reference name :: rest =>
    match resolve name with
    | none => .error name
    | some value => (interpolate resolve rest).map (value.toText ++ ·)

end DeployRecipe
