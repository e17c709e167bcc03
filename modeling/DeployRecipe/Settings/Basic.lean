import DeployRecipe.Path
import DeployRecipe.Text.Blank
import DeployRecipe.Text.Split
import DeployRecipe.Value.Basic

/-!
The settings of the compiler.
-/

namespace DeployRecipe

structure Settings where
  /-- Where bases are searched for after the directory of the recipe. -/
  searchRoots : List Path
  /-- The lowest layer of every environment. -/
  defaults : Table
  validate : Bool
  /-- The greatest number of bytes of an overrides text. -/
  overridesLimit : Nat

namespace Settings

/-- The settings where nothing is set. -/
def standard : Settings where
  searchRoots := []
  defaults := []
  validate := true
  overridesLimit := 20 * 1024

/-- Adds search roots that stand in a text with colons between them. Blank ones do not count. -/
def addSearchRoots (settings : Settings) (text : String) : Settings :=
  let roots := (Text.split ':' text.toList).filter fun root => !Text.isBlankText root
  { settings with
    searchRoots := settings.searchRoots ++ roots.map fun root => ⟨String.ofList root⟩ }

end Settings

end DeployRecipe
