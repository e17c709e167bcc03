import DeployRecipe.Entity.Kind
import DeployRecipe.Path

/-!
The kinds of recipe files. The end of a file's name tells the kind, and the kind tells which block is the
root of the recipe.
-/

namespace DeployRecipe

inductive RecipeKind where
  | service
  | application
  | cloud
  | template
deriving DecidableEq, Repr

namespace RecipeKind

/-- All kinds, in the order in which they are tried. -/
def all : List RecipeKind := [.service, .application, .cloud, .template]

def name : RecipeKind → String
  | .service => "service"
  | .application => "application"
  | .cloud => "cloud"
  | .template => "template"

/-- How the names of the files end. -/
def suffix (kind : RecipeKind) : String :=
  "-" ++ kind.name ++ ".recipe"

/-- The kind of the root block. -/
def rootKind : RecipeKind → EntityKind
  | .service => .service
  | .application => .application
  | .cloud => .cloud
  | .template => .cloudTemplate

/-- The kind that the name of a file tells. -/
def ofPath? (path : Path) : Option RecipeKind := do
  let fileName ← path.fileName?
  all.find? fun kind => kind.suffix.toList.isSuffixOf fileName.toList

/-- The text with small ASCII letters. -/
def lowered (text : String) : String :=
  String.ofList (text.toList.map Char.toLower)

/-- The kind with a name, in which the case of letters does not count. -/
def ofName (text : String) : Except String RecipeKind :=
  match all.find? fun kind => kind.name = lowered text with
  | some kind => .ok kind
  | none =>
    .error ("unknown recipe kind '" ++ lowered text ++
      "' (expected service, application, cloud or template)")

end RecipeKind

end DeployRecipe
