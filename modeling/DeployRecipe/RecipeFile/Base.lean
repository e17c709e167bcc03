import DeployRecipe.RecipeFile.Kind
import DeployRecipe.RecipeFile.Search

/-!
The file of the base that a recipe extends. A reference is tried relative to the directory of the recipe,
then below each search root; the first candidate that is a directory or a file settles the search.
-/

namespace DeployRecipe.BaseReference

/-- The paths that a reference may mean, in the order in which they are tried. -/
def candidates (reference : Path) (directory : Path) (roots : List Path) : List Path :=
  if reference.isAbsolute then [reference] else (directory :: roots).map (·.join reference)

/-- The absolute path of a file that was found. -/
def absolute (files : FileTree) (path : Path) : Except ErrorKind Path :=
  match files.canonical path with
  | .ok path => .ok path
  | .error error => .error (.unreadableFile path error)

/-- What a candidate settles: a directory is searched for its service recipe, a file is taken as it is, and
else a file with one more extension is taken. -/
def settle? (files : FileTree) (candidate : Path) : Option (Except ErrorKind Path) :=
  let extended := candidate.append ".recipe"
  if files.isDirectory candidate then
    some (files.theFileEndingIn candidate RecipeKind.service.suffix >>= absolute files)
  else if files.isFile candidate then some (absolute files candidate)
  else if files.isFile extended then some (absolute files extended)
  else none

/-- The file that a reference names. -/
def resolve (files : FileTree) (reference : String) (directory : Path) (roots : List Path) :
    Except ErrorKind Path :=
  let tried := candidates ⟨reference⟩ directory roots
  (tried.findSome? (settle? files)).getD (.error (.extensionResolutionFailure reference tried))

end DeployRecipe.BaseReference
