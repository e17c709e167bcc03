import DeployRecipe.Text.Split

/-!
Paths of files as texts. A path is kept as it was built; two paths are the same if their components are,
and paths are ordered by their components.
-/

namespace DeployRecipe

/-- A path as it is written. -/
structure Path where
  text : String
deriving DecidableEq, Repr, Inhabited

namespace Path

/-- A part of a path that counts when paths are compared. -/
inductive Component where
  | root
  | current
  | parent
  | name (text : String)
deriving DecidableEq, Repr

/-- The parts between the slashes. -/
def pieces (path : Path) : List String :=
  (Text.split '/' path.text.toList).map String.ofList

/-- The path with the given parts between its slashes. -/
def ofPieces (parts : List String) : Path :=
  ⟨String.ofList (Text.join '/' (parts.map String.toList))⟩

def isAbsolute (path : Path) : Bool :=
  path.text.toList.head? = some '/'

/-- A piece that counts wherever it stands. -/
def isReal (piece : String) : Bool :=
  piece ≠ "" ∧ piece ≠ "."

def Component.ofPiece (piece : String) : Component :=
  if piece = ".." then .parent else .name piece

/-- The components: empty pieces do not count, and a single dot only counts as the first piece. -/
def components (path : Path) : List Component :=
  match path.pieces with
  | [] => []
  | first :: rest =>
    let start : List Component :=
      if path.isAbsolute then [.root]
      else if first = "." then [.current]
      else if first = "" then []
      else [Component.ofPiece first]
    start ++ (rest.filter isReal).map Component.ofPiece

/-- The two paths have the same components. -/
def same (left right : Path) : Bool :=
  left.components = right.components

/-- The place of a component's kind in the order of components. -/
def Component.rank : Component → Nat
  | .root => 0
  | .current => 1
  | .parent => 2
  | .name _ => 3

def Component.le : Component → Component → Bool
  | .name left, .name right => left ≤ right
  | left, right => left.rank ≤ right.rank

/-- The order of lists of components, the first difference decides. -/
def componentsLe : List Component → List Component → Bool
  | [], _ => true
  | _ :: _, [] => false
  | left :: lefts, right :: rights =>
    if left = right then componentsLe lefts rights else left.le right

def le (left right : Path) : Bool :=
  componentsLe left.components right.components

/-- The path of a part below a path. An absolute part stands for itself. -/
def join (path part : Path) : Path :=
  if part.isAbsolute then part
  else if path.text = "" ∨ path.text.toList.getLast? = some '/' then ⟨path.text ++ part.text⟩
  else ⟨path.text ++ "/" ++ part.text⟩

/-- The pieces up to the last component, and that component; the first piece counts unless it is
empty. -/
def splitLast? (path : Path) : Option (List String × String) :=
  match path.pieces with
  | [] => none
  | first :: rest =>
    let backwards := rest.reverse.dropWhile fun piece => !isReal piece
    match backwards with
    | last :: before => some (first :: before.reverse, last)
    | [] => if first = "" then none else some ([], first)

/-- The path without its last component. -/
def parent? (path : Path) : Option Path :=
  path.splitLast?.map fun (before, _) =>
    match before with
    | [] => ⟨""⟩
    | first :: rest =>
      let kept := (rest.reverse.dropWhile fun piece => !isReal piece).reverse
      if first = "" ∧ kept = [] then ⟨"/"⟩ else ofPieces (first :: kept)

/-- The name of the last component, if it is a name. -/
def fileName? (path : Path) : Option String :=
  match path.splitLast? with
  | some (before, last) => if last = ".." ∨ (before = [] ∧ last = ".") then none else some last
  | none => none

/-- A name without its extension: what stands before the last dot, unless nothing does. -/
def stem (name : String) : String :=
  let backwards := name.toList.reverse
  match backwards.dropWhile (· ≠ '.') with
  | [] => name
  | _ :: before => if before.isEmpty then name else String.ofList before.reverse

/-- The path with another extension of its last name. A path that ends with no name stays as it is. -/
def withExtension (path : Path) (extension : String) : Path :=
  match path.splitLast?, path.fileName? with
  | some (before, _), some name => ofPieces (before ++ [stem name ++ "." ++ extension])
  | _, _ => path

/-- The path with more characters at its end. -/
def append (path : Path) (more : String) : Path :=
  ⟨path.text ++ more⟩

/-- The texts of paths with a comma between them. -/
def listText (paths : List Path) : String :=
  String.intercalate ", " (paths.map Path.text)

end Path

end DeployRecipe
