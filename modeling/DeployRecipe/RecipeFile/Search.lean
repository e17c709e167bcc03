import DeployRecipe.Error
import DeployRecipe.FileTree

/-!
Looking for the one file of a directory whose name ends in a given way. The paths that are found are built
from the pieces of the directory's path; a dot in front of it and doubled slashes are dropped.
-/

namespace DeployRecipe.FileTree

/-- The path of a piece below a path that may be the working directory. -/
def below (path : Path) (piece : String) : Path :=
  if path.text = "." then ⟨piece⟩ else path.join ⟨piece⟩

/-- Follows pieces from a path as long as they lead somewhere. -/
def follow? (tree : FileTree) (path : Path) : List String → Option Path
  | [] => some path
  | piece :: rest =>
    let next := below path piece
    let leads := if piece = "." ∨ piece = ".." then tree.isDirectory path else tree.has next
    if leads then tree.follow? next rest else none

/-- Where the path of a directory starts, and the pieces that lead from there. -/
def start (directory : Path) : Path × List String :=
  if directory.text = "" then (⟨"/"⟩, [])
  else if directory.isAbsolute then (⟨"/"⟩, directory.pieces.tail)
  else (⟨"."⟩, directory.pieces)

/-- The names that stand at a path, if it is a directory. -/
def namesAt (tree : FileTree) (path : Path) : List String :=
  match tree.locate path with
  | .ok location => if tree.node? location = some .directory then tree.names location else []
  | .error _ => []

/-- The paths below a directory whose names end in a suffix. After a slash in the suffix the path goes on
below the name. -/
def endingIn (tree : FileTree) (directory : Path) (suffix : String) : List Path :=
  let (origin, pieces) := start directory
  match tree.follow? origin pieces, (Path.mk suffix).pieces with
  | some path, ending :: further =>
    (tree.namesAt path).filterMap fun name =>
      if ending.toList.isSuffixOf name.toList then tree.follow? (below path name) further else none
  | _, _ => []

/-- The files among them, in order. -/
def filesEndingIn (tree : FileTree) (directory : Path) (suffix : String) : List Path :=
  ((tree.endingIn directory suffix).filter tree.isFile).mergeSort Path.le

/-- The one file of a directory whose name ends in a suffix. -/
def theFileEndingIn (tree : FileTree) (directory : Path) (suffix : String) : Except ErrorKind Path :=
  match tree.filesEndingIn directory suffix with
  | [] => .error (.missingRecipe suffix directory)
  | [path] => .ok path
  | paths => .error (.multipleCandidateFiles suffix directory paths)

end DeployRecipe.FileTree
