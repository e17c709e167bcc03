import DeployRecipe.Entries
import DeployRecipe.Path

/-!
A finite tree of files and directories without links, and what can be asked of it through paths. A path
is walked piece by piece: every piece needs a directory to stand in, also `.`, `..` and an empty one at
the end.
-/

namespace DeployRecipe

/-- The bytes of a file, as far as they are looked at: a text, or no text. -/
inductive Content where
  | text (text : String)
  | notText
deriving DecidableEq, Repr

/-- The content that bytes are. -/
def Content.ofBytes (bytes : ByteArray) : Content :=
  match String.fromUTF8? bytes with
  | some decoded => .text decoded
  | none => .notText

inductive FileNode where
  | directory
  | file (content : Content)
deriving DecidableEq, Repr

/-- Why a file or directory cannot be used. -/
inductive AccessError where
  | notFound
  | notDirectory
  | isDirectory
  | alreadyExists
  | nameTooLong
  /-- A path with a null character. -/
  | nullInPath
  | notText
deriving DecidableEq, Repr

def AccessError.message : AccessError → String
  | .notFound => "No such file or directory (os error 2)"
  | .notDirectory => "Not a directory (os error 20)"
  | .isDirectory => "Is a directory (os error 21)"
  | .alreadyExists => "File exists (os error 17)"
  | .nameTooLong => "File name too long (os error 36)"
  | .nullInPath => "file name contained an unexpected NUL byte"
  | .notText => "stream did not contain valid UTF-8"

/-- A place in a tree: the names from the root down. -/
abbrev Location := List String

/-- A tree of files: what stands at each location, and the location from which relative paths start. -/
structure FileTree where
  nodes : Entries Location FileNode
  workingDirectory : Location

namespace FileTree

/-- What stands at a location. The root is a directory. -/
def node? (tree : FileTree) (location : Location) : Option FileNode :=
  if location = [] then some .directory else tree.nodes.find? location

/-- A name has at most so many bytes. -/
def nameLimit : Nat := 255

/-- A path has fewer bytes than that. -/
def pathLimit : Nat := 4096

/-- Walks pieces of a path down from a location. -/
def walk (tree : FileTree) (location : Location) : List String → Except AccessError Location
  | [] => .ok location
  | piece :: rest =>
    match tree.node? location with
    | none => .error .notFound
    | some (.file _) => .error .notDirectory
    | some .directory =>
      if piece = "" ∨ piece = "." then tree.walk location rest
      else if piece = ".." then tree.walk location.dropLast rest
      else if nameLimit < piece.utf8ByteSize then .error .nameTooLong
      else
        let child := location ++ [piece]
        if (tree.node? child).isSome then tree.walk child rest else .error .notFound

/-- Checks that a path can lead somewhere at all. -/
def checkPath (path : Path) : Except AccessError Unit :=
  if path.text = "" then .error .notFound
  else if path.text.toList.contains '\x00' then .error .nullInPath
  else if pathLimit ≤ path.text.utf8ByteSize then .error .nameTooLong
  else .ok ()

/-- The location from which a path starts. -/
def origin (tree : FileTree) (path : Path) : Location :=
  if path.isAbsolute then [] else tree.workingDirectory

/-- The location that a path leads to. -/
def locate (tree : FileTree) (path : Path) : Except AccessError Location := do
  checkPath path
  tree.walk (tree.origin path) path.pieces

/-- What a path leads to. -/
def at? (tree : FileTree) (path : Path) : Option FileNode :=
  match tree.locate path with
  | .ok location => tree.node? location
  | .error _ => none

def has (tree : FileTree) (path : Path) : Bool :=
  (tree.at? path).isSome

def isFile (tree : FileTree) (path : Path) : Bool :=
  match tree.at? path with
  | some (.file _) => true
  | _ => false

def isDirectory (tree : FileTree) (path : Path) : Bool :=
  match tree.at? path with
  | some .directory => true
  | _ => false

/-- The absolute path of a location. -/
def pathOf (location : Location) : Path :=
  match location with
  | [] => ⟨"/"⟩
  | names => Path.ofPieces ("" :: names)

/-- The absolute path without `.` and `..` that leads where the path does. -/
def canonical (tree : FileTree) (path : Path) : Except AccessError Path :=
  (tree.locate path).map pathOf

/-- The text of a file. -/
def read (tree : FileTree) (path : Path) : Except AccessError String :=
  match tree.locate path with
  | .error error => .error error
  | .ok location =>
    match tree.node? location with
    | some (.file (.text text)) => .ok text
    | some (.file .notText) => .error .notText
    | some .directory => .error .isDirectory
    | none => .error .notFound

/-- The names that stand in a directory. -/
def names (tree : FileTree) (location : Location) : List String :=
  tree.nodes.filterMap fun (present, _) =>
    match present.getLast? with
    | some name => if present.dropLast = location then some name else none
    | none => none

/-- The tree with a directory at a location and at every location on the way. -/
def makeDirectories (tree : FileTree) (location : Location) : FileTree :=
  let places := (List.range location.length).map fun count => location.take (count + 1)
  places.foldl (fun tree place =>
    if (tree.node? place).isSome then tree
    else { tree with nodes := tree.nodes.insert place .directory }) tree

/-- The tree with a file at a location, whose directories are made. -/
def put (tree : FileTree) (location : Location) (content : Content) : FileTree :=
  let tree := tree.makeDirectories location.dropLast
  { tree with nodes := tree.nodes.insert location (.file content) }

/-- The tree with only a working directory. -/
def empty (workingDirectory : Location) : FileTree :=
  makeDirectories ⟨[], workingDirectory⟩ workingDirectory

/-- Where a path leads if only its last name may be missing: the location of the directory, and the
name. A path that ends with no name has none. -/
def lastStep (tree : FileTree) (path : Path) : Except AccessError (Location × Option String) := do
  checkPath path
  let backwards := path.pieces.reverse.dropWhile (· = "")
  match backwards with
  | [] => pure ([], none)
  | last :: before =>
    let location ← tree.walk (tree.origin path) before.reverse
    match tree.node? location with
    | some .directory =>
      if last = "." ∨ last = ".." then pure (location, none)
      else if nameLimit < last.utf8ByteSize then throw .nameTooLong
      else pure (location, some last)
    | some (.file _) => throw .notDirectory
    | none => throw .notFound

/-- A step that changes files, also if it fails. -/
abbrev Changing := EStateM AccessError FileTree

/-- Makes one directory, which must not exist. -/
def makeDirectory (path : Path) : Changing Unit := do
  let tree ← get
  match ← MonadExcept.ofExcept (tree.lastStep path) with
  | (_, none) => throw .alreadyExists
  | (location, some name) =>
    let place := location ++ [name]
    if (tree.node? place).isSome then throw .alreadyExists
    set { tree with nodes := tree.nodes.insert place .directory }

/-- Runs an action that makes a directory; no failure counts if the directory exists then. -/
def unlessDirectory (path : Path) (action : Changing Unit) : Changing Unit := fun tree =>
  match action tree with
  | .ok () tree => .ok () tree
  | .error error tree => if tree.isDirectory path then .ok () tree else .error error tree

/-- Makes a directory and those on the way to it, the outermost first. A directory that exists is left as
it is. -/
def makeAll (path : Path) : Nat → Changing Unit
  | 0 => pure ()
  | fuel + 1 => fun tree =>
    if path.text = "" then .ok () tree
    else
      match makeDirectory path tree with
      | .error .notFound tree =>
        match makeAll (path.parent?.getD ⟨""⟩) fuel tree with
        | .ok () tree => unlessDirectory path (makeDirectory path) tree
        | .error error tree => .error error tree
      | .ok () tree => .ok () tree
      | .error error tree => if tree.isDirectory path then .ok () tree else .error error tree

/-- Makes a directory and those on the way to it. -/
def makePath (path : Path) : Changing Unit :=
  makeAll path (path.pieces.length + 1)

/-- Writes a file in a directory that exists. -/
def write (path : Path) (text : String) : Changing Unit := do
  let tree ← get
  match ← MonadExcept.ofExcept (tree.lastStep path) with
  | (_, none) => throw .isDirectory
  | (location, some name) =>
    let place := location ++ [name]
    if tree.node? place = some .directory then throw .isDirectory
    set { tree with nodes := tree.nodes.insert place (.file (.text text)) }

end FileTree

end DeployRecipe
