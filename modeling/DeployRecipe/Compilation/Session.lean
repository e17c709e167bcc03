import DeployRecipe.Environment.Files
import DeployRecipe.Recipe.Grammar
import DeployRecipe.Settings.Basic

/-!
What a compilation is given, and what it keeps while files lead to files: the parsed recipes, the files
that are being compiled, and the record of the files that were read. No file is compiled inside itself.
-/

namespace DeployRecipe

/-- What a compilation is given besides the recipe. -/
structure Job where
  files : FileTree
  settings : Settings
  /-- A properties file other than the one next to the recipe. -/
  propertiesFile : Option Path
  /-- Overrides other than the file next to the recipe. -/
  overrides : Option Overrides
  external : Option Table
  ambient : Table
  /-- Whether the result is validated; where it is not given, the settings decide. -/
  validate : Option Bool

/-- A job with nothing but files and settings. -/
def Job.plain (files : FileTree) (settings : Settings) : Job :=
  ⟨files, settings, none, none, none, [], none⟩

/-- What is kept while files lead to files. -/
structure Session where
  parsed : List (Path × List Declaration)
  /-- The files that are being compiled, the innermost first. -/
  active : List Path
  sources : Sources

/-- Runs an action and then restores a part of the state, also if the action fails. -/
def ensuring (restore : σ → σ) (action : EStateM ε σ α) : EStateM ε σ α := fun state =>
  match action state with
  | .ok result state => .ok result (restore state)
  | .error error state => .error error (restore state)

/-- Runs an action with its failures changed. -/
def adapting (change : ε → ε) (action : EStateM ε σ α) : EStateM ε σ α := fun state =>
  match action state with
  | .ok result state => .ok result state
  | .error error state => .error (change error) state

/-- A step of a compilation. -/
abbrev Compiling := EStateM CompileError Session

namespace Session

def empty : Session := ⟨[], [], []⟩

/-- The way from a file that is being compiled back to itself. -/
def cycle (session : Session) (path : Path) : List Path :=
  session.active.reverse.dropWhile (fun outer => !outer.same path) ++ [path]

def isActive (session : Session) (path : Path) : Bool :=
  session.active.any fun outer => outer.same path

/-- Starts to compile a file. A file that is being compiled already is refused. -/
def enter (path : Path) : Compiling Unit := do
  let session ← get
  if session.isActive path then
    throw (.inFile (session.active.head?.getD path) (.circularReference (session.cycle path)))
  set { session with active := path :: session.active }

/-- The session after the innermost file. -/
def leave (session : Session) : Session :=
  { session with active := session.active.tail }

/-- Runs a step that records files. -/
def recording (action : Recording α) : Compiling α := fun session =>
  match action session.sources with
  | .ok result sources => .ok result { session with sources }
  | .error error sources => .error error { session with sources }

/-- Reads and records the text of a file. -/
def read (job : Job) (path : Path) : Compiling String := do
  let text ← MonadExcept.ofExcept (job.files.readText path)
  recording (recordSource path text)
  pure text

def parsed? (session : Session) (path : Path) : Option (List Declaration) :=
  (session.parsed.find? fun entry => entry.1.same path).map Prod.snd

/-- The fault of a file that cannot be parsed. -/
def refused (path : Path) (error : Recipe.SyntaxError) : CompileError :=
  (CompileError.inFile path (.parseError error)).atLine? error.line?

/-- Parses the text of a recipe, unless the recipe was parsed before. -/
def parseText (path : Path) (text : String) : Compiling (List Declaration) := do
  let session ← get
  match session.parsed? path with
  | some declarations => pure declarations
  | none =>
    match Recipe.readDeclarations text with
    | .error error => throw (refused path error)
    | .ok declarations =>
      set { session with parsed := (path, declarations) :: session.parsed }
      pure declarations

/-- Reads and parses a recipe, unless it was parsed before. -/
def parseFile (job : Job) (path : Path) : Compiling (List Declaration) := do
  match (← get).parsed? path with
  | some declarations => pure declarations
  | none => parseText path (← read job path)

end Session

end DeployRecipe
