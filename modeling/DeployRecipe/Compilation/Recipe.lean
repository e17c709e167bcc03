import DeployRecipe.Compilation.Statement
import DeployRecipe.Validation.Basic

/-!
Compiling recipes: from a text, from a file, or from the one file of a kind in a directory.
-/

namespace DeployRecipe

/-- A recipe that was compiled. -/
structure Compiled where
  root : Entity
  file : Path
  /-- The files that were read, in order. -/
  sources : Sources

namespace Job

/-- A bound for how often files lead to files. A file is not compiled inside itself, and paths of
services that are spelled in more than one way grow until they are too long. -/
def depth (job : Job) : Nat :=
  (job.files.nodes.length + 1) * FileTree.pathLimit

/-- What the environment of the recipe is made from. -/
def inputs (job : Job) (path : Path) : EnvironmentInputs where
  recipeFile := path
  defaults := job.settings.defaults
  inherited := none
  propertiesFile := job.propertiesFile
  overrides := job.overrides
  external := job.external
  ambient := job.ambient
  overridesLimit := job.settings.overridesLimit

/-- The root of a recipe with the given text. -/
def evaluate (job : Job) (path : Path) (text : String) : Compiling Entity := do
  Session.enter path
  Session.recording (recordSource path text)
  let declarations ← Session.parseText path text
  let environment ← Session.recording ((job.inputs path).build job.files)
  Evaluation.evaluateRecipe (Deeper.upTo job.depth) ⟨job, path, environment⟩ declarations

end Job

namespace Compiled

def kind (compiled : Compiled) : EntityKind :=
  compiled.root.kind

/-- The bases of a service, the nearest first. -/
def lineage (compiled : Compiled) : List String :=
  compiled.root.lineage

/-- The root, if it has a kind. -/
def rootOf (compiled : Compiled) (expected : EntityKind) : Except CompileError Entity :=
  if compiled.kind = expected then .ok compiled.root
  else .error (.inFile compiled.file (.wrongRootType expected compiled.kind))

/-- Compiles a text that stands for a file at a path. -/
def ofText (job : Job) (path : Path) (text : String) : Except CompileError Compiled :=
  match job.evaluate path text Session.empty with
  | .error error _ => .error error
  | .ok root session =>
    let compiled : Compiled := ⟨root, path, session.sources⟩
    if job.validate.getD job.settings.validate then
      match Validation.validate ⟨job.files, path⟩ root with
      | .ok () => .ok compiled
      | .error kind => .error (.inFile path kind)
    else .ok compiled

/-- Compiles a file. -/
def ofFile (job : Job) (path : Path) : Except CompileError Compiled :=
  if job.files.has path then
    match job.files.canonical path with
    | .error error => .error (.inFile path (.unreadableFile path error))
    | .ok path => do
      let text ← job.files.readText path
      ofText job path text
  else .error (.inFile path (.fileNotFound path))

/-- Compiles the one recipe of a kind in a directory, whose root has to be of the kind. -/
def ofDirectory (job : Job) (directory : Path) (kind : RecipeKind) : Except CompileError Compiled := do
  match job.files.theFileEndingIn directory kind.suffix with
  | .error failure => throw (.inFile directory failure)
  | .ok path =>
    let compiled ← ofFile job path
    let _ ← compiled.rootOf kind.rootKind
    pure compiled

end Compiled

end DeployRecipe
