import DeployRecipe.Properties
import DeployRecipe.Sources

/-!
The environment of a recipe: the layers that the files next to it, its caller and the settings make up.
Every file that is read is recorded, also when a later step fails.
-/

namespace DeployRecipe

/-- Where the overrides of a recipe stand. -/
inductive Overrides where
  | file (path : Path)
  | script (text : String)

/-- What the environment of a recipe is made from. -/
structure EnvironmentInputs where
  recipeFile : Path
  defaults : Table
  /-- The table that an extending recipe hands down. -/
  inherited : Option Table
  /-- A properties file other than the one next to the recipe. -/
  propertiesFile : Option Path
  /-- Overrides other than the file next to the recipe. -/
  overrides : Option Overrides
  /-- The table that an enclosing compilation lays above the files. -/
  external : Option Table
  ambient : Table
  overridesLimit : Nat

/-- A step that records files, also if it fails. -/
abbrev Recording := EStateM CompileError Sources

namespace FileTree

/-- Reads the text of a file. -/
def readText (files : FileTree) (path : Path) : Except CompileError String :=
  if files.has path then
    match files.read path with
    | .ok text => .ok text
    | .error error => .error (.inFile path (.unreadableFile path error))
  else .error (.inFile path (.fileNotFound path))

end FileTree

/-- Records a file. -/
def recordSource (path : Path) (text : String) : Recording Unit :=
  modify fun sources => sources.record path text

namespace EnvironmentInputs

/-- The file next to the recipe with another extension, if there is one. -/
def sibling? (inputs : EnvironmentInputs) (files : FileTree) (extension : String) : Option Path :=
  some (inputs.recipeFile.withExtension extension) |>.filter files.isFile

/-- The properties file. -/
def propertiesPath? (inputs : EnvironmentInputs) (files : FileTree) : Option Path :=
  inputs.propertiesFile <|> inputs.sibling? files "properties"

/-- The overrides with the path that stands for them. -/
def overridesText? (inputs : EnvironmentInputs) (files : FileTree) :
    Except CompileError (Option (Path × String)) :=
  let ofFile (path : Path) := (files.readText path).map fun text => some (path, text)
  match inputs.overrides with
  | some (.file path) => ofFile path
  | some (.script text) => .ok (some (⟨"<overrides script>"⟩, text))
  | none =>
    match inputs.sibling? files "overrides" with
    | some path => ofFile path
    | none => .ok none

/-- The ambient names, among them the path and the directory of the recipe. -/
def ambientTable (inputs : EnvironmentInputs) : Table :=
  let directory := (inputs.recipeFile.parent?.map Path.text).getD ""
  (inputs.ambient.insert "recipeFilePath" (.text inputs.recipeFile.text)).insert "recipeDir"
    (.text directory)

/-- Lays the properties of a text above an environment. -/
def pushText (environment : Environment) (source : LayerSource) (path : Path) (text : String) :
    Recording Environment := do
  recordSource path text
  let values ← MonadExcept.ofExcept (Properties.parse text path environment.merged)
  pure (environment.push ⟨source, values⟩)

/-- Lays the properties file above an environment. -/
def pushProperties (inputs : EnvironmentInputs) (files : FileTree) (environment : Environment) :
    Recording Environment :=
  match inputs.propertiesPath? files with
  | none => pure environment
  | some path => do
    let text ← MonadExcept.ofExcept (files.readText path)
    pushText environment .propertiesFile path text

/-- Lays the overrides above an environment. -/
def pushOverrides (inputs : EnvironmentInputs) (files : FileTree) (environment : Environment) :
    Recording Environment := do
  match ← MonadExcept.ofExcept (inputs.overridesText? files) with
  | none => pure environment
  | some (path, text) =>
    if inputs.overridesLimit < text.utf8ByteSize then
      throw (.inFile path (.propertiesParseError path
        (.tooLarge text.utf8ByteSize inputs.overridesLimit)))
    pushText environment .overrides path text

/-- The environment. -/
def build (inputs : EnvironmentInputs) (files : FileTree) : Recording Environment := do
  let environment := Environment.empty.push ⟨.defaults, inputs.defaults⟩
  let environment := environment.push? .inherited inputs.inherited
  let environment ← inputs.pushProperties files environment
  let environment ← inputs.pushOverrides files environment
  let environment := environment.push? .external inputs.external
  pure (environment.push ⟨.ambient, inputs.ambientTable⟩)

end EnvironmentInputs

end DeployRecipe
