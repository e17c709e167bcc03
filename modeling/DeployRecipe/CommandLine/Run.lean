import DeployRecipe.CommandLine.Command
import DeployRecipe.Compilation.Recipe
import DeployRecipe.Settings.Reading
import DeployRecipe.Value.Json

/-!
What the commands do: each gives the text that it writes, and `init` also makes files. Files that were
made stay when a later step fails.
-/

namespace DeployRecipe

/-- Why a command fails. -/
inductive CommandError where
  | undefinedValue (definition : String)
  | emptyKey (definition : String)
  | settings (error : SettingsError)
  | nothingThere (path : Path)
  | noRecipe (path : Path)
  | severalKinds (path : Path)
  | discovery (kind : ErrorKind)
  | compilation (error : CompileError)
  | unwritableYaml
  | unwritableJson (error : Value.JsonError)
  | invalidName (name : String)
  | cannotCreate (path : Path) (error : AccessError)
  | alreadyExists (path : Path)
  | cannotWrite (path : Path) (error : AccessError)

def CommandError.message : CommandError → String
  | .undefinedValue definition => "invalid -D '" ++ definition ++ "': expected KEY=VALUE"
  | .emptyKey definition => "invalid -D '" ++ definition ++ "': empty key"
  | .settings error => error.message
  | .nothingThere path => path.text ++ " does not exist"
  | .noRecipe path => "no recipe found in " ++ path.text
  | .severalKinds path => path.text ++ " holds recipes of several kinds; pick one with --kind"
  | .discovery kind => kind.message
  | .compilation error => error.display
  | .unwritableYaml => "cannot render yaml: serializing nested enums in YAML is not supported yet"
  | .unwritableJson error => "cannot render json: " ++ error.message
  | .invalidName name => "invalid service name '" ++ name ++ "'"
  | .cannotCreate path error => "cannot create " ++ path.text ++ ": " ++ error.message
  | .alreadyExists path => path.text ++ " already exists"
  | .cannotWrite path error => "cannot write " ++ path.text ++ ": " ++ error.message

namespace Command

/-- Lines of output. -/
def linesText (lines : List String) : String :=
  String.join (lines.map (· ++ "\n"))

/-- Reads a definition: the value is a scalar of YAML, or else the text as it stands. -/
def definition (text : String) : Except CommandError (String × Value) :=
  let characters := text.toList
  let key := String.ofList (Text.trim (characters.takeWhile (· ≠ '=')))
  match characters.dropWhile (· ≠ '=') with
  | [] => .error (.undefinedValue text)
  | _ :: raw =>
    let raw := String.ofList raw
    if key = "" then .error (.emptyKey text)
    else
      match Yaml.readValue raw with
      | .ok (.bool value) => .ok (key, .bool value)
      | .ok (.int value) => .ok (key, .int value)
      | .ok (.float value) => .ok (key, .float value)
      | .ok (.text value) => .ok (key, .text value)
      | _ => .ok (key, .text raw)

/-- Reads definitions; there is no table where nothing is defined. -/
def definitionTable (texts : List String) : Except CommandError (Option Table) := do
  if texts.isEmpty then pure none
  else
    let entries ← texts.mapM definition
    pure (some (Entries.ofList entries))

/-- The recipe that a directory holds, of the kind that is asked for or of any kind. -/
def recipeIn (files : FileTree) (directory : Path) (kind : Option RecipeKind) :
    Except CommandError Path := do
  let kinds := (kind.map fun kind => [kind]).getD RecipeKind.all
  let found ← kinds.filterMapM fun candidate =>
    match files.theFileEndingIn directory candidate.suffix with
    | .ok path => .ok (some path)
    | .error (.missingRecipe suffix searched) =>
      if kind.isNone then .ok none else .error (.discovery (.missingRecipe suffix searched))
    | .error failure => .error (.discovery failure)
  match found with
  | [] => throw (.noRecipe directory)
  | [path] => pure path
  | _ => throw (.severalKinds directory)

/-- The recipe that a path names: a file, or the recipe in a directory. -/
def recipeAt (files : FileTree) (path : Path) (kind : Option RecipeKind) : Except CommandError Path :=
  if files.isFile path then .ok path
  else if files.isDirectory path then recipeIn files path kind
  else .error (.nothingThere path)

/-- Compiles the recipe that a path names. -/
def compiled (job : Job) (path : Path) (kind : Option RecipeKind) : Except CommandError Compiled := do
  let result ←
    match kind, job.files.isDirectory path with
    | some kind, true => pure (Compiled.ofDirectory job path kind)
    | _, _ => do
      let file ← recipeAt job.files path kind
      pure (Compiled.ofFile job file)
  match result with
  | .ok compiled => pure compiled
  | .error error => throw (.compilation error)

/-- The text of an entity in a format. -/
def render (format : OutputFormat) (root : Entity) : Except CommandError String :=
  match format with
  | .yaml =>
    match Yaml.render? root.toValue with
    | some text => .ok text
    | none => .error .unwritableYaml
  | .json =>
    match root.toValue.toJson with
    | .ok text => .ok text
    | .error error => .error (.unwritableJson error)

/-- The text of a fresh recipe of a service. -/
def serviceTemplate (name : String) : String :=
  linesText [
    "service \x7b",
    "    name \"" ++ name ++ "\"",
    "    type \"APP_SERVER\"",
    "    numInstances instances",
    "    maxAllowedInstances 2",
    "",
    "    lifecycle \x7b",
    "        install \"install.sh\"",
    "        start \"start.sh\"",
    "        stop \"stop.sh\"",
    "    \x7d",
    "",
    "    network \x7b",
    "        port port",
    "    \x7d",
    "\x7d"]

/-- The properties of a fresh recipe of a service. -/
def propertiesTemplate : String :=
  linesText ["instances = 1", "port = 8080"]

/-- A name that a file can be named after. -/
def isServiceName (name : String) : Bool :=
  !Text.isBlankText name.toList && !name.toList.any fun character =>
    character = '/' || character = '\\'

/-- A command that is running on files. -/
abbrev Running := EStateM CommandError FileTree

/-- Runs a step that changes files, with its failures explained. -/
def changing (explain : AccessError → CommandError) (action : FileTree.Changing α) : Running α :=
  fun files =>
    match action files with
    | .ok result files => .ok result files
    | .error error files => .error (explain error) files

/-- Makes a recipe of a service with its properties file. -/
def makeService (directory : Path) (name : String) : Running String := do
  if !isServiceName name then throw (.invalidName name)
  changing (.cannotCreate directory) (FileTree.makePath directory)
  let recipe := directory.join ⟨name ++ RecipeKind.service.suffix⟩
  let properties := recipe.withExtension "properties"
  let files ← get
  match [recipe, properties].find? files.has with
  | some existing => throw (.alreadyExists existing)
  | none =>
    changing (.cannotWrite recipe) (FileTree.write recipe (serviceTemplate name))
    changing (.cannotWrite properties) (FileTree.write properties propertiesTemplate)
    pure (linesText [
      "Initialized service '" ++ name ++ "' at " ++ directory.text,
      "  Created: " ++ recipe.text,
      "  Created: " ++ properties.text])

/-- The settings of an invocation. -/
def settings (files : FileTree) (named : Option Path) (roots : Option String) :
    Except CommandError Settings :=
  match Settings.load files named (FileTree.pathOf files.workingDirectory) roots with
  | .ok settings => .ok settings
  | .error error => .error (.settings error)

end Command

namespace Invocation

/-- The text that a command writes that only reads files; `roots` are the search roots of the
surroundings. -/
def report (invocation : Invocation) (files : FileTree) (roots : Option String) :
    Except CommandError String := do
  let load := Command.settings files invocation.settings roots
  match invocation.command with
  | .init _ _ => pure ""
  | .compile path kind overrides properties definitions format skipsValidation =>
    let external ← Command.definitionTable definitions
    let settings ← load
    let job : Job :=
      { Job.plain files settings with
        propertiesFile := properties
        overrides := overrides.map Overrides.file
        external
        validate := if skipsValidation then some false else none }
    let compiled ← Command.compiled job path kind
    let text ← Command.render format compiled.root
    pure (Command.linesText [String.ofList (Text.trimEnd text.toList)])
  | .validate path kind =>
    let settings ← load
    let job : Job := { Job.plain files settings with validate := some true }
    let compiled ← Command.compiled job path kind
    pure (Command.linesText [
      "OK: " ++ compiled.kind.elementName ++ " " ++ compiled.root.name?.getD "<unnamed>"])
  | .lineage path =>
    let settings ← load
    let compiled ← Command.compiled (Job.plain files settings) path (some .service)
    pure (Command.linesText (compiled.file.text :: compiled.lineage.map ("  extends " ++ ·)))
  | .sources path kind =>
    let settings ← load
    let compiled ← Command.compiled (Job.plain files settings) path kind
    let lines := compiled.sources.map fun source => source.hash ++ "  " ++ source.path.text
    pure (Command.linesText (lines ++ ["digest: " ++ compiled.sources.digest]))

/-- Runs a command and gives the text that it writes. -/
def run (invocation : Invocation) (roots : Option String) : Command.Running String := do
  match invocation.command with
  | .init path name => Command.makeService path name
  | _ => MonadExcept.ofExcept (invocation.report (← get) roots)

end Invocation

end DeployRecipe
