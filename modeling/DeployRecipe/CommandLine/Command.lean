import DeployRecipe.CommandLine.Arguments
import DeployRecipe.RecipeFile.Kind

/-!
The commands of the program, and how they are read from arguments.
-/

namespace DeployRecipe

/-- The formats in which a compiled recipe is written. -/
inductive OutputFormat where
  | yaml
  | json
deriving DecidableEq, Repr

def OutputFormat.ofName? : String → Option OutputFormat
  | "yaml" => some .yaml
  | "json" => some .json
  | _ => none

inductive Command where
  /-- Writes the entity that a recipe compiles to. -/
  | compile (path : Path) (kind : Option RecipeKind) (overrides properties : Option Path)
      (definitions : List String) (format : OutputFormat) (skipsValidation : Bool)
  | validate (path : Path) (kind : Option RecipeKind)
  /-- Makes a recipe of a service with its properties file. -/
  | init (path : Path) (name : String)
  /-- Writes the bases that a service extends. -/
  | lineage (path : Path)
  /-- Writes the files that were read, with their hashes. -/
  | sources (path : Path) (kind : Option RecipeKind)

/-- The paths that a command names. -/
def Command.paths : Command → List Path
  | .compile path _ overrides properties _ _ _ => path :: overrides.toList ++ properties.toList
  | .validate path _ | .init path _ | .lineage path | .sources path _ => [path]

/-- A command with the options that all commands share. -/
structure Invocation where
  command : Command
  /-- A settings file other than the one in the working directory. -/
  settings : Option Path

namespace Invocation

/-- What is said about arguments that are refused. -/
def usage : String :=
  "usage: recipec [--config FILE] [--verbose] COMMAND [OPTIONS] [PATH]\n" ++
  "commands: compile, validate, init, lineage, sources"

/-- The options of all commands. -/
def sharedSpecs : List OptionSpec := [.value "config" none, .flag "verbose" (some 'v')]

def kindSpec : OptionSpec := .value "kind" (some 'k')

/-- The options of a command. -/
def specs? : String → Option (List OptionSpec)
  | "compile" => some [
      kindSpec, .value "overrides" none, .value "properties" none,
      ⟨"define", none, some 'D', true, true⟩, .value "format" none, .flag "no-validate" none]
  | "validate" => some [kindSpec]
  | "init" => some [.value "name" (some 'n')]
  | "lineage" => some []
  | "sources" => some [kindSpec]
  | _ => none

/-- A path, which is not empty. -/
def path? (text : String) : Option Path :=
  if text = "" then none else some ⟨text⟩

/-- The path of an option, if the option is given. -/
def optionPath? (arguments : Arguments) (name : String) : Option (Option Path) :=
  match arguments.value? name with
  | none => some none
  | some text => (path? text).map some

/-- The kind that is asked for, if one is. -/
def kind? (arguments : Arguments) : Option (Option RecipeKind) :=
  match arguments.value? kindSpec.name with
  | none => some none
  | some text => (RecipeKind.ofName text).toOption.map some

/-- The one positional argument, or the working directory. -/
def target? (arguments : Arguments) : Option Path :=
  match arguments.positional with
  | [] => some ⟨"."⟩
  | [text] => path? text
  | _ => none

/-- Reads a command with its own arguments. -/
def command? (name : String) (arguments : Arguments) : Option Command := do
  let path ← target? arguments
  let kind ← kind? arguments
  match name with
  | "compile" =>
    let overrides ← optionPath? arguments "overrides"
    let properties ← optionPath? arguments "properties"
    let format ← OutputFormat.ofName? ((arguments.value? "format").getD "yaml")
    some (.compile path kind overrides properties (arguments.values "define") format
      (arguments.hasFlag "no-validate"))
  | "validate" => some (.validate path kind)
  | "init" => (arguments.value? "name").map (.init path)
  | "lineage" => some (.lineage path)
  | "sources" => some (.sources path kind)
  | _ => none

/-- Reads the arguments of the program. No result says that they are refused. -/
def ofArguments? (texts : List String) : Option Invocation := do
  let (shared, rest) ← Arguments.read sharedSpecs true .empty none texts
  match rest with
  | [] => none
  | name :: rest =>
    let specs ← specs? name
    let (own, _) ← Arguments.read (sharedSpecs ++ specs) false .empty none rest
    let command ← command? name own
    -- The settings file that is named last counts.
    let outer ← optionPath? shared "config"
    let inner ← optionPath? own "config"
    some ⟨command, inner <|> outer⟩

end Invocation

end DeployRecipe
