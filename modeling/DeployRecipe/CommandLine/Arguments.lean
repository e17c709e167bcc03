/-!
Arguments of a command line: options with a long or a short name, which are flags or take a value, and
positional arguments.
-/

namespace DeployRecipe

/-- An option that a command accepts. -/
structure OptionSpec where
  /-- The name under which its values are found. -/
  name : String
  long : Option String
  short : Option Char
  takesValue : Bool
  /-- The option may be given more than once. -/
  repeats : Bool
deriving Repr

namespace OptionSpec

/-- A flag with a long name. -/
def flag (name : String) (short : Option Char) : OptionSpec :=
  ⟨name, some name, short, false, false⟩

/-- An option with a long name and a value. -/
def value (name : String) (short : Option Char) : OptionSpec :=
  ⟨name, some name, short, true, false⟩

end OptionSpec

/-- Arguments that were read. -/
structure Arguments where
  /-- Options with their values, in order; the value of a flag is empty. -/
  options : List (String × String)
  positional : List String
deriving Repr

namespace Arguments

def empty : Arguments := ⟨[], []⟩

/-- The values of an option. -/
def values (arguments : Arguments) (name : String) : List String :=
  (arguments.options.filter fun entry => entry.1 = name).map Prod.snd

/-- The value of an option that is given at most once. -/
def value? (arguments : Arguments) (name : String) : Option String :=
  (arguments.values name).head?

def hasFlag (arguments : Arguments) (name : String) : Bool :=
  !(arguments.values name).isEmpty

/-- Adds an option. One that may not be repeated is refused the second time. -/
def addOption (arguments : Arguments) (spec : OptionSpec) (value : String) : Option Arguments :=
  if arguments.hasFlag spec.name && !spec.repeats then none
  else some { arguments with options := arguments.options ++ [(spec.name, value)] }

def addPositional (arguments : Arguments) (text : String) : Arguments :=
  { arguments with positional := arguments.positional ++ [text] }

/-- The argument looks like an option: it starts with a dash and goes on. -/
def isOption (text : String) : Bool :=
  match text.toList with
  | '-' :: _ :: _ => true
  | _ => false

/-- What a group of short options leaves to do. -/
inductive ShortOutcome where
  | done (arguments : Arguments)
  /-- The last option of the group takes the next argument as its value. -/
  | pending (arguments : Arguments) (spec : OptionSpec)

/-- Reads a group of short options. What follows an option with a value is its value, with or without an
equals sign. -/
def readShorts (specs : List OptionSpec) (arguments : Arguments) : List Char → Option ShortOutcome
  | [] => some (.done arguments)
  | letter :: rest => do
    let spec ← specs.find? fun spec => spec.short = some letter
    if spec.takesValue then
      match rest with
      | [] => some (.pending arguments spec)
      | '=' :: value => (arguments.addOption spec (String.ofList value)).map .done
      | value => (arguments.addOption spec (String.ofList value)).map .done
    else
      let arguments ← arguments.addOption spec ""
      readShorts specs arguments rest

/-- Reads a long option without its dashes. -/
def readLong (specs : List OptionSpec) (arguments : Arguments) (text : List Char) :
    Option ShortOutcome := do
  let name := String.ofList (text.takeWhile (· ≠ '='))
  let spec ← specs.find? fun spec => spec.long = some name
  match text.dropWhile (· ≠ '='), spec.takesValue with
  | [], true => some (.pending arguments spec)
  | [], false => (arguments.addOption spec "").map .done
  | _ :: value, true => (arguments.addOption spec (String.ofList value)).map .done
  | _ :: _, false => none

/-- Reads arguments; `pending` is an option that takes the next argument as its value. If a command is
expected, reading stops at the first positional argument, which is given with those after it. After two
dashes all arguments are positional. No result says that the arguments are refused. -/
def read (specs : List OptionSpec) (stopsAtCommand : Bool) (arguments : Arguments)
    (pending : Option OptionSpec) : List String → Option (Arguments × List String)
  | [] => if pending.isSome then none else some (arguments, [])
  | first :: rest =>
    match pending with
    | some spec =>
      if isOption first then none
      else
        match arguments.addOption spec first with
        | some arguments => read specs stopsAtCommand arguments none rest
        | none => none
    | none =>
      if first = "--" then
        if stopsAtCommand then none
        else some (rest.foldl addPositional arguments, [])
      else if isOption first then
        let outcome :=
          match first.toList with
          | '-' :: '-' :: text => readLong specs arguments text
          | _ :: letters => readShorts specs arguments letters
          | [] => none
        match outcome with
        | none => none
        | some (.done arguments) => read specs stopsAtCommand arguments none rest
        | some (.pending arguments spec) => read specs stopsAtCommand arguments (some spec) rest
      else if stopsAtCommand then some (arguments, first :: rest)
      else read specs stopsAtCommand (arguments.addPositional first) none rest

end Arguments

end DeployRecipe
