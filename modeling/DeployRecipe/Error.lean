import DeployRecipe.Entity.Registry
import DeployRecipe.FileTree
import DeployRecipe.Recipe.Fault
import DeployRecipe.Schema.DecodeError
import DeployRecipe.Validation.Fault

/-!
Why a compilation fails, and where: the file, the line if it is known, and the chain of files that led to
the file, the outermost first.
-/

namespace DeployRecipe

/-- Why the text of a properties file is refused. -/
inductive PropertiesFault where
  | unreadable (error : Recipe.SyntaxError)
  | notOneValue (key : String)
  | unresolved (name : String)
  | blockValue (name : String)
  | loadValue (path : String)
  | tooLarge (bytes limit : Nat)

def PropertiesFault.message : PropertiesFault → String
  | .unreadable error => error.message
  | .notOneValue key => "'" ++ key ++ "' takes exactly one value"
  | .unresolved name => "could not resolve '" ++ name ++ "'"
  | .blockValue name => "block '" ++ name ++ "' is not a property value"
  | .loadValue path => "load(\"" ++ path ++ "\") is not allowed in properties"
  | .tooLarge bytes limit =>
    "overrides are " ++ toString bytes ++ " bytes, the limit is " ++ toString limit

/-- Why a value cannot be given to a property. -/
inductive CoercionFault where
  | manyValues (count : Nat)
  | wrongShape (error : DecodeError)
  | notOnePath

def CoercionFault.message : CoercionFault → String
  | .manyValues count => "received " ++ toString count ++ " values where only one is allowed"
  | .wrongShape error => error.message
  | .notOnePath => "expected a single recipe path string"

/-- What went wrong. -/
inductive ErrorKind where
  | missingRecipe (suffix : String) (directory : Path)
  | multipleCandidateFiles (suffix : String) (directory : Path) (candidates : List Path)
  | fileNotFound (path : Path)
  | unreadableFile (path : Path) (error : AccessError)
  | propertiesParseError (path : Path) (fault : PropertiesFault)
  | parseError (error : Recipe.SyntaxError)
  | unknownDeclaration (name : String)
  | illegalNestingOrRoot (name : String) (reason : Descriptor.PlacementError)
  | duplicateProcessingUnit (name existing : String) (family : BlockFamily)
  | unknownProperty (entity : EntityKind) (name : String)
  | duplicateProperty (name : String)
  | typeCoercionFailure (entity : EntityKind) (name : String) (fault : CoercionFault)
  | illegalExtendPosition (entity : EntityKind)
  /-- A base is extended in a block that cannot have one, or in no block. -/
  | unsupportedExtension (inside : Option EntityKind)
  | extensionResolutionFailure (reference : String) (searched : List Path)
  | emptyRecipe
  | validationFailure (entity : EntityKind) (fault : ValidationFault)
  | unresolvedReference (name : String)
  | circularReference (cycle : List Path)
  | wrongRootType (expected found : EntityKind)
  /-- Files led to files more often than there can be files. -/
  | tooDeep

def ErrorKind.message : ErrorKind → String
  | .missingRecipe suffix directory =>
    "no file ending in '" ++ suffix ++ "' found in " ++ directory.text
  | .multipleCandidateFiles suffix directory candidates =>
    "found multiple files ending in '" ++ suffix ++ "' in " ++ directory.text ++ ": " ++
      Path.listText candidates ++ "; only one may be supplied"
  | .fileNotFound path => "file not found: " ++ path.text
  | .unreadableFile path error => "cannot read " ++ path.text ++ ": " ++ error.message
  | .propertiesParseError path fault => "invalid properties in " ++ path.text ++ ": " ++ fault.message
  | .parseError error => "syntax error: " ++ error.message
  | .unknownDeclaration name => "unknown declaration '" ++ name ++ "'"
  | .illegalNestingOrRoot name reason => "'" ++ name ++ "' " ++ reason.message
  | .duplicateProcessingUnit name existing family =>
    "'" ++ name ++ "' cannot be declared: '" ++ existing ++ "' is already declared and only one " ++
      family.name ++ " is allowed"
  | .unknownProperty entity name =>
    "could not find writable property '" ++ name ++ "' on " ++ entity.elementName
  | .duplicateProperty name =>
    "property duplication was found: property '" ++ name ++ "' is defined more than once"
  | .typeCoercionFailure entity name fault =>
    "cannot set '" ++ name ++ "' on " ++ entity.elementName ++ ": " ++ fault.message
  | .illegalExtendPosition entity =>
    "'extend' must be the first declaration inside the " ++ entity.elementName ++ " block"
  | .unsupportedExtension none => "'extend' can not be used outside of a block"
  | .unsupportedExtension (some kind) =>
    "'extend' can not be used in a '" ++ kind.elementName ++ "' block"
  | .extensionResolutionFailure reference searched =>
    "cannot resolve extended recipe '" ++ reference ++ "'; looked in: " ++ Path.listText searched
  | .emptyRecipe => "recipe does not evaluate to a single root entity: no root block was declared"
  | .validationFailure entity fault =>
    "validation of " ++ entity.elementName ++ " failed: " ++ fault.message
  | .unresolvedReference name => "could not resolve '" ++ name ++ "'"
  | .circularReference cycle => "circular reference: " ++ Path.listText cycle
  | .wrongRootType expected found =>
    "expected a " ++ expected.elementName ++ " recipe, found " ++ found.elementName
  | .tooDeep => "recipes refer to each other too deeply"

/-- A failed compilation. -/
structure CompileError where
  file : Path
  line : Option Nat
  /-- The files that led to the file, the outermost first. -/
  chain : List Path
  kind : ErrorKind

namespace CompileError

/-- A failure in a file, at no line. -/
def inFile (file : Path) (kind : ErrorKind) : CompileError :=
  ⟨file, none, [], kind⟩

/-- Adds a line, if there is none yet. -/
def atLine (error : CompileError) (line : Nat) : CompileError :=
  { error with line := some (error.line.getD line) }

/-- Adds a line that may be unknown, if there is none yet. -/
def atLine? (error : CompileError) (line : Option Nat) : CompileError :=
  { error with line := error.line.or line }

/-- Adds an outer file to the chain, unless it is the file itself or the outermost one already. -/
def within (error : CompileError) (outer : Path) : CompileError :=
  if error.file.same outer || error.chain.head?.any (·.same outer) then error
  else { error with chain := outer :: error.chain }

/-- A text in which every comma before a blank is an arrow. -/
def withArrows : List Char → List Char
  | ',' :: ' ' :: rest => ' ' :: '-' :: '>' :: ' ' :: withArrows rest
  | character :: rest => character :: withArrows rest
  | [] => []

/-- The failure with its place. -/
def display (error : CompileError) : String :=
  let line :=
    match error.line with
    | some line => ":" ++ toString line
    | none => ""
  let chain :=
    if error.chain.isEmpty then ""
    else
      " (while compiling " ++ String.ofList (withArrows (Path.listText error.chain).toList) ++ ")"
  error.file.text ++ line ++ ": " ++ error.kind.message ++ chain

end CompileError

end DeployRecipe
