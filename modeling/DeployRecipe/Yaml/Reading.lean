import DeployRecipe.Schema.DecodeError
import DeployRecipe.Yaml.Document
import DeployRecipe.Yaml.Printer

/-!
Reading values from YAML. What is wrong with a document is told with the path and the place of the node.
-/

namespace DeployRecipe.Yaml

/-- A step from a node to a part of it. -/
inductive NodeStep where
  | key (name : String)
  | unnamed
  | item (index : Nat)
deriving DecidableEq, Repr

/-- Why a value cannot be read. -/
inductive ReadProblem where
  | decode (error : DecodeError)
  /-- A whole number of more than 64 bits. -/
  | tooLarge (number : Int) (expected : String)
  /-- A text that is not what its tag says. -/
  | badTag (text expected : String)
  | duplicateKey (key : Value)
  | duplicateField (name : String)

/-- A value cannot be read. -/
inductive ReadError where
  | broken (reason : Break)
  | atNode (path : List NodeStep) (mark : Mark) (problem : ReadProblem)
  | moreDocuments

namespace ReadProblem

/-- What messages say about a key that is there twice. -/
def keyText : Value → String
  | .null => "with null key"
  | .bool value => "with key `" ++ (if value then "true" else "false") ++ "`"
  | .int value => "with key " ++ toString value
  | .float value => "with key " ++ value.text numberLayout
  | .text value => "with key " ++ Text.quote value
  | _ => "in YAML map"

def message : ReadProblem → String
  | .decode error => error.message
  | .tooLarge number expected =>
    let width := if number < 0 then "i128" else "u128"
    "invalid type: integer `" ++ toString number ++ "` as " ++ width ++ ", expected " ++ expected
  | .badTag text expected => "invalid value: string " ++ Text.quote text ++ ", expected " ++ expected
  | .duplicateKey key => "duplicate entry " ++ keyText key
  | .duplicateField name => "duplicate field `" ++ name ++ "`"

end ReadProblem

namespace ReadError

/-- A path in messages. -/
def pathText : List NodeStep → String
  | [] => ""
  | .key name :: rest => "." ++ name ++ pathText rest
  | .unnamed :: rest => ".?" ++ pathText rest
  | .item index :: rest => "[" ++ toString index ++ "]" ++ pathText rest

/-- The place of a node; the start of the text is not named. -/
def placeText (mark : Mark) : String :=
  if mark.isStart then "" else " at " ++ mark.text

def message : ReadError → String
  | .broken (.fault fault) => fault.message
  | .broken (.unknownAnchor mark) => "unknown anchor" ++ placeText mark
  | .broken .tooDeep => "recursion limit exceeded"
  | .atNode path mark problem =>
    let steps := String.ofList ((pathText path).toList.dropWhile (· = '.'))
    (if steps = "" then "" else steps ++ ": ") ++ problem.message ++ placeText mark
  | .moreDocuments => "deserializing from YAML containing more than one document is not supported"

end ReadError

/-- Whole numbers of a value have at most 64 bits. -/
def fitsValue (number : Int) : Bool :=
  -(Nat.pow 2 63 : Int) ≤ number && number < Nat.pow 2 64

/-- The value of a plain scalar; `expected` is what messages say was expected of a number that is too
large. -/
def plainValue (expected text : String) : Except ReadProblem Value :=
  match Scalar.resolve text with
  | .null => .ok .null
  | .bool value => .ok (.bool value)
  | .int number => if fitsValue number then .ok (.int number) else .error (.tooLarge number expected)
  | .float number => .ok (.float number)
  | .text => .ok (.text text)

/-- The value of a scalar. A tag of the format settles what the text is. -/
def scalarValue (expected : String) (tag : Option String) (plain : Bool) (text : String) :
    Except ReadProblem Value :=
  match tag with
  | some "tag:yaml.org,2002:bool" =>
    match Scalar.resolve text with
    | .bool value => .ok (.bool value)
    | _ => .error (.badTag text "a boolean")
  | some "tag:yaml.org,2002:int" =>
    match Scalar.resolve text with
    | .int number =>
      if fitsValue number then .ok (.int number) else .error (.tooLarge number expected)
    | _ => .error (.badTag text "an integer")
  | some "tag:yaml.org,2002:float" =>
    match Scalar.float? text.toList with
    | some number => .ok (.float number)
    | none => .error (.badTag text "a float")
  | some "tag:yaml.org,2002:null" =>
    if Scalar.resolve text = .null ∧ text ≠ "" then .ok .null else .error (.badTag text "null")
  | some _ => .ok (.text text)
  | none => if plain then plainValue expected text else .ok (.text text)

/-- A tag that is kept with its value: one that starts with an exclamation mark. -/
def keptTag (tag : Option String) (value : Value) : Value :=
  match tag with
  | some name => if name.startsWith "!" then .tagged name value else value
  | none => value

namespace Node

/-- The step to the value of a key. -/
def step : Node → NodeStep
  | .scalar _ _ _ text => .key text
  | _ => .unnamed

/-- The place where a node begins, and the node itself without aliases. -/
def resolved : Node → Node
  | .alias target => target.resolved
  | node => node

def mark : Node → Mark
  | .scalar mark _ _ _ | .sequence mark _ _ | .mapping mark _ _ => mark
  | .alias target => target.mark
  | .nothing | .broken _ => Mark.start

def anyValue : String := "any YAML value"

mutual

/-- The value of a node. -/
def value (path : List NodeStep) : Node → Except ReadError Value
  | .scalar mark tag plain text =>
    let tagged := tag.filter (·.startsWith "!")
    let content :=
      if tagged.isSome then scalarValue anyValue none plain text
      else scalarValue anyValue tag plain text
    match content with
    | .ok value => .ok (keptTag tag value)
    | .error problem => .error (.atNode path mark problem)
  | .sequence _ tag items => do
    let items ← itemValues path 0 items
    pure (keptTag tag (.sequence items))
  | .mapping mark tag entries => do
    let entries ← entryValues path mark [] entries
    pure (keptTag tag (.mapping entries))
  | .alias target => target.value path
  | .nothing => .ok .null
  | .broken reason => .error (.broken reason)

def itemValues (path : List NodeStep) (index : Nat) : List Node → Except ReadError (List Value)
  | [] => .ok []
  | first :: rest => do
    let value ← first.value (path ++ [.item index])
    let others ← itemValues path (index + 1) rest
    pure (value :: others)

/-- The entries of a mapping, whose keys differ. -/
def entryValues (path : List NodeStep) (mark : Mark) (found : Mapping) :
    List (Node × Node) → Except ReadError Mapping
  | [] => .ok found
  | (key, content) :: rest => do
    let keyValue ← key.value path
    if found.hasKey keyValue then throw (.atNode path mark (.duplicateKey keyValue))
    let value ← content.value (path ++ [key.step])
    entryValues path mark (found ++ [(keyValue, value)]) rest

end

/-- The error of a node that is not what was expected. -/
def unexpected (path : List NodeStep) (expected : String) (node : Node) : ReadError :=
  let wrong (value : Value) : ReadError := .atNode path node.mark (.decode (.wrongKind value expected))
  match node.resolved with
  | .scalar mark tag plain text =>
    match scalarValue expected tag plain text with
    | .ok value => wrong value
    | .error problem => .atNode path mark problem
  | .sequence _ _ _ => wrong (.sequence [])
  | .mapping _ _ _ => wrong (.mapping [])
  | .broken reason => .broken reason
  | _ => wrong .null

/-- The text of a scalar, whatever it stands for. -/
def text (path : List NodeStep) (expected : String) (node : Node) : Except ReadError String :=
  match node.resolved with
  | .scalar _ _ _ text => .ok text
  | other => .error (unexpected path expected other)

/-- What a scalar without quotes denotes. -/
def plainScalar? (node : Node) : Option Scalar :=
  match node.resolved with
  | .scalar _ _ true text => some (Scalar.resolve text)
  | _ => none

/-- Nothing is written for the node. -/
def isUnwritten (node : Node) : Bool :=
  match node.resolved with
  | .scalar _ _ true "" => true
  | .nothing => true
  | _ => false

/-- The items of a sequence; there are none where nothing is written. -/
def items (path : List NodeStep) (expected : String) (node : Node) : Except ReadError (List Node) :=
  match node.resolved with
  | .sequence _ _ items => .ok items
  | other => if other.isUnwritten then .ok [] else .error (unexpected path expected other)

/-- The entries of a mapping; there are none where nothing is written. -/
def entries (path : List NodeStep) (expected : String) (node : Node) :
    Except ReadError (List (Node × Node)) :=
  match node.resolved with
  | .mapping _ _ entries => .ok entries
  | other => if other.isUnwritten then .ok [] else .error (unexpected path expected other)

end Node

/-- Reads the one document of a text. -/
def readDocument (read : Node → Except ReadError α) (text : String) : Except ReadError α := do
  let document := Document.ofText text
  let result ← read document.root
  match document.ending with
  | some reason => throw (.broken reason)
  | none => if document.isFollowed then throw .moreDocuments else pure result

/-- Reads a value from a text. -/
def readValue (text : String) : Except ReadError Value :=
  readDocument (Node.value []) text

end DeployRecipe.Yaml
