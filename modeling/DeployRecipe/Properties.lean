import DeployRecipe.Environment
import DeployRecipe.Error
import DeployRecipe.Recipe.Grammar
import DeployRecipe.Recipe.Text

/-!
Properties files: declarations that give values to dotted names. Nested groups and dotted names may be
mixed; a reference sees the names of the file that stand before it, then those of the lower layers.
-/

namespace DeployRecipe.Properties

mutual

/-- The value of an expression, in sight of a table. -/
def evaluate (visible : Table) : Expression → Except PropertiesFault Value
  | .null => .ok .null
  | .bool value => .ok (.bool value)
  | .int value => .ok (.int value)
  | .float value => .ok (.float value)
  | .text value => .ok (.text value)
  | .interpolated parts =>
    match TextPart.interpolate visible.lookup? parts with
    | .ok text => .ok (.text text)
    | .error name => .error (.unresolved name)
  | .reference name =>
    match visible.lookup? name with
    | some value => .ok value
    | none => .error (.unresolved name)
  | .list items => (evaluateItems visible items).map .sequence
  | .map entries => (evaluateEntries visible [] entries).map .mapping
  | .block name _ _ => .error (.blockValue name)
  | .load path => .error (.loadValue path)

def evaluateItems (visible : Table) : List Expression → Except PropertiesFault (List Value)
  | [] => .ok []
  | first :: rest => do
    let value ← evaluate visible first
    let others ← evaluateItems visible rest
    pure (value :: others)

/-- Adds entries to a mapping; a later entry replaces an earlier one of the same key. -/
def evaluateEntries (visible : Table) (mapping : Mapping) :
    List (String × Expression) → Except PropertiesFault Mapping
  | [] => .ok mapping
  | (key, item) :: rest => do
    let value ← evaluate visible item
    evaluateEntries visible (mapping.insert key value) rest

end

/-- The names that a reference sees, and the names that the file defines. -/
structure Tables where
  visible : Table
  defined : Table

/-- Defines a name. -/
def Tables.define (tables : Tables) (key : String) (value : Value) : Tables :=
  ⟨tables.visible.overwrite key value, tables.defined.overwrite key value⟩

/-- The name of a declaration inside a group, or outside of all groups if the group is empty. -/
def qualified (group name : String) : String :=
  if group = "" then name else DottedName.within group name

mutual

/-- Defines the names of declarations. The line of a declaration that is refused goes with the fault. -/
def flatten (group : String) : List Declaration → Tables → Except (Nat × PropertiesFault) Tables
  | [], tables => .ok tables
  | first :: rest, tables => do
    let tables ← flattenOne group first tables
    flatten group rest tables

def flattenOne (group : String) : Declaration → Tables → Except (Nat × PropertiesFault) Tables
  | .mk name line body, tables => flattenBody (qualified group name) line body tables

def flattenBody (key : String) (line : Nat) : Body → Tables → Except (Nat × PropertiesFault) Tables
  | .block inner, tables => flatten key inner tables
  | .assignment expression, tables =>
    match evaluate tables.visible expression with
    | .ok value => .ok (tables.define key value)
    | .error fault => .error (line, fault)
  | .arguments [expression], tables =>
    match evaluate tables.visible expression with
    | .ok value => .ok (tables.define key value)
    | .error fault => .error (line, fault)
  | .arguments _, _ => .error (line, .notOneValue key)

end

/-- Reads the text of a properties file above a table. -/
def parse (text : String) (path : Path) (lower : Table) : Except CompileError Table :=
  let refuse (line : Option Nat) (fault : PropertiesFault) : CompileError :=
    (CompileError.inFile path (.propertiesParseError path fault)).atLine? line
  match Recipe.readDeclarations text with
  | .error error => .error (refuse error.line? (.unreadable error))
  | .ok declarations =>
    match flatten "" declarations ⟨lower, []⟩ with
    | .ok tables => .ok tables.defined
    | .error (line, fault) => .error (refuse (some line) fault)

end DeployRecipe.Properties
