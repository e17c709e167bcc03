import DeployRecipe.DottedName
import DeployRecipe.Entity.Basic
import DeployRecipe.Error
import DeployRecipe.Value.Text

/-!
Giving values to the properties of an entity as a recipe does. A property is given a value at most once
in a block, also under a dotted name; only an application takes any number of services.
-/

namespace DeployRecipe

/-- The names that were given a value in a block. -/
abbrev UsedNames := List String

namespace UsedNames

/-- The name or one that it is within, or one within it, was given a value. -/
def covers (used : UsedNames) (path : String) : Bool :=
  used.any fun name =>
    decide (name = path) || DottedName.isWithin path name || DottedName.isWithin name path

/-- Adds a name. -/
def add (used : UsedNames) (name : String) : UsedNames :=
  if used.contains name then used else used ++ [name]

end UsedNames

namespace Value

def isScalar : Value → Bool
  | .text _ => true
  | .int _ => true
  | .float _ => true
  | .bool _ => true
  | _ => false

def isSequence : Value → Bool
  | .sequence _ => true
  | _ => false

/-- Numbers and truth values as texts. -/
def asText? (value : Value) : Option Value :=
  match value with
  | .int _ | .float _ | .bool _ => some (.text value.toText)
  | _ => none

end Value

namespace Mapping

/-- Gives any key a value; a key that is present keeps its place. -/
def insertKey (mapping : Mapping) (key value : Value) : Mapping :=
  match mapping with
  | [] => [(key, value)]
  | (present, old) :: rest =>
    if present.same key then (present, value) :: rest else (present, old) :: insertKey rest key value

/-- Inserts the entries of another mapping. -/
def merge (mapping more : Mapping) : Mapping :=
  more.foldl (fun mapping entry => mapping.insertKey entry.1 entry.2) mapping

end Mapping

namespace Entity

/-- A value as the current value of its property asks for it: a scalar for a list is wrapped, a list of
one for a scalar is unwrapped, and a mapping is merged into one that has entries. -/
def shaped (current value : Value) : Value :=
  match current, value with
  | .sequence _, value => if value.isScalar then .sequence [value] else value
  | .mapping (first :: rest), .mapping entries => .mapping (Mapping.merge (first :: rest) entries)
  | current, .sequence [only] => if current.isScalar then only else .sequence [only]
  | _, value => value

/-- What is tried in place of a value that does not have the shape of its property: the only item of a
list, numbers and truth values as texts, also inside a mapping. -/
def fallbacks (current value : Value) : List Value :=
  match value with
  | .sequence [only] =>
    if current.isSequence then [] else only :: only.asText?.toList
  | .mapping entries =>
    if entries.any fun (_, content) => content.asText?.isSome then
      [.mapping (entries.map fun (key, content) => (key, content.asText?.getD content))]
    else []
  | value => value.asText?.toList

/-- Gives a property a value, after the coercions that recipes enjoy. -/
def setCoerced (entity : Entity) (name : String) (value : Value) : Except ErrorKind Entity :=
  let current := entity.property name
  let value := shaped current value
  match entity.setProperty name value with
  | .ok changed => .ok changed
  | .error .unknown => .error (.unknownProperty entity.kind name)
  | .error (.coercion error) =>
    let attempts := (fallbacks current value).filterMap fun candidate =>
      (entity.setProperty name candidate).toOption
    match attempts with
    | changed :: _ => .ok changed
    | [] => .error (.typeCoercionFailure entity.kind name (.wrongShape error))

/-- The one value that arguments stand for. -/
def single (kind : EntityKind) (name : String) (arguments : List Value) : Except ErrorKind Value :=
  match arguments with
  | [] => .ok .null
  | [value] => .ok value
  | _ => .error (.typeCoercionFailure kind name (.manyValues arguments.length))

/-- Gives a property a value in a block. -/
def bind (entity : Entity) (used : UsedNames) (name : String) (arguments : List Value) :
    Except ErrorKind (Entity × UsedNames) := do
  let value ← single entity.kind name arguments
  if !entity.isWritable name then throw (.unknownProperty entity.kind name)
  if used.covers name then throw (.duplicateProperty name)
  let changed ← entity.setCoerced name value
  pure (changed, used.add name)

/-- Replaces a property by a finished value. -/
def replace (entity : Entity) (name : String) (value : Value) : Except ErrorKind Entity :=
  match entity.setProperty name value with
  | .ok changed => .ok changed
  | .error .unknown => .error (.unknownProperty entity.kind name)
  | .error (.coercion error) => .error (.typeCoercionFailure entity.kind name (.wrongShape error))

/-- An application takes any number of services. -/
def isRepeatable (parent child : EntityKind) : Bool :=
  parent = .application && child = .service

/-- Puts a finished block into its parent. -/
def bindEntity (parent : Entity) (used : UsedNames) (child : Entity) :
    Except ErrorKind (Entity × UsedNames) := do
  let name := child.kind.elementName
  let repeatable := isRepeatable parent.kind child.kind
  if !repeatable && !parent.isWritable name then throw (.unknownProperty parent.kind name)
  if used.contains name && !repeatable then throw (.duplicateProperty name)
  let changed ← parent.replace name child.toValue
  pure (changed, used.add name)

/-- Gives a value to a path. A segment that names a block opens that block, other segments name keys of a
map. -/
def assignPath (entity : Entity) (path : List String) (value : Value) : Except ErrorKind Entity :=
  match path with
  | [] => .ok entity
  | [last] => do
    if !entity.isWritable last then throw (.unknownProperty entity.kind last)
    entity.setCoerced last value
  | head :: rest => do
    if !entity.isWritable head then throw (.unknownProperty entity.kind head)
    let current := entity.property head
    match Registry.describe? head with
    | some descriptor =>
      match descriptor.checkPlacement (some entity.kind) with
      | .error reason => throw (.illegalNestingOrRoot head reason)
      | .ok () =>
        let child ←
          match current with
          | .null => pure (fresh descriptor.kind)
          | current =>
            match ofValue descriptor.kind current with
            | .ok child => pure child
            | .error error => throw (.typeCoercionFailure entity.kind head (.wrongShape error))
        let child ← child.assignPath rest value
        entity.replace head child.toValue
    | none => entity.setCoerced head (.mapping (Mapping.insertPath [] rest value))

/-- Gives a value to a dotted name in a block. -/
def bindPath (entity : Entity) (used : UsedNames) (path : String) (arguments : List Value) :
    Except ErrorKind (Entity × UsedNames) := do
  let value ← single entity.kind path arguments
  if used.covers path then throw (.duplicateProperty path)
  let changed ← entity.assignPath (DottedName.segments path) value
  pure (changed, used.add path)

end Entity

end DeployRecipe
