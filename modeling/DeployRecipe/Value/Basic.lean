import DeployRecipe.Entries
import DeployRecipe.Number.Double

/-!
Values as data formats know them: scalars, sequences, mappings in the order of insertion, and values
that carry a tag.
-/

namespace DeployRecipe

inductive Value where
  | null
  | bool (value : Bool)
  /-- A whole number from `-2 ^ 63` up to `2 ^ 64 - 1`. -/
  | int (value : Int)
  | float (value : Double)
  | text (value : String)
  | sequence (items : List Value)
  | mapping (entries : List (Value × Value))
  | tagged (tag : String) (value : Value)

namespace Value

instance : Inhabited Value := ⟨.null⟩

mutual

/-- Equality of values. Numbers that are no number are equal to each other, the two floating zeros too,
and the order of a mapping does not count. -/
def same : Value → Value → Bool
  | .null, .null => true
  | .bool left, .bool right => left = right
  | .int left, .int right => left = right
  | .float left, .float right => left.same right
  | .text left, .text right => left = right
  | .sequence left, .sequence right => sameItems left right
  | .mapping left, .mapping right => left.length = right.length && sameEntries left right
  | .tagged tag left, .tagged other right => tag = other && same left right
  | _, _ => false

def sameItems : List Value → List Value → Bool
  | [], [] => true
  | left :: lefts, right :: rights => same left right && sameItems lefts rights
  | _, _ => false

/-- Every entry of the first list is in the second one. -/
def sameEntries : List (Value × Value) → List (Value × Value) → Bool
  | [], _ => true
  | (key, value) :: rest, others =>
    others.any (fun entry => same key entry.1 && same value entry.2) && sameEntries rest others

end

end Value

/-- The entries of a mapping. -/
abbrev Mapping := List (Value × Value)

namespace Mapping

/-- The value of a text key. -/
def find? (mapping : Mapping) (key : String) : Option Value :=
  match mapping with
  | [] => none
  | (.text present, value) :: rest => if present = key then some value else find? rest key
  | _ :: rest => find? rest key

/-- Gives a text key a value; a key that is present keeps its place, a new one comes last. -/
def insert (mapping : Mapping) (key : String) (value : Value) : Mapping :=
  match mapping with
  | [] => [(.text key, value)]
  | (.text present, old) :: rest =>
    if present = key then (.text present, value) :: rest
    else (.text present, old) :: insert rest key value
  | entry :: rest => entry :: insert rest key value

/-- Some entry has a key that is the same value. -/
def hasKey (mapping : Mapping) (key : Value) : Bool :=
  mapping.any fun entry => key.same entry.1

/-- The entries of a mapping, or none of a value that is no mapping. -/
def ofValue : Value → Mapping
  | .mapping entries => entries
  | _ => []

/-- Descends a path of text keys, through mappings only. The empty path leads nowhere. -/
def descend? (mapping : Mapping) : List String → Option Value
  | [] => none
  | [last] => mapping.find? last
  | first :: rest =>
    match mapping.find? first with
    | some (.mapping inner) => descend? inner rest
    | _ => none

/-- Sets the value at a path of text keys. A value on the way that is no mapping gives way to one. -/
def insertPath (mapping : Mapping) : List String → Value → Mapping
  | [], _ => mapping
  | [last], value => mapping.insert last value
  | first :: rest, value =>
    let inner := ofValue ((mapping.find? first).getD .null)
    mapping.insert first (.mapping (insertPath inner rest value))

end Mapping

/-- A table from names to values, in the order of insertion. -/
abbrev Table := Entries String Value

namespace Value

/-- The table as a mapping with text keys. -/
def ofTable (table : Table) : Value :=
  .mapping (table.map fun (key, value) => (.text key, value))

end Value

end DeployRecipe
