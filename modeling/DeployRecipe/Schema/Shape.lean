import DeployRecipe.Value.Basic

/-!
Shapes of values: what a property may hold. A record has a layout, a list of fields with a shape and a
value that stands where the field is not given.
-/

namespace DeployRecipe

/-- A range of whole numbers that a property may hold, with its name in messages. -/
structure IntRange where
  name : String
  least : Int
  greatest : Int
deriving DecidableEq, Repr

namespace IntRange

def unsigned32 : IntRange := ⟨"u32", 0, Nat.pow 2 32 - 1⟩

def unsigned64 : IntRange := ⟨"u64", 0, Nat.pow 2 64 - 1⟩

def signed32 : IntRange := ⟨"i32", -(Nat.pow 2 31 : Int), Nat.pow 2 31 - 1⟩

def contains (range : IntRange) (number : Int) : Bool :=
  range.least ≤ number ∧ number ≤ range.greatest

end IntRange

/-- A member of an enumeration: the name under which it is kept, and every name that is read as it. -/
structure Choice where
  name : String
  spellings : List String
deriving DecidableEq, Repr

mutual

/-- What a property may hold. -/
inductive Shape where
  /-- Any value. -/
  | any
  | text
  | bool
  | int (range : IntRange)
  | double
  /-- Null or a value of the inner shape. -/
  | optional (inner : Shape)
  | list (inner : Shape)
  /-- A mapping with text keys. -/
  | map (inner : Shape)
  | choice (choices : List Choice)
  /-- A mapping with the fields of the layout. Other fields are refused if the record is closed. -/
  | record (title : String) (closed : Bool) (layout : Layout)
  /-- A command: a text, a list of texts or a mapping from texts to texts. -/
  | executable
  /-- A gauge or a chart of a metric. -/
  | widget

/-- The fields of a record in order. -/
inductive Layout where
  | nil
  | field (name : String) (shape : Shape) (absent : Value) (rest : Layout)

end

instance : Inhabited Shape := ⟨.any⟩

namespace Layout

/-- The layout with the given fields. -/
def ofList : List (String × Shape × Value) → Layout
  | [] => .nil
  | (name, shape, absent) :: rest => .field name shape absent (ofList rest)

/-- The names of the fields in order. -/
def names : Layout → List String
  | .nil => []
  | .field name _ _ rest => name :: rest.names

/-- The values of the fields where none is given. -/
def defaults : Layout → Table
  | .nil => []
  | .field name _ absent rest => (name, absent) :: rest.defaults

/-- The fields with the values found for them. -/
def fill (found : Table) : Layout → Table
  | .nil => []
  | .field name _ absent rest => (name, (found.find? name).getD absent) :: rest.fill found

end Layout

namespace Shape

/-- The layout of a record. -/
def layout : Shape → Layout
  | .record _ _ layout => layout
  | _ => .nil

end Shape

end DeployRecipe
