import DeployRecipe.DottedName
import DeployRecipe.Value.Basic

/-!
The names that a recipe sees. Names are dotted, and a table holds the value of each name; layers of
tables lie above each other, and a higher layer replaces a name outright.
-/

namespace DeployRecipe

namespace Table

/-- Gives a name a value and drops the names within it, which it hides. -/
def overwrite (table : Table) (key : String) (value : Value) : Table :=
  Entries.insert (table.filter fun entry => !DottedName.isWithin entry.1 key) key value

/-- Overwrites names one after the other. -/
def overwriteAll (table entries : Table) : Table :=
  entries.foldl (fun table entry => table.overwrite entry.1 entry.2) table

/-- The value inside the mapping that the first `count` segments name. -/
def descendAfter? (table : Table) (segments : List String) (count : Nat) : Option Value :=
  match table.find? (DottedName.ofSegments (segments.take count)) with
  | some (.mapping entries) => Mapping.descend? entries (segments.drop count)
  | _ => none

/-- The mapping that the names within a name make up. -/
def gather? (table : Table) (key : String) : Option Value :=
  let parts := table.filterMap fun entry =>
    (DottedName.remainder? key entry.1).map fun remainder => (remainder, entry.2)
  if parts.isEmpty then none
  else
    some (.mapping (parts.foldl (fun mapping part =>
      Mapping.insertPath mapping (DottedName.segments part.1) part.2) []))

/-- The value of a name: its own, else one inside a mapping that a beginning of the name has, the longest
beginning first, else the mapping of the names within it. -/
def lookup? (table : Table) (key : String) : Option Value :=
  match table.find? key with
  | some value => some value
  | none =>
    let segments := DottedName.segments key
    let counts := (List.range (segments.length - 1)).reverse.map (· + 1)
    match counts.findSome? (descendAfter? table segments) with
    | some value => some value
    | none => table.gather? key

end Table

/-- Where a layer comes from, the lowest first. -/
inductive LayerSource where
  | defaults
  | inherited
  | propertiesFile
  | overrides
  | external
  | ambient
deriving DecidableEq, Repr

structure Layer where
  source : LayerSource
  values : Table

/-- Layers, the lowest first, and the table that they make up. -/
structure Environment where
  layers : List Layer
  merged : Table

namespace Environment

def empty : Environment := ⟨[], []⟩

/-- Adds a layer above all others. -/
def push (environment : Environment) (layer : Layer) : Environment :=
  ⟨environment.layers ++ [layer], environment.merged.overwriteAll layer.values⟩

/-- Adds a layer if there is one. -/
def push? (environment : Environment) (source : LayerSource) (values : Option Table) : Environment :=
  match values with
  | some values => environment.push ⟨source, values⟩
  | none => environment

/-- The value of a name. -/
def lookup? (environment : Environment) (key : String) : Option Value :=
  environment.merged.lookup? key

/-- The highest layer that has the name itself. -/
def sourceOf? (environment : Environment) (key : String) : Option LayerSource :=
  (environment.layers.reverse.find? fun layer => layer.values.has key).map Layer.source

/-- The table that the layers make up without the ambient ones; base recipes inherit it. -/
def inheritable (environment : Environment) : Table :=
  (environment.layers.filter fun layer => layer.source ≠ .ambient).foldl
    (fun table layer => table.overwriteAll layer.values) []

end Environment

end DeployRecipe
