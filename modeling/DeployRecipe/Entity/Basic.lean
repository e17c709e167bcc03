import DeployRecipe.Entity.Kind
import DeployRecipe.Schema.Decode

/-!
Entities: a kind with a value for each of its properties, in the order of the kind's record. Assigning a
property reads the whole entity again by the shape of its kind.
-/

namespace DeployRecipe

/-- A compiled entity, or one that is being compiled. -/
structure Entity where
  kind : EntityKind
  properties : Table

/-- Why a property cannot be assigned. -/
inductive PropertyError where
  /-- There is no such property, or recipes may not assign it. -/
  | unknown
  /-- The value does not have the shape of the property. -/
  | coercion (error : DecodeError)

namespace Entity

/-- The table that a mapping with text keys stands for. -/
def tableOf : Value → Table
  | .mapping entries =>
    entries.filterMap fun
      | (.text name, value) => some (name, value)
      | _ => none
  | _ => []

/-- The entity with every property at its default. -/
def fresh (kind : EntityKind) : Entity :=
  ⟨kind, kind.shape.layout.defaults⟩

/-- The entity that a value stands for. -/
def ofValue (kind : EntityKind) (value : Value) : Except DecodeError Entity :=
  (kind.shape.decode value).map fun kept => ⟨kind, tableOf kept⟩

/-- The entity as a mapping of its properties. -/
def toValue (entity : Entity) : Value :=
  Value.ofTable entity.properties

/-- The value of a property. -/
def property? (entity : Entity) (name : String) : Option Value :=
  entity.properties.find? name

/-- The value of a property, null if there is no such property. -/
def property (entity : Entity) (name : String) : Value :=
  (entity.property? name).getD .null

/-- The name under which an application takes one more service. -/
def serviceSlot : String := "service"

/-- The names that recipes may assign, in order. -/
def writableProperties (entity : Entity) : List String :=
  let names := entity.properties.keys.filter fun name => !entity.kind.readOnly.contains name
  if entity.kind = .application then names ++ [serviceSlot] else names

def isWritable (entity : Entity) (name : String) : Bool :=
  entity.writableProperties.contains name

/-- Puts a service at the end of an application's services. -/
def appendService (entity : Entity) (service : Value) : Entity :=
  let services :=
    match entity.property "services" with
    | .sequence items => items
    | _ => []
  { entity with properties := entity.properties.insert "services" (.sequence (services ++ [service])) }

/-- Assigns a property. To assign an application's `service` is to append to its services. -/
def setProperty (entity : Entity) (name : String) (value : Value) : Except PropertyError Entity :=
  if entity.kind = .application ∧ name = serviceSlot then
    match Schema.service.decode value with
    | .ok service => .ok (entity.appendService service)
    | .error error => .error (.coercion error)
  else if entity.kind.readOnly.contains name then .error .unknown
  else if entity.properties.has name then
    match ofValue entity.kind (Value.ofTable (entity.properties.insert name value)) with
    | .ok changed => .ok changed
    | .error error => .error (.coercion error)
  else .error .unknown

/-- The `name` property, if it is set. -/
def name? (entity : Entity) : Option String :=
  match entity.property? "name" with
  | some (.text name) => some name
  | _ => none

/-- The property of a service with the paths of the bases that it extends, the nearest first. -/
def lineageSlot : String := "extendedServicesPaths"

/-- The paths of the bases that a service extends, the nearest first. -/
def lineage (entity : Entity) : List String :=
  if entity.kind = .service then
    match entity.property lineageSlot with
    | .sequence items =>
      items.filterMap fun
        | .text path => some path
        | _ => none
    | _ => []
  else []

/-- The service with one more base in front of its lineage. -/
def addBase (entity : Entity) (base : String) : Entity :=
  let paths := .text base :: entity.lineage.map Value.text
  { entity with properties := entity.properties.insert lineageSlot (.sequence paths) }

/-- The entity in an element of a widget group: a gauge has no axis. -/
def ofWidget (value : Value) : Entity :=
  if (tableOf value).has "axisYUnit" then ⟨.barLineChart, tableOf value⟩
  else ⟨.balanceGauge, tableOf value⟩

/-- The entities that a value of a property holds. -/
def nested (nesting : EntityKind.Nesting) (value : Value) : List Entity :=
  match nesting, value with
  | .one _, .null => []
  | .one kind, value => [⟨kind, tableOf value⟩]
  | .many kind, .sequence items => items.map fun item => ⟨kind, tableOf item⟩
  | .many kind, .mapping entries => entries.map fun entry => ⟨kind, tableOf entry.2⟩
  | .widgets, .sequence items => items.map ofWidget
  | _, _ => []

/-- The entities directly inside an entity, in the order of its properties. -/
def children (entity : Entity) : List Entity :=
  entity.kind.nestings.flatMap fun slot => nested slot.2 (entity.property slot.1)

theorem height_ofWidget (value : Value) : (ofWidget value).kind.height = 0 := by
  unfold ofWidget
  split <;> rfl

theorem height_of_mem_nested {nesting : EntityKind.Nesting} {value : Value} {child : Entity}
    (member : child ∈ nested nesting value) : child.kind.height = nesting.height := by
  unfold nested at member
  split at member
  · simp at member
  · rw [List.mem_singleton.mp member]
    rfl
  · obtain ⟨_, _, rfl⟩ := List.mem_map.mp member
    rfl
  · obtain ⟨_, _, rfl⟩ := List.mem_map.mp member
    rfl
  · obtain ⟨item, _, rfl⟩ := List.mem_map.mp member
    exact height_ofWidget item
  · simp at member

/-- Entities nest only entities of a lower kind. -/
theorem height_of_mem_children {entity child : Entity} (member : child ∈ entity.children) :
    child.kind.height < entity.kind.height := by
  obtain ⟨⟨name, nesting⟩, slot, inner⟩ := List.mem_flatMap.mp member
  rw [height_of_mem_nested inner]
  exact EntityKind.height_of_mem_nestings slot

end Entity

end DeployRecipe
