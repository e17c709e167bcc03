import DeployRecipe.Proofs.Entity.Binding

/-!
The processing units of a service, and the services of an entity: only a service itself and the services of an
application are services that an entity holds.
-/

namespace DeployRecipe

/-- The names of the blocks that exclude each other in a service. -/
def unitNames : List String :=
  (Registry.familyMembers BlockFamily.processingUnit.name).map Descriptor.elementName

example : unitNames = ["lifecycle", "statelessProcessingUnit", "statefulProcessingUnit", "mirrorProcessingUnit",
    "dataGrid", "memcached"] := by decide

def Value.isNull : Value → Bool
  | .null => true
  | _ => false

theorem Value.isNull_iff {value : Value} : value.isNull = true ↔ value = .null := by
  cases value <;> simp [isNull]

namespace Entity

/-- The processing units that are set. -/
def units (entity : Entity) : List String :=
  unitNames.filter fun name => !(entity.property name).isNull

theorem mem_units {entity : Entity} {name : String} :
    name ∈ entity.units ↔ name ∈ unitNames ∧ (entity.property name).isNull = false := by
  simp [units]

/-- Units that are all the same are one at most. -/
theorem length_units_le_one {entity : Entity}
    (same : ∀ name ∈ entity.units, ∀ other ∈ entity.units, name = other) : entity.units.length ≤ 1 := by
  have distinct : entity.units.Nodup := List.Nodup.filter _ (by decide)
  match units : entity.units with
  | [] => simp
  | [_] => simp
  | first :: second :: rest =>
    rw [units] at same distinct
    have equal := same first List.mem_cons_self second (List.mem_cons_of_mem _ List.mem_cons_self)
    subst equal
    simp at distinct

theorem units_eq {entity : Entity} (most : entity.units.length ≤ 1) {unit other : String}
    (member : unit ∈ entity.units) (member' : other ∈ entity.units) : unit = other := by
  match units : entity.units with
  | [] =>
    rw [units] at member
    cases member
  | [only] =>
    rw [units] at member member'
    exact (List.mem_singleton.mp member).trans (List.mem_singleton.mp member').symm
  | _ :: _ :: _ =>
    rw [units] at most
    simp at most

theorem units_fresh (kind : EntityKind) : (fresh kind).units = [] := by
  cases kind <;> decide

/-- An assignment adds at most the unit that it assigns. -/
theorem Assigns.units {entity changed : Entity} {name : String} (assigns : entity.Assigns name changed)
    {unit : String} (member : unit ∈ changed.units) : unit ∈ entity.units ∨ unit = entity.kind.target name := by
  by_cases same : unit = entity.kind.target name
  · exact Or.inr same
  · left
    rw [mem_units] at member ⊢
    rwa [property, ← assigns.others unit same]

/-- A dotted name adds the unit that it begins with. -/
theorem units_of_assignPath {entity changed : Entity} (kept : entity.Kept) {name : String} {value : Value}
    (assigned : entity.assignPath (DottedName.segments name) value = .ok changed) {unit other : String}
    (member : unit ∈ changed.units) (new : unit ∉ entity.units) (member' : other ∈ changed.units)
    (new' : other ∉ entity.units) : unit = other := by
  obtain ⟨_, set⟩ := assignPath_segments_sets assigned
  have assigns := setProperty_assigns kept set
  exact ((assigns.units member).resolve_left new).trans ((assigns.units member').resolve_left new').symm

/-- An entity that another one holds, at any depth. -/
inductive Holds : Entity → Entity → Prop
  | self (entity : Entity) : Holds entity entity
  | inner {entity child held : Entity} (member : child ∈ entity.children) (holds : Holds child held) :
    Holds entity held

theorem Holds.eq_or_height_lt {entity held : Entity} (holds : entity.Holds held) :
    held = entity ∨ held.kind.height < entity.kind.height := by
  induction holds with
  | self => exact Or.inl rfl
  | inner member _ inductionHypothesis =>
    have lower := height_of_mem_children member
    rcases inductionHypothesis with rfl | deeper
    · exact Or.inr lower
    · exact Or.inr (Nat.lt_trans deeper lower)

/-- A service that an entity holds is the entity itself, or one of the services of an application. -/
theorem Holds.of_service {entity service : Entity} (holds : entity.Holds service)
    (kind : service.kind = .service) :
    service = entity ∨ entity.kind = .application ∧ service ∈ entity.children := by
  cases holds with
  | self => exact Or.inl rfl
  | inner member holds =>
    right
    rename_i child
    have lower := height_of_mem_children member
    have height : service.kind.height = 3 := by rw [kind]; rfl
    have highest (other : EntityKind) (high : 3 < other.height) : other = .application ∧ other.height = 4 := by
      cases other <;> first | exact ⟨rfl, rfl⟩ | (exact absurd high (by decide))
    rcases holds.eq_or_height_lt with rfl | deeper
    · exact ⟨(highest _ (height ▸ lower)).1, member⟩
    · have root := highest entity.kind (by omega)
      omega

/-- The services of an application are what its list holds. -/
theorem children_application {entity : Entity} (application : entity.kind = .application) {items : List Value}
    (services : entity.property? "services" = some (.sequence items)) :
    entity.children = items.map fun item => ⟨.service, tableOf item⟩ := by
  simp [children, application, EntityKind.nestings, nested, property, services]

end Entity

end DeployRecipe
