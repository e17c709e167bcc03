import DeployRecipe.Proofs.Entity.Services

/-!
The properties that recipes may not assign: the upload directory of a template and the lineage of a service. No
assignment to a property of the entity itself changes them, so only an assignment of the whole list of services
or of the whole table of templates can.
-/

namespace DeployRecipe

namespace EntityKind

/-- The kinds of the entities that a property holds. -/
def Nesting.kinds : Nesting → List EntityKind
  | .one kind | .many kind => [kind]
  | .widgets => [.balanceGauge, .barLineChart]

/-- The property with the entities that have properties which recipes may not assign. -/
def guardedSlot? : EntityKind → Option (String × EntityKind)
  | .application => some ("services", .service)
  | .cloud => some ("templates", .cloudTemplate)
  | _ => none

/-- A name that assigns such a property as a whole, or into it. -/
def AssignsGuarded (kind : EntityKind) (name : String) : Prop :=
  kind = .application ∧ name ∈ ["services", Entity.serviceSlot] ∨
    kind = .cloud ∧ DottedName.head name = "templates"

instance (kind : EntityKind) (name : String) : Decidable (kind.AssignsGuarded name) :=
  inferInstanceAs (Decidable (_ ∨ _))

/-- Only applications and clouds hold entities with properties that recipes may not assign. -/
theorem readOnly_of_mem_nestings {kind inner : EntityKind} {name : String} {nesting : Nesting}
    (slot : (name, nesting) ∈ kind.nestings) (member : inner ∈ nesting.kinds) :
    inner.guardedSlot? = none ∧
      (inner.readOnly = [] ∨ kind.guardedSlot? = some (name, inner) ∧ nesting = .many inner) := by
  have all : ∀ slot ∈ kind.nestings, ∀ inner ∈ slot.2.kinds, inner.guardedSlot? = none ∧
      (inner.readOnly = [] ∨ kind.guardedSlot? = some (slot.1, inner) ∧ slot.2 = .many inner) := by
    cases kind <;> decide
  exact all _ slot inner member

end EntityKind

namespace Entity

/-- The property of a template with its upload directory. -/
def uploadSlot : String := "absoluteUploadDir"

/-- What recipes may not assign is as they find it, but for the bases that a service extends. -/
structure Pristine (bases : List String) (entity : Entity) : Prop where
  upload : entity.kind = .cloudTemplate → entity.property uploadSlot = .null
  lineage : ∀ base ∈ entity.lineage, base ∈ bases

/-- What recipes may not assign is so in all entities that one holds. -/
def Honest (bases : List String) (entity : Entity) : Prop :=
  ∀ held, entity.Holds held → held.Pristine bases

/-- The entities in the property for those that have properties which recipes may not assign. -/
def guarded (entity : Entity) : List Entity :=
  match entity.kind.guardedSlot? with
  | some (name, kind) => nested (.many kind) (entity.property name)
  | none => []

variable {bases : List String} {entity changed child held : Entity}

theorem kind_of_mem_nested {nesting : EntityKind.Nesting} {value : Value} (member : child ∈ nested nesting value) :
    child.kind ∈ nesting.kinds := by
  unfold nested at member
  split at member
  · cases member
  · obtain rfl := List.mem_singleton.mp member
    exact List.mem_singleton_self _
  · obtain ⟨_, _, rfl⟩ := List.mem_map.mp member
    exact List.mem_singleton_self _
  · obtain ⟨_, _, rfl⟩ := List.mem_map.mp member
    exact List.mem_singleton_self _
  · obtain ⟨item, _, rfl⟩ := List.mem_map.mp member
    rw [ofWidget]
    split <;> simp [EntityKind.Nesting.kinds]
  · cases member

theorem pristine_of_free (free : entity.kind.readOnly = []) : entity.Pristine bases := by
  refine ⟨fun template => ?_, fun base member => ?_⟩
  · rw [template] at free
    cases free
  · rw [lineage] at member
    split at member
    · rename_i service
      rw [service] at free
      cases free
    · cases member

theorem mem_guarded_of_mem_children (member : child ∈ entity.children) :
    child.kind.guardedSlot? = none ∧ (child.kind.readOnly = [] ∨ child ∈ entity.guarded) := by
  obtain ⟨⟨name, nesting⟩, slot, inner⟩ := List.mem_flatMap.mp member
  obtain ⟨none, free | ⟨found, rfl⟩⟩ := EntityKind.readOnly_of_mem_nestings slot (kind_of_mem_nested inner)
  · exact ⟨none, Or.inl free⟩
  · refine ⟨none, Or.inr ?_⟩
    rw [guarded, found]
    exact inner

theorem mem_children_of_mem_guarded (member : child ∈ entity.guarded) : child ∈ entity.children := by
  have slots : ∀ slot ∈ entity.kind.guardedSlot?, (slot.1, .many slot.2) ∈ entity.kind.nestings := by
    cases entity.kind <;> decide
  rw [guarded] at member
  split at member
  · rename_i name kind found
    exact List.mem_flatMap.mpr ⟨_, slots _ found, member⟩
  · cases member

/-- An entity that is no application and no cloud holds no other entity with properties that recipes may not
assign. -/
theorem Holds.eq_or_free (holds : entity.Holds held) (plain : entity.kind.guardedSlot? = none) :
    held = entity ∨ held.kind.readOnly = [] := by
  induction holds with
  | self => exact Or.inl rfl
  | inner member _ inductionHypothesis =>
    right
    obtain ⟨none, free | guarded⟩ := mem_guarded_of_mem_children member
    · rcases inductionHypothesis none with rfl | deeper
      · exact free
      · exact deeper
    · rw [Entity.guarded, plain] at guarded
      cases guarded

theorem honest_iff : entity.Honest bases ↔ entity.Pristine bases ∧ ∀ child ∈ entity.guarded, child.Pristine bases := by
  constructor
  · intro honest
    exact ⟨honest _ (.self _), fun child member => honest _ (.inner (mem_children_of_mem_guarded member) (.self _))⟩
  · rintro ⟨own, inner⟩ held holds
    cases holds with
    | self => exact own
    | inner member holds =>
      obtain ⟨none, either⟩ := mem_guarded_of_mem_children member
      rcases holds.eq_or_free none with rfl | free
      · exact either.elim pristine_of_free (inner _)
      · exact pristine_of_free free

instance : Decidable (entity.Pristine bases) :=
  decidable_of_iff ((entity.kind = .cloudTemplate → (entity.property uploadSlot).isNull = true) ∧
      ∀ base ∈ entity.lineage, base ∈ bases) (by
    simp only [Value.isNull_iff]
    exact ⟨fun both => ⟨both.1, both.2⟩, fun pristine => ⟨pristine.upload, pristine.lineage⟩⟩)

instance : Decidable (entity.Honest bases) :=
  decidable_of_iff _ honest_iff.symm

theorem honest_of_free (free : entity.kind.readOnly = []) (plain : entity.kind.guardedSlot? = none) :
    entity.Honest bases := by
  refine honest_iff.mpr ⟨pristine_of_free free, fun child member => ?_⟩
  rw [guarded, plain] at member
  cases member

theorem honest_fresh (bases : List String) (kind : EntityKind) : (fresh kind).Honest bases := by
  refine honest_iff.mpr ⟨⟨?_, ?_⟩, ?_⟩
  · rintro rfl
    rfl
  · rw [show (fresh kind).lineage = [] by cases kind <;> rfl]
    simp
  · rw [show (fresh kind).guarded = [] by cases kind <;> rfl]
    simp

section Assigned

variable (kept : entity.Kept)
include kept

/-- No assignment changes a property that recipes may not assign. -/
theorem property?_of_readOnly {name slot : String} {value : Value}
    (set : entity.setProperty name value = .ok changed) (readOnly : slot ∈ entity.kind.readOnly) :
    changed.property? slot = entity.property? slot := by
  refine (setProperty_assigns kept set).others slot ?_
  rcases setProperty_eq_ok kept set with ⟨shape, _, field, _⟩ | ⟨_, application, _⟩
  · rw [EntityKind.target_of_writable field]
    rintro rfl
    exact (EntityKind.writable?_eq_some.mp field).1 readOnly
  · rw [application] at readOnly
    cases readOnly

theorem Pristine.set (pristine : entity.Pristine bases) {name : String} {value : Value}
    (set : entity.setProperty name value = .ok changed) : changed.Pristine bases := by
  have kind := setProperty_kind set
  have same {slot : String} (readOnly : slot ∈ entity.kind.readOnly) : changed.property slot = entity.property slot := by
    rw [property, property, property?_of_readOnly kept set readOnly]
  refine ⟨fun template => ?_, ?_⟩
  · rw [kind] at template
    rw [same (by rw [template]; decide)]
    exact pristine.upload template
  · by_cases service : entity.kind = .service
    · rw [Entity.lineage, kind, if_pos service, same (by rw [service]; decide)]
      have own := pristine.lineage
      rw [Entity.lineage, if_pos service] at own
      exact own
    · rw [Entity.lineage, kind, if_neg service]
      simp

/-- What is assigned beside the entities that have properties which recipes may not assign. -/
theorem Honest.set (honest : entity.Honest bases) {name : String} {value : Value}
    (set : entity.setProperty name value = .ok changed)
    (aside : ∀ slot ∈ entity.kind.guardedSlot?, entity.kind.target name ≠ slot.1) : changed.Honest bases := by
  obtain ⟨own, inner⟩ := honest_iff.mp honest
  refine honest_iff.mpr ⟨own.set kept set, ?_⟩
  have kind := setProperty_kind set
  suffices same : changed.guarded = entity.guarded by rwa [same]
  rw [guarded, guarded, kind]
  split
  · rename_i slot inner found
    have others := (setProperty_assigns kept set).others slot (aside _ found).symm
    rw [property, property, others]
  · rfl

omit kept in
/-- One more service of an application. -/
theorem Honest.appendService (honest : entity.Honest bases) {service : Entity} (pristine : service.Pristine bases)
    (application : entity.kind = .application) (kind : changed.kind = .application)
    (children : changed.children = entity.children ++ [service]) : changed.Honest bases := by
  have all {entity : Entity} (application : entity.kind = .application) : entity.guarded = entity.children := by
    simp [guarded, Entity.children, application, EntityKind.guardedSlot?, EntityKind.nestings]
  obtain ⟨_, inner⟩ := honest_iff.mp honest
  refine honest_iff.mpr ⟨pristine_of_free (by rw [kind]; rfl), ?_⟩
  rw [all kind, children, ← all application]
  simp only [List.forall_mem_append, List.forall_mem_singleton]
  exact ⟨inner, pristine⟩

omit kept in
theorem lineage_addBase (service : entity.kind = .service) (base : String) :
    (entity.addBase base).lineage = base :: entity.lineage := by
  have kind : (entity.addBase base).kind = .service := service
  have found : (entity.addBase base).property lineageSlot =
      .sequence (.text base :: entity.lineage.map Value.text) := by
    rw [property, addBase, property?, Entries.find?_insert_self, Option.getD_some]
  rw [lineage, if_pos kind, found]
  simp [List.filterMap_map]

omit kept in
/-- A service with one more base that is allowed. -/
theorem Honest.addBase (honest : entity.Honest bases) (service : entity.kind = .service) {base : String}
    (listed : base ∈ bases) : (entity.addBase base).Honest bases := by
  refine honest_iff.mpr ⟨⟨fun template => ?_, ?_⟩, ?_⟩
  · cases service.symm.trans template
  · rw [lineage_addBase service]
    exact List.forall_mem_cons.mpr ⟨listed, (honest _ (.self _)).lineage⟩
  · rw [guarded, show (entity.addBase base).kind = .service from service]
    simp [EntityKind.guardedSlot?]

/-- A finished block in its parent. -/
theorem Honest.bindEntity (honest : entity.Honest bases) (inner : child.Honest bases) (whole : child.Kept)
    (set : entity.setProperty child.kind.elementName child.toValue = .ok changed) : changed.Honest bases := by
  by_cases application : entity.kind = .application
  · have service := kind_of_setApplication kept application set
    rw [service] at set
    exact honest.appendService (inner _ (.self _)) application ((setProperty_kind set).trans application)
      (children_of_setService kept application whole service set)
  · refine honest.set kept set fun slot member => ?_
    rw [EntityKind.target, if_neg (fun both => application both.1)]
    have names : ∀ slot ∈ entity.kind.guardedSlot?, slot.1 ∈ ["services", "templates"] := by
      cases entity.kind <;> decide
    have elements : child.kind.elementName ∉ ["services", "templates"] := by
      cases child.kind <;> decide
    exact fun same => elements (same ▸ names slot member)

/-- A name that is given a value, if it does not assign the entities that have properties which recipes may not
assign, or assigns them well. -/
theorem Honest.assignPath (honest : entity.Honest bases) {name : String} {value : Value}
    (assigned : entity.assignPath (DottedName.segments name) value = .ok changed)
    (well : entity.kind.AssignsGuarded name → changed.Honest bases) : changed.Honest bases := by
  obtain ⟨_, set⟩ := assignPath_segments_sets assigned
  by_cases aside : ∀ slot ∈ entity.kind.guardedSlot?, entity.kind.target (DottedName.head name) ≠ slot.1
  · exact honest.set kept set aside
  · simp only [not_forall, not_not] at aside
    obtain ⟨⟨slot, kind⟩, found, target⟩ := aside
    cases kind' : entity.kind <;> rw [kind'] at found target <;> cases found
    · -- An application, whose only dotted names begin in a new service.
      rcases DottedName.segments_cases name with ⟨single, whole⟩ | ⟨next, rest, segments⟩
      · refine well (Or.inl ⟨kind', ?_⟩)
        rw [EntityKind.target, whole] at target
        split at target
        · rename_i both
          exact List.mem_cons_of_mem _ (List.mem_singleton.mpr both.2)
        · exact target ▸ List.mem_cons_self
      · rw [segments] at assigned
        rw [EntityKind.target] at target
        split at target
        · rename_i both
          rw [both.2] at assigned
          obtain ⟨service, made, children⟩ := children_of_assignPath kept kind' assigned
          obtain ⟨_, set'⟩ := assignPath_sets made
          have pristine := ((honest_fresh bases .service) _ (.self _)).set (kept_fresh _) set'
          exact honest.appendService pristine kind' ((setProperty_kind set).trans kind') children
        · rw [target] at assigned
          exact absurd assigned (assignPath_services_ne kept kind')
    · exact well (Or.inr ⟨kind', target⟩)

/-- No property that is named like a template holds one. -/
theorem property?_template {value : Value} (found : entity.property? "template" = some value) :
    value = .null ∨ ∃ text, value = .text text := by
  have shapes : entity.kind.field? "template" = none ∨ entity.kind.field? "template" = some (.optional .text) := by
    cases entity.kind <;> first | exact Or.inl rfl | exact Or.inr rfl
  rcases shapes with absent | field
  · rw [(property?_eq_none_iff kept _).mpr absent] at found
    cases found
  · obtain ⟨there, fits⟩ := property_of_field kept field
    obtain rfl := Option.some.inj (found.symm.trans there)
    generalize entity.property "template" = value at fits
    rw [Shape.decode.eq_def] at fits
    dsimp only at fits
    split at fits
    · exact Or.inl rfl
    · rw [Shape.decode] at fits
      split at fits
      · exact Or.inr ⟨_, (Except.ok.inj fits).symm⟩
      · cases fits

/-- A block that starts from what is in its property already is no service and no template. -/
theorem honest_of_placed {descriptor : Descriptor} (member : descriptor ∈ Registry.descriptors)
    (placed : descriptor.checkPlacement (some entity.kind) = .ok ()) (beside : entity.kind ≠ .application)
    {value : Value} (found : entity.property? descriptor.elementName = some value)
    (read : ofValue descriptor.kind value = .ok child) : child.Honest bases := by
  have plain : descriptor.kind.guardedSlot? = none ∧
      (descriptor.kind.readOnly = [] ∨ descriptor.kind = .cloudTemplate) := by
    have all : ∀ kind ≠ EntityKind.application, ∀ descriptor ∈ Registry.descriptors,
        descriptor.checkPlacement (some kind) = .ok () → descriptor.kind.guardedSlot? = none ∧
          (descriptor.kind.readOnly = [] ∨ descriptor.kind = .cloudTemplate) := by
      intro kind beside
      cases kind <;> first | exact absurd rfl beside | decide
    exact all _ beside descriptor member placed
  have kind := (ofValue_eq_ok read).1
  obtain ⟨none, free | template⟩ := plain
  · exact honest_of_free (kind ▸ free) (kind ▸ none)
  · have name : descriptor.elementName = "template" := by rw [Descriptor.elementName, template]; rfl
    rw [name] at found
    rw [template] at read
    rcases property?_template kept found with rfl | ⟨text, rfl⟩
    · obtain rfl := Except.ok.inj (show Except.ok (fresh .cloudTemplate) = .ok child from read)
      exact honest_fresh _ _
    · cases read

end Assigned

end Entity

end DeployRecipe
