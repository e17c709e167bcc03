import DeployRecipe.Entity.Basic
import DeployRecipe.Proofs.Schema.Sound

/-!
Entities hold every property of their kind in the form in which it is kept. To assign a property of such
an entity is to read the one value that is assigned; every other property stays as it is.
-/

namespace DeployRecipe

namespace EntityKind

/-- The shape of a property. -/
def field? (kind : EntityKind) (name : String) : Option Shape :=
  kind.shape.layout.shape? name

theorem shape_eq_record (kind : EntityKind) :
    ∃ title closed, kind.shape = .record title closed kind.shape.layout := by
  cases kind <;> exact ⟨_, _, rfl⟩

theorem names_nodup (kind : EntityKind) : kind.shape.layout.names.Nodup := by
  obtain ⟨title, closed, record⟩ := kind.shape_eq_record
  have sound := kind.shape_sound
  rw [record] at sound
  exact sound.1

theorem layout_sound (kind : EntityKind) : kind.shape.layout.Sound := by
  obtain ⟨title, closed, record⟩ := kind.shape_eq_record
  have sound := kind.shape_sound
  rw [record] at sound
  exact sound.2

end EntityKind

namespace Entity

/-- Every property is there, in order and in the form in which it is kept. -/
def Kept (entity : Entity) : Prop :=
  entity.kind.shape.layout.Keeps entity.properties

theorem tableOf_ofTable (table : Table) : tableOf (Value.ofTable table) = table := by
  induction table with
  | nil => rfl
  | cons entry rest inductionHypothesis => exact congrArg (entry :: ·) inductionHypothesis

/-- What a kind's shape reads is a table that its layout keeps. -/
theorem decode_shape_eq_ok {kind : EntityKind} {value kept : Value}
    (read : kind.shape.decode value = .ok kept) :
    ∃ table, kept = Value.ofTable table ∧ kind.shape.layout.Keeps table := by
  obtain ⟨title, closed, record⟩ := kind.shape_eq_record
  rw [record] at read
  exact Shape.decode_record_eq_ok kind.names_nodup kind.layout_sound read

theorem decode_shape_ofTable {kind : EntityKind} {table : Table} (keeps : kind.shape.layout.Keeps table) :
    kind.shape.decode (Value.ofTable table) = .ok (Value.ofTable table) := by
  obtain ⟨title, closed, record⟩ := kind.shape_eq_record
  rw [record]
  exact Shape.decode_ofTable_of_keeps title closed kind.names_nodup keeps

theorem kept_fresh (kind : EntityKind) : (fresh kind).Kept :=
  Layout.keeps_defaults kind.layout_sound

theorem ofValue_eq_ok {kind : EntityKind} {value : Value} {entity : Entity}
    (read : ofValue kind value = .ok entity) : entity.kind = kind ∧ entity.Kept := by
  rw [ofValue] at read
  cases decoded : kind.shape.decode value with
  | error error =>
    rw [decoded] at read
    cases read
  | ok kept =>
    obtain ⟨table, rfl, keeps⟩ := decode_shape_eq_ok decoded
    rw [decoded, Except.map, tableOf_ofTable] at read
    obtain rfl := Except.ok.inj read
    exact ⟨rfl, keeps⟩

/-- An entity is read from its own mapping. -/
theorem ofValue_toValue {entity : Entity} (kept : entity.Kept) :
    ofValue entity.kind entity.toValue = .ok entity := by
  rw [ofValue, toValue, decode_shape_ofTable kept, Except.map, tableOf_ofTable]

section Kept

variable {entity : Entity} (kept : entity.Kept)
include kept

theorem keys_of_kept : entity.properties.keys = entity.kind.shape.layout.names :=
  Layout.keys_of_keeps kept

theorem property?_eq_none_iff (name : String) :
    entity.property? name = none ↔ entity.kind.field? name = none := by
  rw [property?, Entries.find?_eq_none_iff_not_mem_keys, keys_of_kept kept, EntityKind.field?,
    Layout.shape?_eq_none_iff]

/-- The value of a property is there and is read again as itself. -/
theorem property_of_field {name : String} {shape : Shape} (field : entity.kind.field? name = some shape) :
    entity.property? name = some (entity.property name) ∧
      shape.decode (entity.property name) = .ok (entity.property name) := by
  obtain ⟨value, found, fits⟩ := Layout.decode_of_keeps kept field
  have same : entity.property name = value := by rw [property, property?, found, Option.getD_some]
  rw [same]
  exact ⟨found, fits⟩

end Kept

end Entity

/-- The shape of a property that recipes may assign. -/
def EntityKind.writable? (kind : EntityKind) (name : String) : Option Shape :=
  if name ∈ kind.readOnly then none else kind.field? name

theorem EntityKind.writable?_eq_some {kind : EntityKind} {name : String} {shape : Shape} :
    kind.writable? name = some shape ↔ name ∉ kind.readOnly ∧ kind.field? name = some shape := by
  simp [writable?]

namespace Entity

/-- A list is read item by item, so one more item that is kept makes a longer list that is kept. -/
theorem decode_list_append {inner : Shape} {items : List Value} {item : Value}
    (before : (Shape.list inner).decode (.sequence items) = .ok (.sequence items))
    (last : inner.decode item = .ok item) :
    (Shape.list inner).decode (.sequence (items ++ [item])) = .ok (.sequence (items ++ [item])) := by
  simp only [Shape.decode, Value.untagged] at before ⊢
  cases each : items.mapM inner.decode with
  | error error =>
    rw [each] at before
    cases before
  | ok values =>
    rw [each] at before
    obtain rfl : values = items := by
      simpa only [Except.map, Except.ok.injEq, Value.sequence.injEq] using before
    rw [List.mapM_append, each, List.mapM_cons, last]
    rfl

theorem appendService_eq {entity : Entity} {items : List Value}
    (services : entity.property? "services" = some (.sequence items)) (service : Value) :
    entity.appendService service =
      { entity with properties := entity.properties.insert "services" (.sequence (items ++ [service])) } := by
  rw [appendService, property, services]
  rfl

section Kept

variable {entity : Entity} (kept : entity.Kept)
include kept

theorem has_iff (name : String) :
    entity.properties.has name = true ↔ ∃ shape, entity.kind.field? name = some shape := by
  have absent := property?_eq_none_iff kept name
  rw [property?] at absent
  rw [Entries.has, Option.isSome_iff_ne_none, Ne, absent, ← Ne, Option.ne_none_iff_exists']

/-- A property with a shape is assigned what the shape reads. -/
theorem setProperty_eq {name : String} {shape : Shape} (field : entity.kind.writable? name = some shape)
    (value : Value) :
    entity.setProperty name value =
      match shape.decode value with
      | .ok read => .ok { entity with properties := entity.properties.insert name read }
      | .error error => .error (.coercion error) := by
  obtain ⟨kind, properties⟩ := entity
  obtain ⟨free, shaped⟩ := EntityKind.writable?_eq_some.mp field
  have ordinary : ¬(kind = .application ∧ name = serviceSlot) := by
    rintro ⟨rfl, rfl⟩
    cases shaped
  have there : Entries.has properties name = true := (has_iff kept name).mpr ⟨shape, shaped⟩
  have read : ofValue kind (Value.ofTable (properties.insert name value)) =
      (shape.decode value).map fun read => ⟨kind, properties.insert name read⟩ := by
    obtain ⟨title, closed, record⟩ := kind.shape_eq_record
    have keys : (properties.insert name value).keys = kind.shape.layout.names := by
      rw [Entries.keys_insert, if_pos, keys_of_kept kept]
      by_contra absent
      rw [Entries.has, (Entries.find?_eq_none_iff_not_mem_keys properties name).mpr absent] at there
      cases there
    rw [ofValue, record, Shape.decode_ofTable title closed kind.names_nodup keys,
      Layout.decodeAll_insert kept kind.names_nodup shaped]
    cases shape.decode value with
    | error error => rfl
    | ok read =>
      show Except.ok (Entity.mk kind (tableOf (Value.ofTable (properties.insert name read)))) = _
      rw [tableOf_ofTable]
      rfl
  rw [setProperty, if_neg ordinary, if_neg (by simpa using free), if_pos there, read]
  cases shape.decode value <;> rfl

/-- An assignment that succeeds is that of a property with a shape, or appends to an application's
services. -/
theorem setProperty_eq_ok {name : String} {value : Value} {changed : Entity}
    (success : entity.setProperty name value = .ok changed) :
    (∃ shape read, entity.kind.writable? name = some shape ∧ shape.decode value = .ok read ∧
      changed = { entity with properties := entity.properties.insert name read }) ∨
    (∃ service, entity.kind = .application ∧ name = serviceSlot ∧
      Schema.service.decode value = .ok service ∧ changed = entity.appendService service) := by
  by_cases slot : entity.kind = .application ∧ name = serviceSlot
  · right
    rw [setProperty, if_pos slot] at success
    split at success
    · rename_i service read
      exact ⟨service, slot.1, slot.2, read, (Except.ok.inj success).symm⟩
    · cases success
  · left
    cases field : entity.kind.writable? name with
    | some shape =>
      rw [setProperty_eq kept field] at success
      cases read : shape.decode value with
      | error error =>
        rw [read] at success
        cases success
      | ok result =>
        rw [read] at success
        exact ⟨shape, result, rfl, read, (Except.ok.inj success).symm⟩
    | none =>
      rw [setProperty, if_neg slot] at success
      split at success
      · cases success
      · rename_i free
        have absent : ¬ entity.properties.has name = true := by
          rw [has_iff kept]
          rintro ⟨shape, shaped⟩
          have some := EntityKind.writable?_eq_some.mpr ⟨by simpa using free, shaped⟩
          rw [field] at some
          cases some
        rw [if_neg absent] at success
        cases success

theorem isWritable_iff (name : String) :
    entity.isWritable name = true ↔
      (∃ shape, entity.kind.writable? name = some shape) ∨
        entity.kind = .application ∧ name = serviceSlot := by
  have names : name ∈ entity.properties.keys ↔ ∃ shape, entity.kind.field? name = some shape := by
    rw [← has_iff kept, Entries.has, Option.isSome_iff_ne_none, Ne,
      Entries.find?_eq_none_iff_not_mem_keys, not_not]
  have writable : (∃ shape, entity.kind.writable? name = some shape) ↔
      name ∈ entity.properties.keys ∧ name ∉ entity.kind.readOnly := by
    simp only [EntityKind.writable?_eq_some, names, exists_and_left]
    exact and_comm
  rw [isWritable, List.contains_iff_mem, writableProperties, writable]
  split
  · rename_i application
    simp [application]
  · rename_i other
    simp [other]

/-- The services of an application are a sequence, and one more is put at its end. -/
theorem property?_services (application : entity.kind = .application) :
    ∃ items, entity.property? "services" = some (.sequence items) ∧
      (Shape.list Schema.service).decode (.sequence items) = .ok (.sequence items) := by
  obtain ⟨kind, properties⟩ := entity
  subst application
  have field : EntityKind.field? .application "services" = some (.list Schema.service) := rfl
  obtain ⟨found, fits⟩ := property_of_field kept field
  generalize Entity.property ⟨.application, properties⟩ "services" = value at found fits
  have list := fits
  simp only [Shape.decode] at list
  split at list
  · rename_i items _
    cases each : items.mapM Schema.service.decode with
    | error error =>
      rw [each] at list
      cases list
    | ok values =>
      rw [each] at list
      obtain rfl := Except.ok.inj list
      exact ⟨values, found, fits⟩
  · obtain rfl := Except.ok.inj list
    exact ⟨[], found, fits⟩
  · cases list

end Kept

end Entity

theorem Entity.setProperty_kind {entity changed : Entity} {name : String} {value : Value}
    (success : entity.setProperty name value = .ok changed) : changed.kind = entity.kind := by
  rw [setProperty] at success
  split at success
  · split at success
    · obtain rfl := Except.ok.inj success
      rfl
    · cases success
  · split at success
    · cases success
    · split at success
      · split at success
        · rename_i read
          obtain rfl := Except.ok.inj success
          exact (ofValue_eq_ok read).1
        · cases success
      · cases success

/-- The property that changes when a name is assigned. -/
def EntityKind.target (kind : EntityKind) (name : String) : String :=
  if kind = .application ∧ name = Entity.serviceSlot then "services" else name

theorem EntityKind.target_of_writable {kind : EntityKind} {name : String} {shape : Shape}
    (field : kind.writable? name = some shape) : kind.target name = name := by
  rw [target, if_neg]
  rintro ⟨rfl, rfl⟩
  cases field

namespace Entity

/-- An entity after an assignment to a name: only the property behind the name may differ. -/
structure Assigns (name : String) (entity changed : Entity) : Prop where
  kind : changed.kind = entity.kind
  kept : changed.Kept
  others : ∀ other, other ≠ entity.kind.target name → changed.property? other = entity.property? other

theorem assigns_insert {entity : Entity} (kept : entity.Kept) {name property : String} {shape : Shape}
    (field : entity.kind.field? property = some shape) {value : Value}
    (fits : shape.decode value = .ok value) (target : entity.kind.target name = property) :
    entity.Assigns name { entity with properties := entity.properties.insert property value } where
  kind := rfl
  kept := Layout.keeps_insert kept entity.kind.names_nodup field fits
  others _ differs := Entries.find?_insert_of_ne _ (target ▸ differs.symm) value

theorem setProperty_assigns {entity : Entity} (kept : entity.Kept) {name : String} {value : Value}
    {changed : Entity} (success : entity.setProperty name value = .ok changed) :
    entity.Assigns name changed := by
  rcases setProperty_eq_ok kept success with ⟨shape, read, field, fits, rfl⟩ |
    ⟨service, application, rfl, fits, rfl⟩
  · have sound := EntityKind.writable?_eq_some.mp field
    have again := Layout.decode_kept _ entity.kind.layout_sound name shape sound.2 value read fits
    exact assigns_insert kept sound.2 again (EntityKind.target_of_writable field)
  · obtain ⟨items, services, list⟩ := property?_services kept application
    have again := Shape.decode_kept _ EntityKind.service.shape_sound value service fits
    have field : entity.kind.field? "services" = some (.list Schema.service) := by
      rw [application]
      rfl
    rw [appendService_eq services]
    refine assigns_insert kept field (decode_list_append list again) ?_
    rw [EntityKind.target, if_pos ⟨application, rfl⟩]

end Entity

end DeployRecipe
