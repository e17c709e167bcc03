import DeployRecipe.Proofs.Entity.Kept
import DeployRecipe.Proofs.Running

/-!
The entities inside an entity, read off the shapes of its properties: a record stands for an entity, wherever it
stands in a property. The children of an entity are exactly these, in the order of the fields, so no field that
holds entities is left out.
-/

namespace DeployRecipe

/-- The fields in order with their shapes. -/
def Layout.fields : Layout → List (String × Shape)
  | .nil => []
  | .field name shape _ rest => (name, shape) :: rest.fields

theorem Layout.shape?_of_mem_fields {layout : Layout} (distinct : layout.names.Nodup) {name : String}
    {shape : Shape} (member : (name, shape) ∈ layout.fields) : layout.shape? name = some shape := by
  induction layout with
  | nil => cases member
  | field present first absent rest inductionHypothesis =>
    obtain ⟨new, distinct⟩ := List.nodup_cons.mp distinct
    rcases List.mem_cons.mp member with here | later
    · obtain ⟨rfl, rfl⟩ := Prod.mk.inj here
      rw [shape?, if_pos rfl]
    · have found := inductionHypothesis distinct later
      rw [shape?, if_neg, found]
      rintro rfl
      rw [(shape?_eq_none_iff rest present).mpr new] at found
      cases found

/-- The title of a record. -/
def Shape.title? : Shape → Option String
  | .record title _ _ => some title
  | _ => none

/-- The kind of the entities that a record stands for in a property. Kinds that share a record are told apart by
the name of the property. -/
def EntityKind.ofRecord? (property title : String) : Option EntityKind :=
  let kinds := all.filter fun kind => kind.shape.title? = some title
  (kinds.find? fun kind => kind.elementName = property).or kinds.head?

example : EntityKind.ofRecord? "mirrorProcessingUnit" "ProcessingUnit" = some .mirrorProcessingUnit := by decide
example : EntityKind.ofRecord? "templates" "CloudTemplate" = some .cloudTemplate := by decide

namespace Entity

/-- The entities that stand in a value of a shape, the value of a property. -/
def standing (property : String) : Shape → Value → List Entity
  | .record title _ _, value => (EntityKind.ofRecord? property title).toList.map fun kind => ⟨kind, tableOf value⟩
  | .widget, value => [ofWidget value]
  | .optional inner, value =>
    match value with
    | .null => []
    | value => standing property inner value
  | .list inner, .sequence items => items.flatMap (standing property inner)
  | .map inner, .mapping entries => entries.flatMap fun entry => standing property inner entry.2
  | _, _ => []

/-- The entities directly inside an entity, field by field. -/
def inner (entity : Entity) : List Entity :=
  entity.kind.shape.layout.fields.flatMap fun field => standing field.1 field.2 (entity.property field.1)

end Entity

/-- A value of the shape has no record and no widget in it. -/
def Shape.isPlain : Shape → Bool
  | .record _ _ _ => false
  | .widget => false
  | .optional inner => inner.isPlain
  | .list inner => inner.isPlain
  | .map inner => inner.isPlain
  | _ => true

/-- A record of the kind stands for entities of the kind in the property. -/
def EntityKind.Names (kind : EntityKind) (property : String) : Prop :=
  kind.shape.title?.bind (EntityKind.ofRecord? property) = some kind

/-- How a property with a shape holds entities, if it does. -/
inductive Shape.Nests (property : String) (shape : Shape) : Option EntityKind.Nesting → Prop
  | one {kind : EntityKind} (same : shape = kind.shape) (names : kind.Names property) :
    Nests property shape (some (.one kind))
  | optional {kind : EntityKind} (same : shape = .optional kind.shape) (names : kind.Names property) :
    Nests property shape (some (.one kind))
  | list {kind : EntityKind} (same : shape = .list kind.shape) (names : kind.Names property) :
    Nests property shape (some (.many kind))
  | map {kind : EntityKind} (same : shape = .map kind.shape) (names : kind.Names property) :
    Nests property shape (some (.many kind))
  | widgets (same : shape = .list .widget) : Nests property shape (some .widgets)
  | plain (free : shape.isPlain = true) : Nests property shape none

namespace EntityKind

/-- How a property holds entities. -/
def nesting? (kind : EntityKind) (property : String) : Option Nesting :=
  Entries.find? kind.nestings property

theorem nests (kind : EntityKind) :
    ∀ field ∈ kind.shape.layout.fields, field.2.Nests field.1 (kind.nesting? field.1) := by
  cases kind
  all_goals
    intro field member
    fin_cases member
    all_goals
      first
      | exact .plain rfl
      | exact .optional rfl rfl
      | exact .list rfl rfl
      | exact .map rfl rfl
      | exact .one rfl rfl
      | exact .widgets rfl

/-- The properties that hold entities, in the order of the fields. -/
theorem nestings_eq (kind : EntityKind) :
    kind.nestings = kind.shape.layout.fields.filterMap fun field =>
      (kind.nesting? field.1).map (field.1, ·) := by
  cases kind <;> rfl

end EntityKind

namespace Shape

theorem mapM_eq_self {read : Value → Except DecodeError Value} {items : List Value}
    (same : items.mapM read = .ok items) : ∀ item ∈ items, read item = .ok item := by
  induction items with
  | nil => simp
  | cons item rest inductionHypothesis =>
    rw [List.mapM_cons] at same
    obtain ⟨value, first, same⟩ := (Running.attempt_eq_ok _ _ _).mp same
    obtain ⟨values, others, same⟩ := (Running.attempt_eq_ok _ _ _).mp same
    obtain ⟨rfl, rfl⟩ := List.cons.inj (Except.ok.inj same)
    exact List.forall_mem_cons.mpr ⟨first, inductionHypothesis others⟩

theorem collectEntries_eq_self {read : Value → Except DecodeError Value} {entries : List (Value × Value)}
    (same : collectEntries read entries = .ok entries) : ∀ entry ∈ entries, read entry.2 = .ok entry.2 := by
  induction entries with
  | nil => simp
  | cons entry rest inductionHypothesis =>
    obtain ⟨key, content⟩ := entry
    rw [collectEntries] at same
    split at same
    · obtain ⟨value, first, same⟩ := (Running.attempt_eq_ok _ _ _).mp same
      obtain ⟨values, others, same⟩ := (Running.attempt_eq_ok _ _ _).mp same
      obtain ⟨head, rfl⟩ := List.cons.inj (Except.ok.inj same)
      obtain ⟨-, rfl⟩ := Prod.mk.inj head
      exact List.forall_mem_cons.mpr ⟨first, inductionHypothesis others⟩
    · cases same

/-- What is kept as a list is a sequence of items that are kept. -/
theorem decode_list_eq_self {inner : Shape} {value : Value} (kept : (Shape.list inner).decode value = .ok value) :
    ∃ items, value = .sequence items ∧ ∀ item ∈ items, inner.decode item = .ok item := by
  rw [decode] at kept
  split at kept
  · rename_i items untagged
    obtain ⟨values, each, rfl⟩ := (Running.map_eq_ok _ _ _).mp kept
    obtain rfl := Value.sequence.inj untagged
    exact ⟨_, rfl, mapM_eq_self each⟩
  · obtain rfl := Except.ok.inj kept
    exact ⟨[], rfl, by simp⟩
  · cases kept

theorem decode_map_eq_self {inner : Shape} {value : Value} (kept : (Shape.map inner).decode value = .ok value) :
    ∃ entries, value = .mapping entries ∧ ∀ entry ∈ entries, inner.decode entry.2 = .ok entry.2 := by
  rw [decode] at kept
  split at kept
  · rename_i entries untagged
    obtain ⟨values, each, rfl⟩ := (Running.map_eq_ok _ _ _).mp kept
    obtain rfl := Value.mapping.inj untagged
    exact ⟨_, rfl, collectEntries_eq_self each⟩
  · obtain rfl := Except.ok.inj kept
    exact ⟨[], rfl, by simp⟩
  · cases kept

end Shape

namespace Entity

theorem standing_shape {kind : EntityKind} {property : String} (names : kind.Names property) (value : Value) :
    standing property kind.shape value = [⟨kind, tableOf value⟩] := by
  obtain ⟨title, closed, record⟩ := kind.shape_eq_record
  rw [EntityKind.Names, record, Shape.title?, Option.bind_some] at names
  rw [record, standing, names]
  rfl

theorem standing_optional (property : String) (shape : Shape) {value : Value} (present : value ≠ .null) :
    standing property (.optional shape) value = standing property shape value := by
  cases value <;> first | rfl | exact absurd rfl present

theorem standing_plain (property : String) : (shape : Shape) → shape.isPlain = true → (value : Value) →
    standing property shape value = []
  | .any, _, _ | .text, _, _ | .bool, _, _ | .int _, _, _ | .double, _, _ | .choice _, _, _ | .executable, _, _ => rfl
  | .optional inner, plain, value => by
    cases value with
    | null => rfl
    | _ => exact standing_plain property inner plain _
  | .list inner, plain, value => by
    cases value with
    | sequence items =>
      rw [standing, List.flatMap_eq_nil_iff]
      exact fun item _ => standing_plain property inner plain item
    | _ => rfl
  | .map inner, plain, value => by
    cases value with
    | mapping entries =>
      rw [standing, List.flatMap_eq_nil_iff]
      exact fun entry _ => standing_plain property inner plain entry.2
    | _ => rfl

/-- A kept value of a property holds the entities that the kind says it holds. -/
theorem standing_eq_nested {property : String} {shape : Shape} {slot : Option EntityKind.Nesting}
    (nests : shape.Nests property slot) {value : Value} (kept : shape.decode value = .ok value) :
    standing property shape value = slot.toList.flatMap (nested · value) := by
  cases nests with
  | plain free => exact standing_plain property shape free value
  | @one kind same names =>
    subst same
    obtain ⟨table, rfl, -⟩ := decode_shape_eq_ok kept
    exact standing_shape names _
  | @optional kind same names =>
    subst same
    by_cases absent : value = .null
    · subst absent
      rfl
    · rw [standing_optional _ _ absent, standing_shape names]
      cases value <;> first | rfl | exact absurd rfl absent
  | @list kind same names =>
    subst same
    obtain ⟨items, rfl, -⟩ := Shape.decode_list_eq_self kept
    have each : standing property kind.shape = fun item => [⟨kind, tableOf item⟩] :=
      funext (standing_shape names)
    simp [standing, each, nested, List.map_eq_flatMap]
  | @map kind same names =>
    subst same
    obtain ⟨entries, rfl, -⟩ := Shape.decode_map_eq_self kept
    simp [standing, standing_shape names, nested, List.map_eq_flatMap]
  | widgets same =>
    subst same
    obtain ⟨items, rfl, -⟩ := Shape.decode_list_eq_self kept
    simp [standing, nested, List.map_eq_flatMap]

/-- What stands in a value is an entity of the kind that the property holds, or a widget. It stands in a part of the
value that is kept by the shape of the entity if the value is kept. -/
theorem of_mem_standing {property : String} {shape : Shape} {slot : Option EntityKind.Nesting}
    (nests : shape.Nests property slot) {value : Value} {child : Entity}
    (member : child ∈ standing property shape value) :
    (∃ kind item, (slot = some (.one kind) ∨ slot = some (.many kind)) ∧ child = ⟨kind, tableOf item⟩ ∧
      (shape.decode value = .ok value → kind.shape.decode item = .ok item)) ∨
    (∃ item, slot = some .widgets ∧ child = ofWidget item ∧
      (shape.decode value = .ok value → Shape.decodeWidget item = .ok item)) := by
  cases nests with
  | plain free =>
    rw [standing_plain property shape free] at member
    cases member
  | @one kind same names =>
    subst same
    rw [standing_shape names, List.mem_singleton] at member
    exact Or.inl ⟨kind, value, Or.inl rfl, member, id⟩
  | @optional kind same names =>
    subst same
    have present : value ≠ .null := by
      rintro rfl
      cases member
    rw [standing_optional _ _ present, standing_shape names, List.mem_singleton] at member
    refine Or.inl ⟨kind, value, Or.inl rfl, member, fun kept => ?_⟩
    exact (Shape.decode_optional_eq_ok kept).resolve_left fun absent => present absent.1
  | @list kind same names =>
    subst same
    cases value with
    | sequence items =>
      obtain ⟨item, there, member⟩ := List.mem_flatMap.mp member
      rw [standing_shape names, List.mem_singleton] at member
      refine Or.inl ⟨kind, item, Or.inr rfl, member, fun kept => ?_⟩
      obtain ⟨_, same, each⟩ := Shape.decode_list_eq_self kept
      obtain rfl := Value.sequence.inj same
      exact each item there
    | _ => cases member
  | @map kind same names =>
    subst same
    cases value with
    | mapping entries =>
      obtain ⟨entry, there, member⟩ := List.mem_flatMap.mp member
      rw [standing_shape names, List.mem_singleton] at member
      refine Or.inl ⟨kind, entry.2, Or.inr rfl, member, fun kept => ?_⟩
      obtain ⟨_, same, each⟩ := Shape.decode_map_eq_self kept
      obtain rfl := Value.mapping.inj same
      exact each entry there
    | _ => cases member
  | widgets same =>
    subst same
    cases value with
    | sequence items =>
      obtain ⟨item, there, member⟩ := List.mem_flatMap.mp member
      refine Or.inr ⟨item, rfl, List.mem_singleton.mp member, fun kept => ?_⟩
      obtain ⟨_, same, each⟩ := Shape.decode_list_eq_self kept
      obtain rfl := Value.sequence.inj same
      exact each item there
    | _ => cases member

/-- Entities hold only entities of a lower kind, whatever the values of their properties are. -/
theorem height_of_mem_inner {entity child : Entity} (member : child ∈ entity.inner) :
    child.kind.height < entity.kind.height := by
  obtain ⟨field, there, stands⟩ := List.mem_flatMap.mp member
  have lower {nesting : EntityKind.Nesting} (slot : entity.kind.nesting? field.1 = some nesting) :
      nesting.height < entity.kind.height := EntityKind.height_of_mem_nestings (Entries.mem_of_find? slot)
  rcases of_mem_standing (entity.kind.nests field there) stands with ⟨kind, item, slot | slot, rfl, -⟩ |
    ⟨item, slot, rfl, -⟩
  · exact lower slot
  · exact lower slot
  · rw [height_ofWidget]
    exact lower slot

/-- A gauge and a chart are kept as the entities that they stand for. -/
theorem kept_ofWidget {value : Value} (kept : Shape.decodeWidget value = .ok value) : (ofWidget value).Kept := by
  have fits {text : Value} (optional : Shape.isOptionalText text = true) :
      (Shape.optional .text).decode text = .ok text := by
    cases text <;> first | rfl | cases optional
  rw [Shape.decodeWidget] at kept
  split at kept
  · rename_i gauge found
    obtain rfl := Except.ok.inj kept
    obtain ⟨names, texts⟩ := Shape.optionalTexts?_texts found
    obtain ⟨⟨name, metric⟩, rfl, rfl⟩ := List.map_eq_singleton_iff.mp names
    exact ⟨rfl, fits (texts _ List.mem_cons_self), trivial⟩
  · split at kept
    · rename_i chart found
      obtain rfl := Except.ok.inj kept
      obtain ⟨names, texts⟩ := Shape.optionalTexts?_texts found
      obtain ⟨⟨first, metric⟩, rest, rfl, rfl, others⟩ := List.map_eq_cons_iff.mp names
      obtain ⟨⟨second, unit⟩, rfl, rfl⟩ := List.map_eq_singleton_iff.mp others
      exact ⟨rfl, fits (texts _ List.mem_cons_self), rfl,
        fits (texts _ (List.mem_cons_of_mem _ List.mem_cons_self)), trivial⟩
    · cases kept

section Kept

variable {entity : Entity} (kept : entity.Kept)
include kept

/-- A property with a shape is kept by it. -/
theorem decode_property {field : String × Shape} (member : field ∈ entity.kind.shape.layout.fields) :
    field.2.decode (entity.property field.1) = .ok (entity.property field.1) :=
  (property_of_field kept (Layout.shape?_of_mem_fields entity.kind.names_nodup member)).2

/-- The children of an entity are all the entities in its properties, in the order of the fields. -/
theorem children_eq_inner : entity.children = entity.inner := by
  rw [children, inner, EntityKind.nestings_eq, List.filterMap_eq_flatMap_toList, List.flatMap_assoc]
  apply List.flatMap_congr
  intro field member
  rw [standing_eq_nested (entity.kind.nests field member) (decode_property kept member)]
  cases entity.kind.nesting? field.1 <;> rfl

theorem kept_of_mem_inner {child : Entity} (member : child ∈ entity.inner) : child.Kept := by
  obtain ⟨field, there, stands⟩ := List.mem_flatMap.mp member
  have value := decode_property kept there
  rcases of_mem_standing (entity.kind.nests field there) stands with ⟨kind, item, -, rfl, fits⟩ |
    ⟨item, -, rfl, fits⟩
  · obtain ⟨table, rfl, keeps⟩ := decode_shape_eq_ok (fits value)
    rwa [tableOf_ofTable]
  · exact kept_ofWidget (fits value)

end Kept

/-- An entity that stands in another one, at any depth, or is that one itself. -/
inductive Contains : Entity → Entity → Prop
  | self (entity : Entity) : Contains entity entity
  | inner {entity child held : Entity} (member : child ∈ entity.inner) (contains : Contains child held) :
    Contains entity held

theorem Contains.kept {entity held : Entity} (contains : entity.Contains held) (kept : entity.Kept) : held.Kept := by
  induction contains with
  | self => exact kept
  | inner member _ inductionHypothesis => exact inductionHypothesis (kept_of_mem_inner kept member)

/-- An entity, then the entities in its properties one after the other, each before those inside it. -/
def preorder (entity : Entity) : List Entity :=
  entity :: entity.inner.attach.flatMap fun ⟨child, _member⟩ => preorder child
termination_by entity.kind.height
decreasing_by exact height_of_mem_inner _member

theorem preorder_eq (entity : Entity) : entity.preorder = entity :: entity.inner.flatMap preorder := by
  rw [preorder, List.flatMap_subtype fun _ _ => rfl, List.unattach_attach]

theorem mem_preorder_of_contains {entity held : Entity} (contains : entity.Contains held) :
    held ∈ entity.preorder := by
  induction contains with
  | self entity =>
    rw [preorder_eq]
    exact List.mem_cons_self
  | inner member _ inductionHypothesis =>
    rw [preorder_eq]
    exact List.mem_cons_of_mem _ (List.mem_flatMap.mpr ⟨_, member, inductionHypothesis⟩)

theorem contains_of_mem_preorder {entity held : Entity} (member : held ∈ entity.preorder) :
    entity.Contains held := by
  rw [preorder_eq, List.mem_cons, List.mem_flatMap] at member
  rcases member with rfl | ⟨child, inside, member⟩
  · exact .self _
  · exact .inner inside (contains_of_mem_preorder member)
termination_by entity.kind.height
decreasing_by exact height_of_mem_inner inside

theorem mem_preorder {entity held : Entity} : held ∈ entity.preorder ↔ entity.Contains held :=
  ⟨contains_of_mem_preorder, mem_preorder_of_contains⟩

end Entity

end DeployRecipe
