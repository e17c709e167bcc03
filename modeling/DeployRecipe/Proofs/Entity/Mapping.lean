import DeployRecipe.Proofs.Entity.Binding

/-!
An entity and its mapping determine each other. Whatever is assigned, the mapping has the names of the kind
in their order, and the entity is read from it again.
-/

namespace DeployRecipe.Entity

/-- The entities that assignments lead to, from the defaults of a kind or from a value. -/
inductive Attainable : Entity → Prop
  | fresh (kind : EntityKind) : Attainable (Entity.fresh kind)
  | read {kind : EntityKind} {value : Value} {entity : Entity} (success : ofValue kind value = .ok entity) :
    Attainable entity
  | set {entity changed : Entity} {name : String} {value : Value} (before : Attainable entity)
    (success : entity.setProperty name value = .ok changed) : Attainable changed
  | bind {entity changed : Entity} {used more : UsedNames} {name : String} {arguments : List Value}
    (before : Attainable entity) (success : entity.bind used name arguments = .ok (changed, more)) :
    Attainable changed
  | bindPath {entity changed : Entity} {used more : UsedNames} {path : String} {arguments : List Value}
    (before : Attainable entity) (success : entity.bindPath used path arguments = .ok (changed, more)) :
    Attainable changed
  | bindEntity {parent changed child : Entity} {used more : UsedNames} (before : Attainable parent)
    (inner : Attainable child) (success : parent.bindEntity used child = .ok (changed, more)) :
    Attainable changed

theorem Attainable.kept {entity : Entity} (attainable : entity.Attainable) : entity.Kept := by
  induction attainable with
  | fresh kind => exact kept_fresh kind
  | read success => exact (ofValue_eq_ok success).2
  | set _ success inductionHypothesis => exact (setProperty_assigns inductionHypothesis success).kept
  | bind _ success inductionHypothesis =>
    obtain ⟨value, set, _⟩ := bind_eq_ok success
    exact (setCoerced_assigns inductionHypothesis set).kept
  | bindPath _ success inductionHypothesis =>
    obtain ⟨_, _, _, assigns⟩ := bindPath_assigns inductionHypothesis success
    exact assigns.kept
  | bindEntity _ _ success inductionHypothesis _ =>
    exact (setProperty_assigns inductionHypothesis (bindEntity_eq_ok success).1).kept

/-- The mapping of an entity has the names of its kind in order, recipes may assign what they may assign at
the defaults, and the entity is read from its mapping. -/
structure Legible (entity : Entity) : Prop where
  keys : ∃ entries, entity.toValue = .mapping entries ∧
    entries.map Prod.fst = entity.kind.shape.layout.names.map Value.text
  writable : entity.writableProperties = (fresh entity.kind).writableProperties
  again : ofValue entity.kind entity.toValue = .ok entity

theorem keys_ofTable (table : Table) :
    (table.map fun entry => (Value.text entry.1, entry.2)).map Prod.fst = table.keys.map Value.text := by
  simp [Entries.keys, Function.comp_def]

theorem writableProperties_of_kept {entity : Entity} (kept : entity.Kept) :
    entity.writableProperties = (fresh entity.kind).writableProperties := by
  have keys : entity.properties.keys = (fresh entity.kind).properties.keys :=
    (keys_of_kept kept).trans (keys_of_kept (kept_fresh entity.kind)).symm
  simp only [writableProperties, keys]
  rfl

theorem legible_of_kept {entity : Entity} (kept : entity.Kept) : entity.Legible where
  keys := ⟨_, rfl, (keys_ofTable entity.properties).trans (congrArg _ (keys_of_kept kept))⟩
  writable := writableProperties_of_kept kept
  again := ofValue_toValue kept

/-- What is read from a value has a mapping from which it is read again, and so has every entity that
assignments lead to. -/
theorem legible_of_attainable :
    (∀ kind value entity, ofValue kind value = .ok entity → entity.kind = kind ∧ entity.Legible) ∧
      ∀ entity : Entity, entity.Attainable → entity.Legible := by
  constructor
  · intro kind value entity read
    obtain ⟨same, kept⟩ := ofValue_eq_ok read
    exact ⟨same, legible_of_kept kept⟩
  · intro entity attainable
    exact legible_of_kept attainable.kept

/-- A group with a gauge that is written as a list and a chart without a unit, before and after it is given
a title that is a number. -/
theorem legible_of_attainable_widgets :
    let widgets := Value.sequence [
      .sequence [.text "cpu"], .mapping [(.text "axisYUnit", .null), (.text "metric", .text "heap")]]
    ∃ entity changed used,
      ofValue .widgetGroup (.mapping [(.text "widgets", widgets), (.text "unknown", .null)]) = .ok entity ∧
      entity.bind [] "title" [.int 7] = .ok (changed, used) ∧
      entity.kind = .widgetGroup ∧ entity.Legible ∧ changed.Legible ∧
      ofValue .widgetGroup changed.toValue = .ok changed := by
  intro widgets
  have read : ofValue .widgetGroup (.mapping [(.text "widgets", widgets), (.text "unknown", .null)]) =
      .ok ⟨.widgetGroup, [("name", .null), ("title", .null), ("widgets", .sequence [
        .mapping [(.text "metric", .text "cpu")],
        .mapping [(.text "metric", .text "heap"), (.text "axisYUnit", .null)]])]⟩ := rfl
  have bound : bind ⟨.widgetGroup, [("name", .null), ("title", .null), ("widgets", .sequence [
        .mapping [(.text "metric", .text "cpu")],
        .mapping [(.text "metric", .text "heap"), (.text "axisYUnit", .null)]])]⟩ [] "title" [.int 7] =
      .ok (⟨.widgetGroup, [("name", .null), ("title", .text "7"), ("widgets", .sequence [
        .mapping [(.text "metric", .text "cpu")],
        .mapping [(.text "metric", .text "heap"), (.text "axisYUnit", .null)]])]⟩, ["title"]) := rfl
  obtain ⟨kind, legible⟩ := legible_of_attainable.1 _ _ _ read
  have changed := legible_of_attainable.2 _ (.bind (.read read) bound)
  exact ⟨_, _, _, read, bound, kind, legible, changed, changed.again⟩

end DeployRecipe.Entity
