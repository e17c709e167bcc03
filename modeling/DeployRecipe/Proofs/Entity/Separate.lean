import DeployRecipe.Proofs.Entity.BlockForm

/-!
Assignments to different properties. An assignment looks at nothing of an entity but its kind and the property
that it changes, so two of them that change different properties may be made in either order.
-/

namespace DeployRecipe

theorem Entries.ext_of_keys {κ α : Type} [DecidableEq κ] {first second : Entries κ α} (distinct : first.keys.Nodup)
    (keys : second.keys = first.keys) (same : ∀ key, second.find? key = first.find? key) : second = first := by
  induction first generalizing second with
  | nil => exact List.map_eq_nil_iff.mp keys
  | cons entry rest inductionHypothesis =>
    obtain ⟨key, value⟩ := entry
    obtain ⟨⟨present, found⟩, others, rfl, rfl, later⟩ := List.map_eq_cons_iff.mp keys
    obtain ⟨new, distinct'⟩ := List.nodup_cons.mp distinct
    have here := same present
    simp only [find?, if_true, Option.some.injEq] at here
    subst here
    have new' : present ∉ Entries.keys others := fun there => new (later ▸ there)
    refine congrArg _ (inductionHypothesis distinct' later fun key => ?_)
    by_cases equal : present = key
    · subst equal
      rw [(find?_eq_none_iff_not_mem_keys rest present).mpr new,
        (find?_eq_none_iff_not_mem_keys others present).mpr new']
    · simpa [find?, equal] using same key

/-- What is kept of a value that is assigned: of the value and what is tried in its place, the first that the shape
of the property reads. -/
def Shape.settled? (shape : Shape) (current value : Value) : Option Value :=
  let value := Entity.shaped current value
  (value :: Entity.fallbacks current value).findSome? fun candidate => (shape.decode candidate).toOption

namespace Entity

/-- Entities of a kind that hold the same values are the same. -/
theorem eq_of_property? {entity other : Entity} (kept : entity.Kept) (kept' : other.Kept)
    (kind : other.kind = entity.kind) (same : ∀ name, other.property? name = entity.property? name) :
    other = entity := by
  have keys := (keys_of_kept kept').trans (kind ▸ (keys_of_kept kept).symm)
  have distinct : entity.properties.keys.Nodup := keys_of_kept kept ▸ entity.kind.names_nodup
  have properties := Entries.ext_of_keys distinct keys same
  obtain ⟨_, _⟩ := entity
  exact congrArg₂ Entity.mk kind properties

/-- The entity with a value in a property. -/
def withProperty (entity : Entity) (name : String) (value : Value) : Entity :=
  { entity with properties := entity.properties.insert name value }

theorem property?_withProperty (entity : Entity) (name : String) (value : Value) :
    (entity.withProperty name value).property? name = some value :=
  Entries.find?_insert_self _ _ _

/-- A property that recipes may assign is assigned what the value is settled to, if it is. -/
theorem toOption_setCoerced {entity : Entity} (kept : entity.Kept) {name : String} {shape : Shape}
    (field : entity.kind.writable? name = some shape) (value : Value) :
    (entity.setCoerced name value).toOption =
      (shape.settled? (entity.property name) value).map (entity.withProperty name) := by
  have candidates (values : List Value) :
      (values.filterMap fun candidate => (entity.setProperty name candidate).toOption).head? =
        (values.findSome? fun candidate => (shape.decode candidate).toOption).map (entity.withProperty name) := by
    rw [List.head?_filterMap, List.map_findSome?]
    congr 1
    funext candidate
    rw [setProperty_eq kept field]
    simp only [Function.comp]
    cases shape.decode candidate <;> rfl
  rw [setCoerced]
  simp only [setProperty_eq kept field (shaped _ _), Shape.settled?, List.findSome?_cons]
  cases shape.decode (shaped (entity.property name) value) with
  | ok read => rfl
  | error error =>
    have nothing : (Except.error error : Except DecodeError Value).toOption = none := rfl
    have attempts := candidates (fallbacks (entity.property name) (shaped (entity.property name) value))
    simp only [nothing]
    rw [← attempts]
    generalize List.filterMap _ _ = tried
    cases tried <;> rfl

/-- To assign a property after the coercions is to settle its value. -/
theorem setCoerced_eq_ok_iff {entity changed : Entity} (kept : entity.Kept) (ordinary : entity.kind ≠ .application)
    {name : String} {value : Value} :
    entity.setCoerced name value = .ok changed ↔
      ∃ shape read, entity.kind.writable? name = some shape ∧
        shape.settled? (entity.property name) value = some read ∧ changed = entity.withProperty name read := by
  cases field : entity.kind.writable? name with
  | none =>
    constructor
    · intro success
      obtain ⟨assigned, set⟩ := setCoerced_eq_ok success
      rcases setProperty_eq_ok kept set with ⟨shape, _, found, _⟩ | ⟨_, application, _⟩
      · rw [field] at found
        cases found
      · exact absurd application ordinary
    · rintro ⟨_, _, found, _⟩
      cases found
  | some shape =>
    have succeeds : entity.setCoerced name value = .ok changed ↔
        (entity.setCoerced name value).toOption = some changed := by
      cases entity.setCoerced name value <;> simp [Except.toOption]
    rw [succeeds, toOption_setCoerced kept field, Option.map_eq_some_iff]
    simp [eq_comm]

/-- Two entities of a kind that take any property only once, with the same value at a name. -/
structure AlikeAt (name : String) (entity other : Entity) : Prop where
  kept : entity.Kept
  kept' : other.Kept
  kind : other.kind = entity.kind
  ordinary : entity.kind ≠ .application
  same : other.property? name = entity.property? name

namespace AlikeAt

variable {entity other changed : Entity} {name : String} (alike : AlikeAt name entity other)
include alike

theorem symm : AlikeAt name other entity :=
  ⟨alike.kept', alike.kept, alike.kind.symm, alike.kind ▸ alike.ordinary, alike.same.symm⟩

theorem property : other.property name = entity.property name := by
  rw [Entity.property, Entity.property, alike.same]

theorem isWritable : other.isWritable name = entity.isWritable name := by
  rw [Bool.eq_iff_iff, isWritable_iff alike.kept' name, isWritable_iff alike.kept name, alike.kind]

/-- What one of them is assigned, the other one is assigned too. -/
theorem setProperty {value : Value} (success : entity.setProperty name value = .ok changed) :
    ∃ result, other.setProperty name value = .ok result ∧ result.property? name = changed.property? name := by
  rcases setProperty_eq_ok alike.kept success with ⟨shape, read, field, decoded, rfl⟩ | ⟨_, application, _⟩
  · refine ⟨other.withProperty name read, ?_, ?_⟩
    · rw [setProperty_eq alike.kept' (alike.kind ▸ field), decoded]
      rfl
    · exact (property?_withProperty _ _ _).trans (property?_withProperty _ _ _).symm
  · exact absurd application alike.ordinary

theorem setCoerced {value : Value} (success : entity.setCoerced name value = .ok changed) :
    ∃ result, other.setCoerced name value = .ok result ∧ result.property? name = changed.property? name := by
  obtain ⟨shape, read, field, settled, rfl⟩ := (setCoerced_eq_ok_iff alike.kept alike.ordinary).mp success
  refine ⟨other.withProperty name read, ?_, ?_⟩
  · refine (setCoerced_eq_ok_iff alike.kept' (alike.kind ▸ alike.ordinary)).mpr ⟨shape, read, ?_, ?_, rfl⟩
    · rw [alike.kind, field]
    · rw [alike.property, settled]
  · exact (property?_withProperty _ _ _).trans (property?_withProperty _ _ _).symm

theorem opened (kind : EntityKind) : other.opened name kind = entity.opened name kind := by
  rw [Entity.opened, Entity.opened, alike.property, alike.kind]

/-- An assignment to a path that begins with the name. -/
theorem assignPath {rest : List String} {value : Value}
    (success : entity.assignPath (name :: rest) value = .ok changed) :
    ∃ result, other.assignPath (name :: rest) value = .ok result ∧
      result.property? name = changed.property? name := by
  cases assignment_of_eq_ok (List.cons_ne_nil _ _) success with
  | last writable set =>
    rw [assignPath_last, if_pos (alike.isWritable.trans writable)]
    exact alike.setCoerced set
  | block writable described placed start assigned set =>
    rw [assignPath_block (alike.isWritable.trans writable) described (alike.kind ▸ placed), alike.opened, start,
      Except.bind, assigned, Except.bind]
    simp only [replace_eq_ok]
    exact alike.setProperty set
  | key writable free set =>
    rw [assignPath_key (alike.isWritable.trans writable) free]
    exact alike.setCoerced set

end AlikeAt

section Separate

variable {entity changed : Entity} (kept : entity.Kept) (ordinary : entity.kind ≠ .application)
include kept ordinary

/-- An assignment to one property leaves the entity as it was at the others. -/
theorem Assigns.alikeAt {name other : String} (assigns : entity.Assigns name changed) (differs : other ≠ name) :
    AlikeAt other entity changed where
  kept := kept
  kept' := assigns.kept
  kind := assigns.kind
  ordinary := ordinary
  same := assigns.others other (by rwa [EntityKind.target, if_neg fun slot => ordinary slot.1])

/-- Two assignments to different properties that are made in one order may be made in the other one. -/
theorem setCoerced_swap {first second : String} (differs : first ≠ second) {value more : Value} {result : Entity}
    (one : entity.setCoerced first value = .ok changed) (two : changed.setCoerced second more = .ok result) :
    ∃ between, entity.setCoerced second more = .ok between ∧ between.setCoerced first value = .ok result := by
  have assigns := setCoerced_assigns kept one
  have ordinary' : changed.kind ≠ .application := assigns.kind ▸ ordinary
  have assigns' := setCoerced_assigns assigns.kept two
  obtain ⟨between, two', atSecond⟩ := (Assigns.alikeAt kept ordinary assigns differs.symm).symm.setCoerced two
  have again := setCoerced_assigns kept two'
  have ordinary'' : between.kind ≠ .application := again.kind ▸ ordinary
  obtain ⟨last, one', atFirst⟩ := (Assigns.alikeAt kept ordinary again differs).setCoerced one
  have again' := setCoerced_assigns again.kept one'
  have kind : last.kind = result.kind := by rw [again'.kind, again.kind, assigns'.kind, assigns.kind]
  refine ⟨between, two', one'.trans (congrArg Except.ok ?_)⟩
  refine eq_of_property? assigns'.kept again'.kept kind fun name => ?_
  by_cases isFirst : name = first
  · subst isFirst
    exact atFirst.trans (Assigns.alikeAt assigns.kept ordinary' assigns' differs).same.symm
  · have left := (Assigns.alikeAt again.kept ordinary'' again' isFirst).same
    by_cases isSecond : name = second
    · subst isSecond
      exact left.trans atSecond
    · have middle := (Assigns.alikeAt kept ordinary assigns isFirst).same
      have right := (Assigns.alikeAt assigns.kept ordinary' assigns' isSecond).same
      exact (left.trans (Assigns.alikeAt kept ordinary again isSecond).same).trans (right.trans middle).symm

end Separate

end Entity

end DeployRecipe
