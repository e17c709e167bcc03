import DeployRecipe.Proofs.Entity.Keys

/-!
What the properties of the kinds hold: a property with the name of a block holds one entity of that kind or
no mapping at all, and every other property is read key by key or holds no mapping.
-/

namespace DeployRecipe

namespace Layout

/-- Every field passes a test of its name and its shape. -/
def all (test : String → Shape → Bool) : Layout → Bool
  | .nil => true
  | .field name shape _ rest => test name shape && rest.all test

theorem of_all {test : String → Shape → Bool} {layout : Layout} (passes : layout.all test = true)
    {name : String} {shape : Shape} (field : layout.shape? name = some shape) : test name shape = true := by
  induction layout with
  | nil => simp [shape?] at field
  | field present first absent rest inductionHypothesis =>
    rw [all, Bool.and_eq_true] at passes
    by_cases same : present = name
    · rw [shape?, if_pos same] at field
      obtain rfl := Option.some.inj field
      exact same ▸ passes.1
    · rw [shape?, if_neg same] at field
      exact inductionHypothesis passes.2 field

end Layout

namespace EntityKind

/-- A property that no block opens is read key by key, or holds no mapping. -/
theorem field_of_free {kind : EntityKind} {name : String} {shape : Shape}
    (field : kind.field? name = some shape) (free : Registry.describe? name = none) :
    shape.refusesMappings = true ∨ ∃ read, shape.contentReader? = some read := by
  have all : kind.shape.layout.all (fun name shape => (Registry.describe? name).isSome ||
      shape.refusesMappings || shape.contentReader?.isSome) = true := by
    cases kind <;> rfl
  have passes := Layout.of_all all field
  simpa [free, Option.isSome_iff_exists] using passes

/-- A block opens a property for one entity of its kind, or one that holds no mapping. -/
theorem field_of_placed {kind : EntityKind} {descriptor : Descriptor}
    (member : descriptor ∈ Registry.descriptors) (placed : descriptor.checkPlacement (some kind) = .ok ())
    {shape : Shape} (field : kind.field? descriptor.elementName = some shape) :
    shape.refusesMappings = true ∨
      shape = .optional descriptor.kind.shape ∧
        (Entity.fresh kind).property? descriptor.elementName = some .null ∨
      shape = descriptor.kind.shape ∧
        (Entity.fresh kind).property? descriptor.elementName =
          some (Entity.fresh descriptor.kind).toValue := by
  fin_cases member
  all_goals cases kind <;> try (cases placed; done)
  all_goals first
    | cases (show none = some shape from field)
    | (obtain rfl := Option.some.inj (show some _ = some shape from field)
       first | exact Or.inl rfl | exact Or.inr (Or.inl ⟨rfl, rfl⟩) | exact Or.inr (Or.inr ⟨rfl, rfl⟩))

/-- No block is an application inside another one. -/
theorem kind_of_placed {kind : EntityKind} {descriptor : Descriptor}
    (member : descriptor ∈ Registry.descriptors)
    (placed : descriptor.checkPlacement (some kind) = .ok ()) : descriptor.kind ≠ .application := by
  fin_cases member <;> first | (cases placed; done) | simp [Descriptor.nestedIn, Descriptor.processingUnit]

end EntityKind

theorem Registry.describe?_eq_some {name : String} {descriptor : Descriptor}
    (described : Registry.describe? name = some descriptor) :
    descriptor ∈ Registry.descriptors ∧ descriptor.elementName = name := by
  refine ⟨List.mem_of_find?_eq_some described, ?_⟩
  simpa using List.find?_some described

theorem EntityKind.isDotted_elementName (kind : EntityKind) : DottedName.isDotted kind.elementName = false := by
  cases kind <;> decide

/-- The name of a block has one segment. -/
theorem Registry.isDotted_of_describe? {name : String} {descriptor : Descriptor}
    (described : Registry.describe? name = some descriptor) : DottedName.isDotted name = false := by
  rw [← (describe?_eq_some described).2]
  exact descriptor.kind.isDotted_elementName

end DeployRecipe
