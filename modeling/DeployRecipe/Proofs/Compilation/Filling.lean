import DeployRecipe.Proofs.Compilation.Declarations
import DeployRecipe.Proofs.Compilation.Exchange
import DeployRecipe.Proofs.Entity.Overriding
import DeployRecipe.Proofs.Entity.UsedNames

/-!
Blocks that are filled line by line. A declaration gives the open block a property that it does not hold yet, either
a value that the property keeps as it is or a block that is filled the same way, and the rest of the state stays.
-/

namespace DeployRecipe

/-- The property may be assigned, and keeps the value as it is. -/
def EntityKind.Keeps (kind : EntityKind) (name : String) (value : Value) : Prop :=
  ∃ shape, kind.writable? name = some shape ∧ shape.decode value = .ok value

namespace Entity

variable {entity : Entity} {name : String} {value : Value}

/-- The entity with another value of a property. -/
def filled (entity : Entity) (name : String) (value : Value) : Entity :=
  { entity with properties := entity.properties.insert name value }

theorem property?_filled (entity : Entity) (name other : String) (value : Value) :
    (entity.filled name value).property? other = if name = other then some value else entity.property? other :=
  Entries.find?_insert _ _ _ _

theorem property_filled (entity : Entity) (name other : String) (value : Value) :
    (entity.filled name value).property other = if name = other then value else entity.property other := by
  rw [property, property?_filled]
  split <;> rfl

theorem Kept.filled (kept : entity.Kept) (keeps : entity.kind.Keeps name value) : (entity.filled name value).Kept := by
  obtain ⟨shape, field, fits⟩ := keeps
  exact (assigns_insert kept (EntityKind.writable?_eq_some.mp field).2 fits
    (EntityKind.target_of_writable field)).kept

theorem setProperty_of_keeps (kept : entity.Kept) (keeps : entity.kind.Keeps name value) :
    entity.setProperty name value = .ok (entity.filled name value) := by
  obtain ⟨shape, field, fits⟩ := keeps
  rw [setProperty_eq kept field, fits]
  rfl

theorem isWritable_of_keeps (kept : entity.Kept) (keeps : entity.kind.Keeps name value) :
    entity.isWritable name = true := by
  obtain ⟨shape, field, -⟩ := keeps
  exact (isWritable_iff kept name).mpr (.inl ⟨shape, field⟩)

/-- A scalar is taken as it is unless the property holds a list. -/
theorem bind_of_keeps (kept : entity.Kept) (keeps : entity.kind.Keeps name value) (scalar : value.isScalar = true)
    (single : (entity.property name).isSequence = false) {used : UsedNames} (free : used.covers name = false) :
    entity.bind used name [value] = .ok (entity.filled name value, used.add name) := by
  have asItIs : shaped (entity.property name) value = value := by
    have plain : value.isMapping = false := by cases value <;> first | rfl | cases scalar
    rw [shaped_eq _ plain, single, Value.unwrapped_of_ne_one (Value.ne_one_of_isScalar scalar)]
    simp
  refine bind_eq_ok_iff.mpr ⟨value, rfl, free, ?_, rfl⟩
  rw [assignPath_last, if_pos (isWritable_of_keeps kept keeps), setCoerced]
  simp only [asItIs, setProperty_of_keeps kept keeps]

theorem bindEntity_of_keeps (child : Entity) (kept : entity.Kept)
    (keeps : entity.kind.Keeps child.kind.elementName child.toValue) {used : UsedNames}
    (free : used.covers child.kind.elementName = false) :
    entity.bindEntity used child =
      .ok (entity.filled child.kind.elementName child.toValue, used.add child.kind.elementName) := by
  have writable := isWritable_of_keeps kept keeps
  have replaced := replace_eq_ok.mpr (setProperty_of_keeps kept keeps)
  have unused : used.contains child.kind.elementName = false := by
    simpa using fun member => UsedNames.covers_eq_false_iff.mp free _ member (.inl rfl)
  simp only [bindEntity, writable, replaced, unused, Bool.not_true, Bool.and_false, Bool.false_and,
    Bool.false_eq_true, if_false]
  rfl

end Entity

/-- Entities of a kind are kept by a property that may hold one. -/
theorem EntityKind.keeps_block {kind : EntityKind} {name : String} {child : Entity}
    (field : kind.writable? name = some (.optional child.kind.shape)) (kept : child.Kept) :
    kind.Keeps name child.toValue :=
  ⟨_, field, Shape.decode_optional_of_decode (Entity.decode_shape_ofTable kept)⟩

namespace Scope

/-- The open block after a declaration that gave it a property. -/
def filled (scope : Scope) (name : String) (value : Value) : Scope :=
  scope.given name (scope.entity.filled name value)

/-- The names are still to be given, each once. -/
structure Ready (scope : Scope) (names : List String) : Prop where
  kept : scope.entity.Kept
  distinct : names.Nodup
  plain : ∀ name ∈ names, DottedName.isDotted name = false
  free : ∀ name ∈ names, scope.used.covers name = false
  fresh : ∀ name ∈ names, scope.entity.property name = (Entity.fresh scope.entity.kind).property name

namespace Ready

variable {scope : Scope} {name : String} {names : List String} {value : Value}

theorem opening (kind : EntityKind) (distinct : names.Nodup)
    (plain : ∀ name ∈ names, DottedName.isDotted name = false) : (Scope.opening (.fresh kind)).Ready names where
  kept := Entity.kept_fresh kind
  distinct := distinct
  plain := plain
  free _ _ := rfl
  fresh _ _ := rfl

/-- To give the first name a value leaves the others free. -/
theorem filled (ready : scope.Ready (name :: names)) (keeps : scope.entity.kind.Keeps name value) :
    (scope.filled name value).Ready names := by
  obtain ⟨new, distinct⟩ := List.nodup_cons.mp ready.distinct
  obtain ⟨here, plain⟩ := List.forall_mem_cons.mp ready.plain
  refine ⟨ready.kept.filled keeps, distinct, plain, fun other member => ?_, fun other member => ?_⟩
  · have differs : name ≠ other := fun same => new (same ▸ member)
    exact UsedNames.covers_add.mpr ⟨DottedName.not_overlaps_of_ne differs here (plain other member),
      ready.free other (List.mem_cons_of_mem _ member)⟩
  · have differs : name ≠ other := fun same => new (same ▸ member)
    exact ((Entity.property_filled _ _ _ _).trans (if_neg differs)).trans
      (ready.fresh other (List.mem_cons_of_mem _ member))

/-- To note a block in its parent changes no property. -/
theorem noteFamily (ready : scope.Ready names) (descriptor : Descriptor) :
    (Evaluation.noteFamily descriptor scope).Ready names := by
  rw [Evaluation.noteFamily]
  split
  · exact ⟨ready.kept, ready.distinct, ready.plain, ready.free, ready.fresh⟩
  · exact ready

end Ready

end Scope

/-- A declaration of one value, with the value that it comes to. -/
structure ValueLine where
  name : String
  expression : Expression
  value : Value

namespace ValueLine

def declaration (line : ValueLine) : Declaration :=
  .mk line.name 0 (.arguments [line.expression])

/-- The declaration gives blocks of a kind a property, with a scalar that the property keeps as it is. -/
structure Suits (deeper : Deeper) (context : RecipeContext) (kind : EntityKind) (line : ValueLine) : Prop where
  keeps : kind.Keeps line.name line.value
  scalar : line.value.isScalar = true
  single : ((Entity.fresh kind).property line.name).isSequence = false
  ordinary : line.name ≠ Evaluation.extendWord ∧ line.name ≠ Evaluation.loadWord
  evaluates : ∀ state : Evaluation, state.locals = [] →
    Evaluation.evaluate deeper context 0 line.expression state = .ok line.value state

end ValueLine

/-- The open block after declarations of values. -/
def Scope.filledAll (scope : Scope) (lines : List ValueLine) : Scope :=
  lines.foldl (fun scope line => scope.filled line.name line.value) scope

namespace Evaluation

variable {deeper : Deeper} {context : RecipeContext} {state : Evaluation} {scope : Scope} {outer : List Scope}

/-- The state with other open blocks. -/
def opened (state : Evaluation) (scopes : List Scope) : Evaluation :=
  { state with scopes }

/-- A value is given to the open block. Outside of applications no name loads a service. -/
theorem evaluateStatement_value {line : ValueLine} {rest : List String}
    (suits : line.Suits deeper context scope.entity.kind) (ready : scope.Ready (line.name :: rest))
    (alone : line.name = nameProperty → outer = []) (locals : state.locals = []) :
    evaluateStatement deeper context line.declaration (state.opened (scope :: outer)) =
      .ok () (state.opened (scope.filled line.name line.value :: outer)) := by
  have single : (scope.entity.property line.name).isSequence = false := by
    rw [ready.fresh _ List.mem_cons_self]
    exact suits.single
  have bound : bound scope line.name [line.value] =
      .ok (scope.entity.filled line.name line.value, scope.used.add line.name) := by
    rw [Evaluation.bound, ready.plain _ List.mem_cons_self]
    exact Entity.bind_of_keeps ready.kept suits.keeps suits.scalar single (ready.free _ List.mem_cons_self)
  have evaluated : evaluateItems deeper context 0 [line.expression] (state.opened (scope :: outer)) =
      .ok [line.value] (state.opened (scope :: outer)) :=
    (Running.bind_eq_ok _ _ _ _ _).mpr ⟨_, _, suits.evaluates _ locals, rfl⟩
  have assigned : assign deeper context 0 line.name [line.value] (state.opened (scope :: outer)) =
      .ok () (state.opened ({ scope with
        entity := scope.entity.filled line.name line.value, used := scope.used.add line.name } :: outer)) := by
    refine (Running.bind_eq_ok _ _ _ _ _).mpr
      ⟨(), _, (bindName_eq_ok _ _ _).mpr ⟨scope, outer, _, _, rfl, bound, rfl⟩, ?_⟩
    split
    · rename_i named
      obtain rfl := alone named
      exact (loadService_eq_ok _ _).mpr (.inl ⟨rfl, rfl⟩)
    · rfl
  rw [ValueLine.declaration, evaluateStatement, evaluateBody]
  simp only [if_neg suits.ordinary.1, if_neg suits.ordinary.2]
  exact (Running.bind_eq_ok _ _ _ _ _).mpr
    ⟨(), _, (Running.bind_eq_ok _ _ _ _ _).mpr ⟨_, _, evaluated, assigned⟩, rfl⟩

/-- Values are given one after the other. -/
theorem evaluateStatements_values {lines : List ValueLine} {rest : List String}
    (suits : ∀ line ∈ lines, line.Suits deeper context scope.entity.kind)
    (ready : scope.Ready (lines.map ValueLine.name ++ rest))
    (alone : nameProperty ∈ lines.map ValueLine.name → outer = []) (locals : state.locals = [])
    (more : List Declaration) :
    evaluateStatements deeper context (lines.map ValueLine.declaration ++ more) (state.opened (scope :: outer)) =
        evaluateStatements deeper context more (state.opened (scope.filledAll lines :: outer)) ∧
      (scope.filledAll lines).Ready rest := by
  induction lines generalizing scope with
  | nil => exact ⟨rfl, ready⟩
  | cons line others inductionHypothesis =>
    obtain ⟨here, later⟩ := List.forall_mem_cons.mp suits
    have first := evaluateStatement_value here ready (fun named => alone (named ▸ List.mem_cons_self)) locals
    have suits' : ∀ next ∈ others, next.Suits deeper context (scope.filled line.name line.value).entity.kind := later
    obtain ⟨run, after⟩ := inductionHypothesis suits' (ready.filled here.keeps) fun member =>
      alone (List.mem_cons_of_mem _ member)
    refine ⟨?_, after⟩
    rw [List.map_cons, List.cons_append, evaluateStatements, Running.bind_of_ok first]
    exact run

/-- A block of values that stands in another block. -/
theorem evaluateStatements_fresh {kind : EntityKind} {lines : List ValueLine}
    (suits : ∀ line ∈ lines, line.Suits deeper context kind) (distinct : (lines.map ValueLine.name).Nodup)
    (plain : ∀ name ∈ lines.map ValueLine.name, DottedName.isDotted name = false)
    (unnamed : nameProperty ∉ lines.map ValueLine.name) (locals : state.locals = []) :
    evaluateStatements deeper context (lines.map ValueLine.declaration)
        (state.opened (.opening (.fresh kind) :: outer)) =
      .ok () (state.opened ((Scope.opening (.fresh kind)).filledAll lines :: outer)) ∧
    ((Scope.opening (.fresh kind)).filledAll lines).entity.Kept := by
  have start : (Scope.opening (.fresh kind)).Ready (lines.map ValueLine.name ++ []) := by
    rw [List.append_nil]
    exact .opening kind distinct plain
  obtain ⟨run, ready⟩ := evaluateStatements_values suits start (fun named => absurd named unnamed) locals []
  rw [List.append_nil] at run
  exact ⟨run, ready.kept⟩

/-- A block is opened in a service, filled and given to the service. -/
theorem evaluateStatement_block (descriptor : Descriptor) {inner : List Declaration} {finished : Scope}
    {rest : List String} (described : Registry.describe? descriptor.elementName = some descriptor)
    (placed : descriptor.checkPlacement (some scope.entity.kind) = .ok ())
    (family : checkFamily scope descriptor = .ok ()) (ready : scope.Ready (descriptor.elementName :: rest))
    (absent : (Entity.fresh scope.entity.kind).property descriptor.elementName = .null)
    (body : evaluateStatements deeper context inner
        (state.opened (.opening (.fresh descriptor.kind) :: noteFamily descriptor scope :: outer)) =
      .ok () (state.opened (finished :: noteFamily descriptor scope :: outer)))
    (kind : finished.entity.kind = descriptor.kind)
    (keeps : scope.entity.kind.Keeps descriptor.elementName finished.entity.toValue) :
    evaluateStatement deeper context (.mk descriptor.elementName 0 (.block inner)) (state.opened (scope :: outer)) =
      .ok () (state.opened ((noteFamily descriptor scope).filled descriptor.elementName finished.entity.toValue ::
        outer)) := by
  have start : openAttached (state.opened (scope :: outer)) descriptor = .ok (.fresh descriptor.kind) := by
    have null : scope.entity.property descriptor.elementName = .null :=
      (ready.fresh _ List.mem_cons_self).trans absent
    have content : inheritedContent scope descriptor = .ok (.fresh descriptor.kind) := by
      rw [inheritedContent, null]
      split <;> first | rfl | contradiction
    exact (Running.attempt_eq_ok _ _ _).mpr ⟨(), family, content⟩
  have place : checkPlace (state.opened (scope :: outer)) descriptor true = .ok () := by
    simp only [checkPlace, opened, List.head?_cons, Option.isNone_some, Option.map_some, placed]
    rfl
  have evaluated : evaluateBlock context descriptor.elementName 0 true (evaluateStatements deeper context inner)
      (state.opened (scope :: outer)) = .ok finished.entity (state.opened (noteFamily descriptor scope :: outer)) :=
    (evaluateBlock_eq_ok _ _ _ _ _).mpr ⟨descriptor, _, described, place, start,
      (inScope_eq_ok _ _ _).mpr ⟨_, body, rfl, rfl⟩⟩
  have noted := ready.noteFamily descriptor
  have name : finished.entity.kind.elementName = descriptor.elementName := by
    rw [kind]
    rfl
  have bound := Entity.bindEntity_of_keeps finished.entity noted.kept
    (by rw [noteFamily_entity, name]; exact keeps) (name ▸ noted.free _ List.mem_cons_self)
  have attached : attach context 0 finished.entity (state.opened (noteFamily descriptor scope :: outer)) =
      .ok () (state.opened ({ noteFamily descriptor scope with
        entity := (noteFamily descriptor scope).entity.filled descriptor.elementName finished.entity.toValue
        used := (noteFamily descriptor scope).used.add descriptor.elementName } :: outer)) :=
    (attach_eq_ok _ _).mpr (.inr ⟨_, _, _, _, rfl, name ▸ bound, rfl⟩)
  rw [evaluateStatement, evaluateBody]
  exact (Running.bind_eq_ok _ _ _ _ _).mpr
    ⟨(), _, (Running.bind_eq_ok _ _ _ _ _).mpr ⟨_, _, evaluated, attached⟩, rfl⟩

end Evaluation

end DeployRecipe
