import DeployRecipe.Proofs.Compilation.Extension
import DeployRecipe.Proofs.Entity.Services

/-!
The processing units that services are given. A block that gives one notes it in the service around it, so a
second block of the family is refused; what gives a unit in another way is not noted.
-/

namespace DeployRecipe

namespace Evaluation

variable {context : RecipeContext} {before after : Evaluation}

/-- The processing units of the open block. -/
def openUnits (state : Evaluation) : List String :=
  match state.scopes with
  | scope :: _ => scope.entity.units
  | [] => []

namespace Step

def isBlock (step : Step) : Bool :=
  match step.declaration.body with
  | .block _ => true
  | _ => false

/-- The open block after the step, if the step ends well. -/
def leaves? (step : Step) : Option Scope :=
  match evaluateInPlace (Deeper.upTo step.depth) step.context step.declaration step.before with
  | .ok _ after => after.scopes.head?
  | .error _ _ => none

/-- The processing units that the open block has after the step and did not have before it. -/
def gives (step : Step) : List String :=
  match step.leaves? with
  | some scope => scope.entity.units.filter fun name => name ∉ step.before.openUnits
  | none => []

/-- The block of a processing unit. -/
def OpensUnit (step : Step) : Prop :=
  step.isBlock = true ∧ step.declaration.name ∈ unitNames

end Step

/-- Where one of two steps is no block, they do not give different units. -/
def OneUnit (list : List Step) : Prop :=
  list.Pairwise fun step other => ¬ (step.isBlock ∧ other.isBlock) →
    ∀ unit ∈ step.gives, ∀ more ∈ other.gives, more = unit

instance (list : List Step) : Decidable (OneUnit list) :=
  inferInstanceAs (Decidable (List.Pairwise _ list))

/-- The recipe that a step leads to gives a service one unit at most. -/
def Step.SingleRecipe (step : Step) : Prop :=
  ∀ entity, step.Compiles entity → entity.kind = .service → entity.units.length ≤ 1

theorem Step.Loads.units {step : Step} {changed : Entity} (loads : step.Loads changed) (single : step.SingleRecipe)
    {unit other : String} (member : unit ∈ changed.units) (member' : other ∈ changed.units) : unit = other := by
  obtain ⟨loaded, slot, compiles, kind, aside, assigns⟩ := loads
  have free : ∀ slot ∈ [Entity.lineageSlot, nameProperty], slot ∉ unitNames := by decide
  have there {unit : String} (member : unit ∈ changed.units) : unit ∈ loaded.units := by
    refine (assigns.units member).resolve_right fun same => free slot aside ?_
    have target : loaded.kind.target slot = slot := by simp [EntityKind.target, kind]
    rw [← target, ← same]
    exact (Entity.mem_units.mp member).1
  exact Entity.units_eq (single loaded compiles kind) (there member) (there member')

/-- What a step does in a service. It gives one unit at most, a block that of its name. The block of a unit
finds no mark and leaves one. -/
structure Step.Marks (step : Step) (scope changed : Scope) : Prop where
  gives : ∀ unit, unit ∈ step.gives ↔ unit ∈ changed.entity.units ∧ unit ∉ scope.entity.units
  lone : ∀ unit ∈ step.gives, ∀ more ∈ step.gives, more = unit
  named : step.isBlock = true → ∀ unit ∈ step.gives, unit = step.declaration.name
  opens : step.OpensUnit → scope.exclusive = none ∧ changed.exclusive.isSome = true
  stays : ¬ step.OpensUnit → changed.exclusive = scope.exclusive

/-- A service after some steps: its units were given by them, no more than one by each, and the block of a
unit left its mark. -/
structure Held (steps : List Step) (scope : Scope) : Prop where
  kept : scope.entity.Kept
  kind : scope.entity.kind = .service
  given : ∀ unit ∈ scope.entity.units, ∃ step ∈ steps, unit ∈ step.gives
  lone : ∀ step ∈ steps, ∀ unit ∈ step.gives, ∀ more ∈ step.gives, more = unit
  named : ∀ step ∈ steps, step.isBlock = true → ∀ unit ∈ step.gives, unit = step.declaration.name
  marked : ∀ step ∈ steps, step.OpensUnit → scope.exclusive.isSome = true
  once : steps.Pairwise fun step other => ¬ (step.OpensUnit ∧ other.OpensUnit)

theorem Held.length_units_le_one {steps : List Step} {scope : Scope} (held : Held steps scope)
    (one : OneUnit steps) : scope.entity.units.length ≤ 1 := by
  apply Entity.length_units_le_one
  intro unit member other member'
  obtain ⟨step, there, gives⟩ := held.given unit member
  obtain ⟨step', there', gives'⟩ := held.given other member'
  by_cases same : step = step'
  · subst same
    exact (held.lone step there unit gives other gives').symm
  · by_cases blocks : step.isBlock ∧ step'.isBlock
    · have opens : step.OpensUnit :=
        ⟨blocks.1, held.named step there blocks.1 unit gives ▸ (Entity.mem_units.mp member).1⟩
      have opens' : step'.OpensUnit :=
        ⟨blocks.2, held.named step' there' blocks.2 other gives' ▸ (Entity.mem_units.mp member').1⟩
      have symmetric : Std.Symm fun step other : Step => ¬ (step.OpensUnit ∧ other.OpensUnit) :=
        ⟨fun _ _ apart both => apart both.symm⟩
      exact absurd ⟨opens, opens'⟩ (held.once.forall there there' same)
    · have symmetric : Std.Symm fun step other : Step => ¬ (step.isBlock ∧ other.isBlock) →
          ∀ unit ∈ step.gives, ∀ more ∈ other.gives, more = unit :=
        ⟨fun _ _ same blocks unit gives more gives' =>
          (same (mt And.symm blocks) more gives' unit gives).symm⟩
      exact (one.forall there there' same blocks unit gives other gives').symm

/-- The blocks of processing units are those of the family. -/
theorem mem_unitNames_iff {name : String} {descriptor : Descriptor}
    (described : Registry.describe? name = some descriptor) :
    name ∈ unitNames ↔ descriptor.family = some .processingUnit := by
  obtain ⟨member, rfl⟩ := Registry.describe?_eq_some described
  have all : ∀ descriptor ∈ Registry.descriptors,
      (descriptor.elementName ∈ unitNames ↔ descriptor.family = some .processingUnit) := by decide
  exact all descriptor member

theorem checkFamily_eq_ok {scope : Scope} {descriptor : Descriptor}
    (family : descriptor.family = some .processingUnit) (free : checkFamily scope descriptor = .ok ()) :
    scope.exclusive = none := by
  rw [checkFamily, family] at free
  cases mark : scope.exclusive with
  | none => rfl
  | some pair =>
    obtain ⟨⟨⟩, existing⟩ := pair
    rw [mark] at free
    cases free

theorem noteFamily_exclusive {descriptor : Descriptor} (scope : Scope) :
    (noteFamily descriptor scope).exclusive =
      if descriptor.family = some .processingUnit then some (.processingUnit, descriptor.kind)
      else scope.exclusive := by
  rw [noteFamily]
  cases descriptor.family with
  | none => rfl
  | some family =>
    cases family
    rfl

section Service

variable {scope changed : Scope} {outer : List Scope} (open' : before.scopes = scope :: outer)
include open'

theorem mem_gives_iff {depth : Nat} {declaration : Declaration}
    (run : evaluateInPlace (Deeper.upTo depth) context declaration before = .ok () after)
    (ended : after.scopes = changed :: outer) (unit : String) :
    unit ∈ Step.gives ⟨depth, context, declaration, before⟩ ↔
      unit ∈ changed.entity.units ∧ unit ∉ scope.entity.units := by
  simp [Step.gives, Step.leaves?, run, ended, openUnits, open']

theorem evaluateInPlace_marksBlock (kept : scope.entity.Kept) (service : scope.entity.kind = .service)
    {depth line : Nat} {name : String} {declarations : List Declaration}
    (run : evaluateInPlace (Deeper.upTo depth) context (.mk name line (.block declarations)) before = .ok () after)
    (ended : after.scopes = changed :: outer) :
    Step.Marks ⟨depth, context, .mk name line (.block declarations), before⟩ scope changed := by
  obtain ⟨descriptor, start, between, inner, entity, used, described, _, free, _, _, _, kind, bound, _, _, scopes⟩ :=
    evaluateInPlace_block open' (Deeper.upTo_sound depth) run
  obtain ⟨rfl, _⟩ := List.cons.inj (ended.symm.trans scopes)
  obtain ⟨set, _⟩ := Entity.bindEntity_eq_ok bound
  rw [kind, show descriptor.kind.elementName = name from (Registry.describe?_eq_some described).2] at set
  have assigns := Entity.setProperty_assigns kept set
  have target : scope.entity.kind.target name = name := by simp [EntityKind.target, service]
  have gives := mem_gives_iff open' run ended
  have only (unit : String)
      (given : unit ∈ Step.gives ⟨depth, context, .mk name line (.block declarations), before⟩) : unit = name := by
    obtain ⟨after', before'⟩ := (gives unit).mp given
    exact ((assigns.units after').resolve_left before').trans target
  refine ⟨gives, fun _ given _ given' => (only _ given').trans (only _ given).symm, fun _ => only, ?_, ?_⟩
  · intro opens
    have family := (mem_unitNames_iff described).mp opens.2
    refine ⟨checkFamily_eq_ok family free, ?_⟩
    show (noteFamily descriptor scope).exclusive.isSome = true
    rw [noteFamily_exclusive, if_pos family]
    rfl
  · intro other
    have aside := mt (mem_unitNames_iff described).mpr fun unit => other ⟨rfl, unit⟩
    show (noteFamily descriptor scope).exclusive = _
    rw [noteFamily_exclusive, if_neg aside]

/-- A dotted name or a value gives the unit that it begins with, and a service that is led to gives those that
it has. -/
theorem evaluateInPlace_marksValue (kept : scope.entity.Kept) {depth : Nat} {declaration : Declaration}
    (value : ∀ declarations, declaration.body ≠ .block declarations)
    (single : spliced? (Deeper.upTo depth) context declaration before = none)
    (run : evaluateInPlace (Deeper.upTo depth) context declaration before = .ok () after)
    (recipe : Step.SingleRecipe ⟨depth, context, declaration, before⟩)
    (ended : after.scopes = changed :: outer) :
    Step.Marks ⟨depth, context, declaration, before⟩ scope changed := by
  obtain ⟨last, scopes, turns⟩ := evaluateInPlace_turns open' value single run
  obtain ⟨rfl, _⟩ := List.cons.inj (ended.symm.trans scopes)
  have gives := mem_gives_iff open' run ended
  have aside : Step.isBlock ⟨depth, context, declaration, before⟩ = false := by
    obtain ⟨name, line, body⟩ := declaration
    cases body with
    | block declarations => exact absurd rfl (value declarations)
    | arguments | assignment => rfl
  refine ⟨gives, fun unit given more given' => ?_, fun block => ?_, fun opens => ?_, fun _ => turns.exclusive⟩
  · obtain ⟨after', before'⟩ := (gives unit).mp given
    obtain ⟨after'', before''⟩ := (gives more).mp given'
    rcases turns.entity with ⟨_, assigned⟩ | ⟨_, _, loads⟩
    · exact Entity.units_of_assignPath kept assigned after'' before'' after' before'
    · exact loads.units recipe after'' after'
  · rw [aside] at block
    cases block
  · have block := opens.1
    rw [aside] at block
    cases block

theorem evaluateInPlace_marks (kept : scope.entity.Kept) (service : scope.entity.kind = .service)
    {depth : Nat} {declaration : Declaration}
    (single : spliced? (Deeper.upTo depth) context declaration before = none)
    (run : evaluateInPlace (Deeper.upTo depth) context declaration before = .ok () after)
    (recipe : Step.SingleRecipe ⟨depth, context, declaration, before⟩)
    (ended : after.scopes = changed :: outer) :
    Step.Marks ⟨depth, context, declaration, before⟩ scope changed := by
  obtain ⟨name, line, body⟩ := declaration
  cases body with
  | block declarations => exact evaluateInPlace_marksBlock open' kept service run ended
  | arguments | assignment =>
    exact evaluateInPlace_marksValue open' kept (by rintro _ ⟨⟩) single run recipe ended

end Service

/-- A service after one more step. -/
theorem Held.step {steps : List Step} {step : Step} {scope changed : Scope} (held : Held steps scope)
    (kept : changed.entity.Kept) (kind : changed.entity.kind = .service) (marks : step.Marks scope changed) :
    Held (steps ++ [step]) changed := by
  refine ⟨kept, kind, ?_, ?_, ?_, ?_, ?_⟩
  · intro unit member
    by_cases already : unit ∈ scope.entity.units
    · obtain ⟨earlier, there, given⟩ := held.given unit already
      exact ⟨earlier, List.mem_append_left _ there, given⟩
    · exact ⟨step, List.mem_append_right _ List.mem_cons_self, (marks.gives unit).mpr ⟨member, already⟩⟩
  · simp only [List.forall_mem_append, List.forall_mem_singleton]
    exact ⟨held.lone, marks.lone⟩
  · simp only [List.forall_mem_append, List.forall_mem_singleton]
    exact ⟨held.named, marks.named⟩
  · simp only [List.forall_mem_append, List.forall_mem_singleton]
    refine ⟨fun earlier there opens => ?_, fun unit => (marks.opens unit).2⟩
    have mark := held.marked earlier there opens
    by_cases unit : step.OpensUnit
    · rw [(marks.opens unit).1] at mark
      cases mark
    · rwa [marks.stays unit]
  · refine List.pairwise_append.mpr ⟨held.once, List.pairwise_singleton _ _, ?_⟩
    intro earlier there last member both
    obtain rfl := List.mem_singleton.mp member
    have mark := held.marked earlier there both.1
    rw [(marks.opens both.2).1] at mark
    cases mark

/-- The steps in a service make it what they give. -/
theorem Linked.held {list : List Step} {before after : Evaluation} (linked : Linked context before list after)
    {steps : List Step} {scope : Scope} {outer : List Scope} (held : Held steps scope)
    (open' : before.scopes = scope :: outer) (kept : before.Kept) (recipes : ∀ step ∈ list, step.SingleRecipe) :
    ∃ changed, after.scopes = changed :: outer ∧ Held (steps ++ list) changed := by
  induction linked generalizing steps scope with
  | done passes =>
    obtain ⟨position, _, ended⟩ := passes.innermost open'
    rw [List.append_nil]
    exact ⟨_, ended, held.kept, held.kind, held.given, held.lone, held.named, held.marked, held.once⟩
  | step passes single run _ inductionHypothesis =>
    obtain ⟨position, _, begun⟩ := passes.innermost open'
    have before' := passes.runs.kept kept
    have runs := evaluateInPlace_runs (Deeper.upTo_sound _) _ run
    obtain ⟨changed, ended, same⟩ := SameBlocks.around (begun ▸ runs.blocks)
    have start : Held steps { scope with position } :=
      ⟨held.kept, held.kind, held.given, held.lone, held.named, held.marked, held.once⟩
    have marks := evaluateInPlace_marks begun start.kept start.kind single run (recipes _ List.mem_cons_self) ended
    have whole := (runs.kept before').scopes changed (ended ▸ List.mem_cons_self)
    have next := start.step whole (same.trans start.kind) marks
    obtain ⟨last, scopes, final⟩ := inductionHypothesis next ended (runs.kept before')
      fun step member => recipes step (List.mem_cons_of_mem _ member)
    rw [List.append_assoc] at final
    exact ⟨last, scopes, final⟩

/-- A service that is made from its defaults by steps that do not give different units, but for their blocks,
has one unit at most. -/
theorem Linked.length_units_le_one {list : List Step} {inside : Evaluation} {outer : List Scope} {scope : Scope}
    (linked : Linked context inside list after)
    (open' : inside.scopes = .opening (.fresh .service) :: outer) (kept : inside.Kept) (one : OneUnit list)
    (recipes : ∀ step ∈ list, step.SingleRecipe) (ended : after.scopes = scope :: outer) :
    scope.entity.Kept ∧ scope.entity.units.length ≤ 1 := by
  have start : Held [] (.opening (.fresh .service)) := by
    refine ⟨Entity.kept_fresh _, rfl, ?_, by simp, by simp, by simp, .nil⟩
    intro unit member
    rw [Scope.opening, Entity.units_fresh] at member
    cases member
  obtain ⟨changed, scopes, held⟩ := linked.held start open' kept recipes
  obtain ⟨rfl, _⟩ := List.cons.inj (ended.symm.trans scopes)
  exact ⟨held.kept, held.length_units_le_one one⟩

end Evaluation

namespace Evaluation

variable {context : RecipeContext} {before after : Evaluation}

/-- The services of the open block after the step. -/
def Step.services (step : Step) : List Entity :=
  match step.leaves? with
  | some scope => scope.entity.children
  | none => []

/-- A step that gives an application services as values gives them one unit at most. -/
def Step.SingleValues (step : Step) : Prop :=
  step.isBlock = false → step.declaration.name ∈ [Entity.serviceSlot, "services"] →
    ∀ service ∈ step.services, service.units.length ≤ 1

instance (step : Step) : Decidable step.SingleValues :=
  inferInstanceAs (Decidable (_ → _))

/-- The steps of the block of a service in an application. -/
def Step.serviceBlock? (step : Step) : Option (List Step) :=
  if step.declaration.name = Entity.serviceSlot then step.inner? else none

/-- A value that a service starts with gives it one unit at most. -/
theorem length_units_le_one_of_assignPath {service : Entity} {next : String} {rest : List String} {value : Value}
    (assigned : (Entity.fresh .service).assignPath (next :: rest) value = .ok service) :
    service.units.length ≤ 1 := by
  have assigns := Entity.assignPath_assigns (Entity.kept_fresh _) assigned
  have only {unit : String} (member : unit ∈ service.units) : unit = EntityKind.service.target next := by
    have added := assigns.units member
    rw [Entity.units_fresh] at added
    exact added.resolve_left List.not_mem_nil
  exact Entity.length_units_le_one fun unit member other member' => (only member).trans (only member').symm

/-- What a value in an application makes of its services. -/
theorem children_of_value {scope changed : Scope} (application : scope.entity.kind = .application)
    (whole : scope.entity.Kept) {name : String} {value : Value}
    (assigned : scope.entity.assignPath (DottedName.segments name) value = .ok changed.entity)
    (given : name ∈ [Entity.serviceSlot, "services"] → ∀ service ∈ changed.entity.children,
      service.units.length ≤ 1) :
    ∀ service ∈ changed.entity.children, service ∈ scope.entity.children ∨ service.units.length ≤ 1 := by
  intro service member
  rcases DottedName.segments_cases name with ⟨single, _⟩ | ⟨next, rest, segments⟩
  · by_cases whole' : name ∈ [Entity.serviceSlot, "services"]
    · exact Or.inr (given whole' service member)
    · rw [List.mem_pair, not_or] at whole'
      rw [single] at assigned
      left
      rwa [← Entity.children_of_assigns whole application (Entity.assignPath_assigns whole assigned) whole'.1 whole'.2]
  · rw [segments] at assigned
    have assigns := Entity.assignPath_assigns whole assigned
    by_cases slot : DottedName.head name = Entity.serviceSlot
    · rw [slot] at assigned
      obtain ⟨added, made, children⟩ := Entity.children_of_assignPath whole application assigned
      rw [children] at member
      rcases List.mem_append.mp member with before | last
      · exact Or.inl before
      · rw [List.mem_singleton.mp last]
        exact Or.inr (length_units_le_one_of_assignPath made)
    · left
      rwa [← Entity.children_of_assigns whole application assigns slot]
      intro list
      rw [list] at assigned
      exact Entity.assignPath_services_ne whole application assigned

section Application

variable {scope changed : Scope} (open' : before.scopes = [scope]) (application : scope.entity.kind = .application)
  (kept : before.Kept)
include open' application kept

/-- The block of a service adds the service that its steps make. -/
theorem evaluateInPlace_serviceBlock {depth line : Nat} {declarations : List Declaration}
    (run : evaluateInPlace (Deeper.upTo depth) context (.mk Entity.serviceSlot line (.block declarations)) before =
      .ok () after)
    (blocks : ∀ block, Step.serviceBlock? ⟨depth, context, .mk Entity.serviceSlot line (.block declarations), before⟩ =
      some block → OneUnit block ∧ ∀ step ∈ block, step.SingleRecipe)
    (ended : after.scopes = [changed]) :
    ∃ added, changed.entity.children = scope.entity.children ++ [added] ∧ added.units.length ≤ 1 := by
  have sound := Deeper.upTo_sound depth
  have whole := kept.scopes scope (open' ▸ List.mem_cons_self)
  obtain ⟨descriptor, start, between, finished, entity, used, described, _, _, content, ran, ended', kind, bound,
    _, _, scopes⟩ := evaluateInPlace_block open' sound run
  obtain ⟨rfl, _⟩ := List.cons.inj (ended.symm.trans scopes)
  obtain ⟨set, _⟩ := Entity.bindEntity_eq_ok bound
  have registered : Registry.describe? Entity.serviceSlot =
      some ⟨.service, true, true, some .application, none, true⟩ := rfl
  obtain rfl := Option.some.inj (registered.symm.trans described)
  rw [kind] at set
  rw [inheritedContent, application] at content
  obtain rfl := Except.ok.inj content
  have list : Step.serviceBlock? ⟨depth, context, .mk Entity.serviceSlot line (.block declarations), before⟩ =
      some (steps depth context declarations { before with scopes := [.opening (.fresh .service), scope] }) := by
    simp [Step.serviceBlock?, Declaration.name, Step.inner?, Step.rootBody?, registered, open']
  obtain ⟨one, recipes⟩ := blocks _ list
  have linked := steps_linked depth context declarations (forM_evaluateInPlace sound (List.cons_ne_nil _ _) ran)
  have begun : ({ before with scopes := [.opening (.fresh .service), scope] } : Evaluation).Kept := by
    refine ⟨?_, kept.root⟩
    simp only [List.forall_mem_cons]
    exact ⟨Entity.kept_fresh _, whole, by simp⟩
  obtain ⟨finishedKept, most⟩ := linked.length_units_le_one rfl begun one recipes ended'
  exact ⟨finished.entity, Entity.children_of_setService whole application finishedKept kind set, most⟩

/-- What a step makes of the services of an application. -/
theorem evaluateInPlace_services {depth : Nat} {declaration : Declaration}
    (single : spliced? (Deeper.upTo depth) context declaration before = none)
    (run : evaluateInPlace (Deeper.upTo depth) context declaration before = .ok () after)
    (values : Step.SingleValues ⟨depth, context, declaration, before⟩)
    (blocks : ∀ block, Step.serviceBlock? ⟨depth, context, declaration, before⟩ = some block →
      OneUnit block ∧ ∀ step ∈ block, step.SingleRecipe)
    (ended : after.scopes = [changed]) :
    ∀ service ∈ changed.entity.children, service ∈ scope.entity.children ∨ service.units.length ≤ 1 := by
  have whole := kept.scopes scope (open' ▸ List.mem_cons_self)
  have left : Step.services ⟨depth, context, declaration, before⟩ = changed.entity.children := by
    simp [Step.services, Step.leaves?, run, ended]
  obtain ⟨name, line, body⟩ := declaration
  cases body with
  | arguments | assignment =>
    obtain ⟨last, scopes, turns⟩ := evaluateInPlace_turns open' (by rintro _ ⟨⟩) single run
    obtain ⟨rfl, _⟩ := List.cons.inj (ended.symm.trans scopes)
    obtain ⟨value, assigned⟩ := turns.entity.resolve_right (by simp [application])
    exact children_of_value application whole assigned (left ▸ values rfl)
  | block declarations =>
    intro service member
    by_cases slot : name = Entity.serviceSlot
    · subst slot
      obtain ⟨added, children, most⟩ := evaluateInPlace_serviceBlock open' application kept run blocks ended
      rw [children] at member
      rcases List.mem_append.mp member with already | last
      · exact Or.inl already
      · rw [List.mem_singleton.mp last]
        exact Or.inr most
    · obtain ⟨descriptor, _, _, _, _, _, described, _, _, _, _, _, kind, bound, _, _, scopes⟩ :=
        evaluateInPlace_block open' (Deeper.upTo_sound depth) run
      obtain ⟨rfl, _⟩ := List.cons.inj (ended.symm.trans scopes)
      obtain ⟨set, _⟩ := Entity.bindEntity_eq_ok bound
      rw [kind, show descriptor.kind.elementName = name from (Registry.describe?_eq_some described).2] at set
      have other : name ≠ "services" := by
        rintro rfl
        cases described
      left
      rwa [← Entity.children_of_assigns whole application (Entity.setProperty_assigns whole set) slot other]

end Application

/-- The steps of an application make no service with more than one unit. -/
theorem Linked.services {list : List Step} {before after : Evaluation} (linked : Linked context before list after)
    {scope last : Scope} (open' : before.scopes = [scope]) (application : scope.entity.kind = .application)
    (kept : before.Kept) (values : ∀ step ∈ list, step.SingleValues)
    (blocks : ∀ step ∈ list, ∀ block, step.serviceBlock? = some block →
      OneUnit block ∧ ∀ step ∈ block, step.SingleRecipe)
    (most : ∀ service ∈ scope.entity.children, service.units.length ≤ 1) (ended : after.scopes = [last]) :
    ∀ service ∈ last.entity.children, service.units.length ≤ 1 := by
  induction linked generalizing scope with
  | done passes =>
    obtain ⟨position, _, scopes⟩ := passes.innermost open'
    obtain ⟨rfl, _⟩ := List.cons.inj (scopes.symm.trans ended)
    exact most
  | step passes single run _ inductionHypothesis =>
    obtain ⟨position, _, begun⟩ := passes.innermost open'
    have before' := passes.runs.kept kept
    have runs := evaluateInPlace_runs (Deeper.upTo_sound _) _ run
    obtain ⟨changed, scopes, kind⟩ := SameBlocks.around (begun ▸ runs.blocks)
    refine inductionHypothesis scopes (kind.trans application) (runs.kept before')
      (fun step member => values step (List.mem_cons_of_mem _ member))
      (fun step member => blocks step (List.mem_cons_of_mem _ member)) ?_ ended
    intro service member
    rcases evaluateInPlace_services begun application before' single run (values _ List.mem_cons_self)
      (blocks _ List.mem_cons_self) scopes service member with already | one
    · exact most service already
    · exact one

/-- Outside of all blocks only a block gives a recipe its root. -/
theorem evaluateInPlace_root {depth : Nat} {declaration : Declaration} (outside : before.scopes = [])
    (single : spliced? (Deeper.upTo depth) context declaration before = none)
    (run : evaluateInPlace (Deeper.upTo depth) context declaration before = .ok () after)
    (other : Step.inner? ⟨depth, context, declaration, before⟩ = none) : after.root = before.root := by
  have sound := Deeper.upTo_sound depth
  obtain ⟨name, line, body⟩ := declaration
  cases body with
  | block declarations =>
    obtain ⟨descriptor, _, _, described, _⟩ := evaluateInPlace_rootBlock sound outside run
    simp [Step.inner?, Step.rootBody?, described] at other
  | assignment expression =>
    rw [evaluateInPlace_outside outside] at run
    obtain ⟨_, _, evaluated, changed⟩ := (Running.bind_eq_ok _ _ _ _ _).mp run
    obtain rfl := (Running.modify_eq_ok _ _ _ _).mp changed
    exact (evaluate_leaves sound expression evaluated).root
  | arguments expressions =>
    rw [evaluateInPlace_outside outside] at run
    change (if name = loadWord then _ else if name = extendWord then _ else _ : Evaluating Unit) _ = _ at run
    split at run
    · rename_i load
      obtain ⟨declarations, inside, _, opened, _⟩ := (splice_iff_openFragment line expressions).mp run
      rw [spliced?, if_pos load, opened] at single
      cases single
    · split at run
      · exact absurd run (fail_ne_ok _ _ _)
      · exact absurd run (fail_ne_ok _ _ _)

theorem Linked.root_eq {list : List Step} {before after : Evaluation} (linked : Linked context before list after)
    (outside : before.scopes = []) (others : ∀ step ∈ list, step.inner? = none) : after.root = before.root := by
  induction linked with
  | done passes => exact passes.root
  | step passes single run _ inductionHypothesis =>
    have between := passes.runs.blocks.eq_nil_iff.mpr outside
    have stays := (evaluateInPlace_runs (Deeper.upTo_sound _) _ run).blocks.eq_nil_iff.mpr between
    rw [inductionHypothesis stays fun step member => others step (List.mem_cons_of_mem _ member),
      evaluateInPlace_root between single run (others _ List.mem_cons_self), passes.root]

/-- A recipe that is evaluated well declares the block that becomes its root. -/
theorem exists_rootBlock {depth : Nat} {declarations : List Declaration} {session later : Session} {root : Entity}
    (run : evaluateRecipe (Deeper.upTo depth) context declarations session = .ok root later) :
    ∃ above block below, steps depth context declarations (start session) = above ++ block :: below ∧
      block.inner? = some (rootSteps depth context declarations session) := by
  obtain ⟨last, ran, done, _⟩ := (evaluateRecipe_eq_ok _ _ _ _ _ _).mp run
  have linked := steps_linked depth context declarations
    (forM_evaluateInPlace_outside (Deeper.upTo_sound depth) rfl ran)
  rw [rootSteps]
  cases found : (steps depth context declarations (start session)).findSome? Step.inner? with
  | none =>
    have same := linked.root_eq rfl (List.findSome?_eq_none_iff.mp found)
    rw [done] at same
    cases same
  | some inner =>
    obtain ⟨above, block, below, split, opens, _⟩ := List.findSome?_eq_some_iff.mp found
    exact ⟨above, block, below, split, opens⟩

/-- The steps of the block that becomes a root, and those of the services in it. -/
def ownBlocks (list : List Step) : List (List Step) :=
  list :: list.filterMap Step.serviceBlock?

/-- Also those of the recipes that they lead to, one after the other, at most the given number of times. -/
def allBlocks : Nat → List Step → List (List Step)
  | 0, list => ownBlocks list
  | depth + 1, list =>
    ownBlocks list ++ ((ownBlocks list).flatten.filterMap Step.recipe?).flatMap (allBlocks depth)

/-- Wherever a service is given a unit otherwise than by the block of the unit, it is given no other one. -/
def SingleUnits (depth : Nat) (list : List Step) : Prop :=
  ∀ block ∈ allBlocks depth list, OneUnit block ∧ ∀ step ∈ block, step.SingleValues

instance (depth : Nat) (list : List Step) : Decidable (SingleUnits depth list) :=
  inferInstanceAs (Decidable (∀ block ∈ allBlocks depth list, _))

theorem SingleUnits.own {depth : Nat} {list block : List Step} (single : SingleUnits depth list)
    (own : block ∈ ownBlocks list) : OneUnit block ∧ ∀ step ∈ block, step.SingleValues := by
  apply single
  cases depth with
  | zero => exact own
  | succ depth => exact List.mem_append_left _ own

theorem SingleUnits.recipe {depth : Nat} {list block recipe : List Step} {step : Step}
    (single : SingleUnits (depth + 1) list) (own : block ∈ ownBlocks list) (member : step ∈ block)
    (leads : step.recipe? = some recipe) : SingleUnits depth recipe := by
  intro inner there
  have reached : recipe ∈ (ownBlocks list).flatten.filterMap Step.recipe? :=
    List.mem_filterMap.mpr ⟨step, List.mem_flatten.mpr ⟨block, own, member⟩, leads⟩
  exact single inner (List.mem_append_right _ (List.mem_flatMap.mpr ⟨recipe, reached, there⟩))

/-- Loading in place uses up some of what is left for recipes to lead to others. -/
theorem depth_le_of_mem_steps {depth : Nat} {declarations : List Declaration} {state : Evaluation} {step : Step}
    (member : step ∈ steps depth context declarations state) : step.depth ≤ depth := by
  have always : ∀ depth, Invariant context (fun _ => True) depth :=
    fun _ => ⟨fun _ _ => trivial, fun _ _ => trivial⟩
  exact (of_mem_steps depth always trivial member).2.1

theorem depth_le_of_inner? {step other : Step} {list : List Step} (inner : step.inner? = some list)
    (member : other ∈ list) : other.depth ≤ step.depth := by
  obtain ⟨_, _, _, _, _, _, rfl⟩ := Step.inner?_eq_some inner
  exact depth_le_of_mem_steps member

theorem depth_le_of_mem_ownBlocks {list block : List Step} {depth : Nat} (within : ∀ step ∈ list, step.depth ≤ depth)
    (own : block ∈ ownBlocks list) : ∀ step ∈ block, step.depth ≤ depth := by
  intro step member
  rcases List.mem_cons.mp own with rfl | service
  · exact within step member
  · obtain ⟨around, there, opens⟩ := List.mem_filterMap.mp service
    have inner : around.inner? = some block := by
      rw [Step.serviceBlock?] at opens
      split at opens
      · exact opens
      · cases opens
    exact Nat.le_trans (depth_le_of_inner? inner member) (within around there)

theorem depth_le_of_mem_rootSteps {depth : Nat} {declarations : List Declaration} {session : Session} {step : Step}
    (member : step ∈ rootSteps depth context declarations session) : step.depth ≤ depth := by
  rw [rootSteps] at member
  cases found : (steps depth context declarations (start session)).findSome? Step.inner? with
  | none =>
    rw [found] at member
    cases member
  | some inner =>
    rw [found, Option.getD_some] at member
    obtain ⟨block, there, opens⟩ := List.exists_of_findSome?_eq_some found
    exact Nat.le_trans (depth_le_of_inner? opens member) (depth_le_of_mem_steps there)

/-- The services of a recipe have one unit at most, if those have that it leads to. -/
theorem evaluateRecipe_units {depth : Nat} {declarations : List Declaration} {session later : Session}
    {root : Entity} (run : evaluateRecipe (Deeper.upTo depth) context declarations session = .ok root later)
    (blocks : ∀ block ∈ ownBlocks (rootSteps depth context declarations session),
      OneUnit block ∧ ∀ step ∈ block, step.SingleValues)
    (recipes : ∀ block ∈ ownBlocks (rootSteps depth context declarations session),
      ∀ step ∈ block, step.SingleRecipe)
    {service : Entity} (holds : root.Holds service) (kind : service.kind = .service) : service.units.length ≤ 1 := by
  obtain ⟨above, block, below, split, opens⟩ := exists_rootBlock run
  obtain ⟨rootKind, inside, finished, scope, linked, open', kept, ended, rfl⟩ := inner_linked run split opens
  obtain ⟨changed, scopes, same⟩ := SameBlocks.around (open' ▸ linked.runs.blocks)
  obtain ⟨rfl, _⟩ := List.cons.inj (ended.symm.trans scopes)
  obtain ⟨one, values⟩ := blocks _ List.mem_cons_self
  rcases holds.of_service kind with rfl | ⟨application, member⟩
  · obtain rfl : rootKind = .service := same.symm.trans kind
    exact (linked.length_units_le_one open' kept one (recipes _ List.mem_cons_self) ended).2
  · obtain rfl : rootKind = .application := same.symm.trans application
    have inner (step : Step) (there : step ∈ rootSteps depth context declarations session) (block : List Step)
        (opens : step.serviceBlock? = some block) : OneUnit block ∧ ∀ step ∈ block, step.SingleRecipe := by
      have own : block ∈ ownBlocks (rootSteps depth context declarations session) :=
        List.mem_cons_of_mem _ (List.mem_filterMap.mpr ⟨step, there, opens⟩)
      exact ⟨(blocks block own).1, recipes block own⟩
    exact linked.services open' rfl kept values inner (by intro _ none; cases none) ended service member

/-- A recipe that a step leads to is compiled with less left for recipes to lead to others, so the services of
a recipe have one unit at most by induction on what is left. -/
theorem SingleUnits.length_units_le_one {bound depth : Nat} {declarations : List Declaration}
    {session later : Session} {root service : Entity} (within : depth ≤ bound)
    (single : SingleUnits bound (rootSteps depth context declarations session))
    (run : evaluateRecipe (Deeper.upTo depth) context declarations session = .ok root later)
    (holds : root.Holds service) (kind : service.kind = .service) : service.units.length ≤ 1 := by
  induction bound generalizing depth context declarations session later root service with
  | zero =>
    refine evaluateRecipe_units run (fun _ => single.own) (fun block own step member entity compiles => ?_) holds kind
    obtain ⟨_, _, _, _, _, deep, _⟩ := compiles.recipe?
    have low := depth_le_of_mem_ownBlocks (fun _ => depth_le_of_mem_rootSteps) own step member
    omega
  | succ bound inductionHypothesis =>
    refine evaluateRecipe_units run (fun _ => single.own)
      (fun block own step member entity compiles service' => ?_) holds kind
    obtain ⟨_, _, _, _, _, deep, nested, leads⟩ := compiles.recipe?
    have low := depth_le_of_mem_ownBlocks (fun _ => depth_le_of_mem_rootSteps) own step member
    exact inductionHypothesis (by omega) (single.recipe own member leads) nested (.self entity) service'

end Evaluation

namespace Compiled

/-- Every service in what a recipe compiles to has one processing unit at most, as long as no service, here or
in a recipe that is led to, is given a unit beside one that is given otherwise than by its block. -/
theorem ofText_units {job : Job} {path : Path} {text : String} {compiled : Compiled}
    (success : ofText job path text = .ok compiled)
    (single : Evaluation.SingleUnits job.depth (job.rootSteps path text)) {service : Entity}
    (holds : compiled.root.Holds service) (kind : service.kind = .service) : service.units.length ≤ 1 := by
  obtain ⟨last, evaluated⟩ := ofText_eq_ok success
  obtain ⟨context, declarations, session, opened, run⟩ := (Job.evaluate_eq_ok _ _ _ _ _ _).mp evaluated
  rw [Job.rootSteps, opened] at single
  exact single.length_units_le_one (Nat.le_refl _) run holds kind

/-- A service whose base is given a unit by a dotted name, and which opens the block of that unit. -/
theorem ofText_units_extended :
    let neighbour := "service \x7b\n name \"base\"\n memcached.port 11211\n\x7d\n"
    let job := Job.plain
      ⟨[(["r"], .directory), (["r", "base-service.recipe"], .file (.text neighbour))], ["r"]⟩ .standard
    let path : Path := ⟨"/r/child-service.recipe"⟩
    let text := "service \x7b\n extend \"base-service\"\n name \"web\"\n memcached \x7b port 5 \x7d\n\x7d\n"
    ∃ compiled, ofText job path text = .ok compiled ∧ compiled.root.kind = .service ∧
      compiled.root.units = ["memcached"] ∧ compiled.root.units.length ≤ 1 := by
  intro neighbour job path text
  have ends : (ofText job path text).toOption.map (fun compiled => (compiled.root.kind, compiled.root.units)) =
      some (.service, ["memcached"]) := by decide +kernel
  have single : Evaluation.SingleUnits job.depth (job.rootSteps path text) := by decide +kernel
  cases success : ofText job path text with
  | error error =>
    rw [success] at ends
    cases ends
  | ok compiled =>
    rw [success] at ends
    obtain ⟨kind, units⟩ := Prod.mk.inj (Option.some.inj ends)
    exact ⟨compiled, rfl, kind, units, ofText_units success single (.self _) kind⟩

/-- A service that is given a unit by a dotted name and another one by its block has both. -/
theorem ofText_units_both :
    let job := Job.plain ⟨[], []⟩ .standard
    let text := "service \x7b\n name \"web\"\n memcached.port 11211\n dataGrid \x7b \x7d\n\x7d\n"
    (ofText job ⟨"/web-service.recipe"⟩ text).toOption.map (fun compiled =>
        (compiled.root.kind, compiled.root.units)) = some (.service, ["dataGrid", "memcached"]) := by
  decide +kernel

end Compiled

end DeployRecipe
