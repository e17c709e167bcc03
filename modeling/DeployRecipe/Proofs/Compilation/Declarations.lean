import DeployRecipe.Proofs.Compilation.Recipes
import DeployRecipe.Proofs.Entity.Slots
import DeployRecipe.Proofs.Entity.UsedNames

/-!
What a declaration makes of the block that is open. A block is put into it; any other declaration assigns what
its name leads to, or puts a service that it leads to in place of the open one.
-/

namespace DeployRecipe

namespace Evaluation

variable {deeper : Deeper} {context : RecipeContext} {before after : Evaluation}

/-- An element's name has one segment. -/
theorem head_elementName (kind : EntityKind) : DottedName.head kind.elementName = kind.elementName :=
  DottedName.head_of_not_dotted kind.isDotted_elementName

@[simp] theorem noteFamily_entity (descriptor : Descriptor) (scope : Scope) :
    (noteFamily descriptor scope).entity = scope.entity := by
  rw [noteFamily]
  split <;> rfl

@[simp] theorem noteFamily_used (descriptor : Descriptor) (scope : Scope) :
    (noteFamily descriptor scope).used = scope.used := by
  rw [noteFamily]
  split <;> rfl

@[simp] theorem noteFamily_position (descriptor : Descriptor) (scope : Scope) :
    (noteFamily descriptor scope).position = scope.position := by
  rw [noteFamily]
  split <;> rfl

/-- What the step makes is a service that it leads to, with its lineage or its name set. -/
def Step.Loads (step : Step) (changed : Entity) : Prop :=
  ∃ loaded slot, step.Compiles loaded ∧ loaded.kind = .service ∧ slot ∈ [Entity.lineageSlot, nameProperty] ∧
    loaded.Assigns slot changed

/-- What a step that is no block makes of the open block. It leaves the mark of the family. It assigns what its
name leads to, or it puts a service that it leads to in place of one that is at its start or in an
application. -/
structure Step.Turns (step : Step) (scope : Scope) (outer : List Scope) (changed : Scope) : Prop where
  exclusive : changed.exclusive = scope.exclusive
  position : scope.position ≤ changed.position
  entity : (∃ value, scope.entity.assignPath (DottedName.segments step.declaration.name) value =
      .ok changed.entity) ∨
    scope.entity.kind = .service ∧ (scope.position = 0 ∨ outer ≠ []) ∧ step.Loads changed.entity

section Block

variable {scope : Scope} {outer : List Scope} (open' : before.scopes = scope :: outer)
include open'

/-- A block inside another one: the place and the family allow it, its declarations are evaluated, and what
they make is put into the block around it. -/
theorem evaluateInPlace_block (sound : deeper.Sound) {name : String} {line : Nat}
    {declarations : List Declaration}
    (run : evaluateInPlace deeper context (.mk name line (.block declarations)) before = .ok () after) :
    ∃ descriptor start between inner changed used, Registry.describe? name = some descriptor ∧
      descriptor.checkPlacement (some scope.entity.kind) = .ok () ∧ checkFamily scope descriptor = .ok () ∧
      inheritedContent scope descriptor = .ok start ∧
      evaluateStatements deeper context declarations { before with
          scopes := .opening start :: noteFamily descriptor scope :: outer } = .ok () between ∧
      between.scopes = inner :: noteFamily descriptor scope :: outer ∧ inner.entity.kind = descriptor.kind ∧
      scope.entity.bindEntity scope.used inner.entity = .ok (changed, used) ∧
      ∃ position, scope.position ≤ position ∧ after.scopes =
        { noteFamily descriptor scope with entity := changed, used, position } :: outer := by
  rw [evaluateInPlace_inside (by simp [open']), evaluateStatement] at run
  obtain ⟨_, middle, evaluated, counted⟩ := (Running.bind_eq_ok _ _ _ _ _).mp run
  rw [evaluateBody] at evaluated
  obtain ⟨finished, late, block, attached⟩ := (Running.bind_eq_ok _ _ _ _ _).mp evaluated
  obtain ⟨descriptor, start, described, placed, started, running⟩ := (evaluateBlock_eq_ok _ _ _ _ _).mp block
  obtain ⟨between, ran, rfl, rfl⟩ := (inScope_eq_ok _ _ _).mp running
  have noted : before.noting descriptor true =
      { before with scopes := noteFamily descriptor scope :: outer } := by
    rw [noting, if_pos rfl, mapInnermost, open']
  rw [noted] at ran
  obtain ⟨family, content⟩ : checkFamily scope descriptor = .ok () ∧ inheritedContent scope descriptor = .ok start := by
    rw [startOf, if_pos rfl, openAttached, open'] at started
    obtain ⟨_, family, content⟩ := (Running.attempt_eq_ok _ _ _).mp started
    exact ⟨family, content⟩
  have blocks := (evaluateStatements_runs sound declarations ran).blocks
  generalize ended : between.scopes = scopes at blocks
  cases blocks with
  | inside same =>
    rename_i inner
    simp only [ended, List.tail_cons, List.head?_cons, Option.map_some, Option.getD_some] at attached
    rcases (attach_eq_ok _ _).mp attached with ⟨outside, _⟩ | ⟨_, _, changed, used, parent, bound, rfl⟩
    · cases outside
    · obtain ⟨rfl, rfl⟩ := List.cons.inj parent
      rw [noteFamily_entity, noteFamily_used] at bound
      obtain ⟨position, later, counting⟩ := (countDeclaration_passes counted).innermost rfl
      rw [noteFamily_position] at later
      obtain ⟨kind, _⟩ := startOf_eq_ok started
      exact ⟨descriptor, start, between, inner, changed, used, described, checkPlacement_of_checkPlace open' placed,
        family, content, ran, ended, same.trans kind, bound, position, later, counting⟩

/-- An assignment sets what its name leads to, or it loads the service that has the name. -/
theorem assign_turns {step : Step} {line : Nat} {name : String} {values : Evaluating (List Value)}
    {given : List Value} (declared : step.declaration.name = name)
    (opens : name = nameProperty → step.opens? = openService? step.context line values)
    (evaluated : values step.before = .ok given before)
    (run : assign (Deeper.upTo step.depth) step.context line name given before = .ok () after) :
    ∃ changed, after.scopes = changed :: outer ∧ step.Turns scope outer changed := by
  obtain ⟨_, between, binding, loading⟩ := (Running.bind_eq_ok _ _ _ _ _).mp run
  obtain ⟨_, _, changed, used, scopes, bound, rfl⟩ := (bindName_eq_ok _ _ _).mp binding
  obtain ⟨rfl, rfl⟩ := List.cons.inj (scopes.symm.trans open')
  obtain ⟨value, _, _, assigned, _⟩ := bound_eq_ok_iff.mp bound
  rw [← declared] at assigned
  split at loading
  · rename_i named
    subst named
    rcases (loadService_eq_ok _ _).mp loading with ⟨_, rfl⟩ |
      ⟨_, _, _, loaded, session, entity, found, searched, compiled, kind, set, rfl⟩
    · exact ⟨_, rfl, rfl, Nat.le_refl _, Or.inl ⟨value, assigned⟩⟩
    · obtain ⟨innermost, application, two, service⟩ := serviceDirectory?_eq_some found
      obtain ⟨rfl, rfl⟩ := List.cons.inj two
      obtain ⟨_, setting⟩ := bound_sets bound
      obtain ⟨nested, declarations, opened, later, ready, recipe⟩ :=
        openService?_eq_ok evaluated binding found searched compiled
      have assigns := Entity.setCoerced_assigns (compileNested_kept (Deeper.upTo_sound _) compiled) set
      have loads : step.Loads entity :=
        ⟨loaded, _, ⟨nested, declarations, opened, later, opens rfl ▸ ready, recipe⟩, kind, by decide, assigns⟩
      exact ⟨_, rfl, rfl, Nat.le_refl _,
        Or.inr ⟨(Entity.setProperty_kind setting).symm.trans service, Or.inr (List.cons_ne_nil _ _), loads⟩⟩
  · obtain ⟨_, rfl⟩ := (Running.pure_eq_ok _ _ _ _).mp loading
    exact ⟨_, rfl, rfl, Nat.le_refl _, Or.inl ⟨value, assigned⟩⟩

/-- Extending puts the base in place of a service at its start. -/
theorem extendBase_turns {depth line : Nat} {expressions : List Expression}
    (run : extendBase (Deeper.upTo depth) context line
      (evaluateItems (Deeper.upTo depth) context line expressions) before = .ok () after) :
    ∃ changed, after.scopes = changed :: outer ∧
      Step.Turns ⟨depth, context, .mk extendWord line (.arguments expressions), before⟩ scope outer changed := by
  have sound := Deeper.upTo_sound depth
  obtain ⟨_, _, _, path, base, session, extending, values, resolved, compiled, kind, rfl⟩ :=
    (extendBase_eq_ok _ _ _).mp run
  obtain ⟨_, _, _, scopes, service, first⟩ := extendingKind_eq_ok extending
  obtain ⟨rfl, rfl⟩ := List.cons.inj (open'.symm.trans scopes)
  have there := (evaluateItems_leaves sound expressions values).scopes.trans open'
  have assigns := Entity.addBase_assigns (compileNested_kept sound compiled) kind path.text
  have loads : Step.Loads ⟨depth, context, .mk extendWord line (.arguments expressions), before⟩
      (base.addBase path.text) :=
    ⟨base, _, extendBase_compiles values resolved compiled, kind, by decide, assigns⟩
  refine ⟨{ scope with entity := base.addBase path.text }, ?_, rfl, Nat.le_refl _,
    Or.inr ⟨service, Or.inl first, loads⟩⟩
  simp [extendedBy, mapInnermost, there]

theorem evaluateInPlace_turns {depth : Nat} {declaration : Declaration}
    (value : ∀ declarations, declaration.body ≠ .block declarations)
    (single : spliced? (Deeper.upTo depth) context declaration before = none)
    (run : evaluateInPlace (Deeper.upTo depth) context declaration before = .ok () after) :
    ∃ changed, after.scopes = changed :: outer ∧
      Step.Turns ⟨depth, context, declaration, before⟩ scope outer changed := by
  have sound := Deeper.upTo_sound depth
  obtain ⟨name, line, body⟩ := declaration
  rw [evaluateInPlace_inside (by simp [open']), evaluateStatement] at run
  obtain ⟨_, between, evaluated, counted⟩ := (Running.bind_eq_ok _ _ _ _ _).mp run
  obtain ⟨changed, scopes, turns⟩ : ∃ changed, between.scopes = changed :: outer ∧
      Step.Turns ⟨depth, context, .mk name line body, before⟩ scope outer changed := by
    cases body with
    | block declarations => exact absurd rfl (value declarations)
    | arguments expressions =>
      rw [evaluateBody] at evaluated
      split at evaluated
      · rename_i extend
        subst extend
        exact extendBase_turns open' evaluated
      · rename_i extend
        split at evaluated
        · rename_i load
          obtain ⟨declarations, inside, _, opened, _⟩ := (splice_iff_openFragment line expressions).mp evaluated
          rw [spliced?, if_pos load, opened] at single
          cases single
        · obtain ⟨_, _, items, assigned⟩ := (Running.bind_eq_ok _ _ _ _ _).mp evaluated
          refine assign_turns ((evaluateItems_leaves sound expressions items).scopes.trans open') rfl
            (fun (named : name = nameProperty) => ?_) items assigned
          simp only [Step.opens?, if_neg extend, if_pos named]
    | assignment expression =>
      rw [evaluateBody] at evaluated
      obtain ⟨given, middle, value, assigned⟩ := (Running.bind_eq_ok _ _ _ _ _).mp evaluated
      have values : (do
          let value ← evaluate (Deeper.upTo depth) context line expression
          pure [value] : Evaluating (List Value)) before = .ok [given] middle :=
        (Running.bind_eq_ok _ _ _ _ _).mpr ⟨given, middle, value, rfl⟩
      refine assign_turns ((evaluate_leaves sound expression value).scopes.trans open') rfl
        (fun (named : name = nameProperty) => ?_) values assigned
      simp only [Step.opens?, if_pos named]
  obtain ⟨position, later, ended⟩ := (countDeclaration_passes counted).innermost scopes
  exact ⟨_, ended, turns.exclusive, Nat.le_trans turns.position later, turns.entity⟩

end Block

end Evaluation

end DeployRecipe
