import DeployRecipe.Proofs.Compilation.Declarations

/-!
A service that extends a base. Extending comes first in the block, so it replaces a service at its defaults;
each later declaration changes only the property that its name begins with; and the base is compiled as it
would be alone.
-/

namespace DeployRecipe

namespace Evaluation

variable {deeper : Deeper} {context : RecipeContext} {before after : Evaluation}

/-- What a declaration in the open block of a service may change: the property that its name begins with. -/
def Declares (name : String) (scope : Scope) (after : Evaluation) : Prop :=
  ∃ changed, after.scopes = [changed] ∧ scope.position ≤ changed.position ∧
    scope.entity.Assigns (DottedName.head name) changed.entity

theorem setProperty_extend {entity changed : Entity} {value : Value} (kept : entity.Kept) :
    entity.setProperty extendWord value ≠ .ok changed := by
  intro success
  rcases Entity.setProperty_eq_ok kept success with ⟨shape, _, field, _⟩ | ⟨_, _, slot, _⟩
  · have none : entity.kind.writable? extendWord = none := by cases entity.kind <;> decide
    rw [none] at field
    cases field
  · exact absurd slot (by decide)

/-- No block and no property is named like the word for extending, so what begins with it extends. -/
theorem evaluateInPlace_extend {depth : Nat} {declaration : Declaration} {scope : Scope}
    (open' : before.scopes = [scope]) (kept : scope.entity.Kept) (word : declaration.name = extendWord)
    (run : evaluateInPlace (Deeper.upTo depth) context declaration before = .ok () after) :
    ∃ line expressions, declaration = .mk extendWord line (.arguments expressions) := by
  obtain ⟨name, line, body⟩ := declaration
  obtain rfl : name = extendWord := word
  cases body with
  | arguments expressions => exact ⟨line, expressions, rfl⟩
  | block declarations =>
    obtain ⟨_, _, _, _, _, _, described, _⟩ := evaluateInPlace_block open' (Deeper.upTo_sound depth) run
    cases described
  | assignment expression =>
    obtain ⟨_, _, turns⟩ := evaluateInPlace_turns open' (by rintro _ ⟨⟩) rfl run
    rcases turns.entity with ⟨_, assigned⟩ | ⟨_, _, _, _, ⟨_, _, _, _, opens, _⟩, _⟩
    · obtain ⟨_, set⟩ := Entity.assignPath_segments_sets assigned
      rw [Declaration.name, DottedName.head_of_not_dotted (by decide)] at set
      exact absurd set (setProperty_extend kept)
    · cases opens

/-- A declaration in a service that is not the first one changes the property that its name begins with. -/
theorem evaluateInPlace_declares {depth : Nat} {declaration : Declaration} {scope : Scope}
    (open' : before.scopes = [scope]) (kept : scope.entity.Kept) (later : 0 < scope.position)
    (single : spliced? (Deeper.upTo depth) context declaration before = none)
    (run : evaluateInPlace (Deeper.upTo depth) context declaration before = .ok () after) :
    Declares declaration.name scope after := by
  obtain ⟨name, line, body⟩ := declaration
  cases body with
  | block declarations =>
    obtain ⟨_, _, _, inner, _, _, described, _, _, _, _, _, kind, bound, _, grown, ended⟩ :=
      evaluateInPlace_block open' (Deeper.upTo_sound depth) run
    obtain ⟨set, _⟩ := Entity.bindEntity_eq_ok bound
    have named : inner.entity.kind.elementName = name := by
      rw [kind]
      exact (Registry.describe?_eq_some described).2
    refine ⟨_, ended, grown, ?_⟩
    rw [Declaration.name, ← named, head_elementName]
    exact Entity.setProperty_assigns kept set
  | arguments | assignment =>
    obtain ⟨changed, ended, turns⟩ := evaluateInPlace_turns open' (by rintro _ ⟨⟩) single run
    rcases turns.entity with ⟨_, assigned⟩ | ⟨_, first | inside, _⟩
    · obtain ⟨_, set⟩ := Entity.assignPath_segments_sets assigned
      exact ⟨changed, ended, turns.position, Entity.setProperty_assigns kept set⟩
    · omega
    · exact absurd rfl inside

/-- The open service holds what an entity holds, except under some names, and extending is past. -/
def Agrees (entity : Entity) (free : String → Prop) (state : Evaluation) : Prop :=
  ∃ scope, state.scopes = [scope] ∧ 0 < scope.position ∧ scope.entity.Kept ∧
    scope.entity.kind = .service ∧ ∀ name, free name → scope.entity.property? name = entity.property? name

theorem Passes.agrees {entity : Entity} {free : String → Prop} (passes : Passes before after)
    (agrees : Agrees entity free before) : Agrees entity free after := by
  obtain ⟨scope, scopes, later, kept, service, same⟩ := agrees
  obtain ⟨_, grown, ended⟩ := passes.innermost scopes
  exact ⟨_, ended, Nat.lt_of_lt_of_le later grown, kept, service, same⟩

/-- Steps that assign no free name leave the free ones as they were. -/
theorem Linked.agrees {entity : Entity} {free : String → Prop} {list : List Step}
    (linked : Linked context before list after) (agrees : Agrees entity free before)
    (aside : ∀ step ∈ list, ¬ free (DottedName.head step.declaration.name)) : Agrees entity free after := by
  induction linked with
  | done passes => exact passes.agrees agrees
  | step passes single run _ inductionHypothesis =>
    obtain ⟨scope, scopes, later, kept, service, same⟩ := passes.agrees agrees
    obtain ⟨changed, scopes', position, assigns⟩ :=
      evaluateInPlace_declares scopes kept later single run
    refine inductionHypothesis ⟨changed, scopes', Nat.lt_of_lt_of_le later position, assigns.kept,
      assigns.kind.trans service, ?_⟩ fun step member => aside step (List.mem_cons_of_mem _ member)
    intro name free'
    rw [← same name free']
    apply assigns.others
    rw [service]
    rintro rfl
    exact aside _ List.mem_cons_self free'

/-- A step that extends: it resolves the base to a path, and the nested compilation of the base gives an
entity. -/
def Step.Extends (step : Step) (base : Path) (entity : Entity) : Prop :=
  ∃ line expressions reference between after,
    step.declaration = .mk extendWord line (.arguments expressions) ∧
    evaluateItems (Deeper.upTo step.depth) step.context line expressions step.before =
      .ok [.text reference] between ∧
    BaseReference.resolve step.context.job.files reference (between.currentDirectory step.context)
      step.context.job.settings.searchRoots = .ok base ∧
    compileNested (Deeper.upTo step.depth) step.context.job base
      (.inherited step.context.environment.inheritable) between.session = .ok entity after

/-- A block may only extend while it is a service at its defaults, and then it is the base with its path. -/
theorem evaluateInPlace_extends {depth : Nat} {kind : EntityKind} {declaration : Declaration}
    {inside : Evaluation} (open' : inside.scopes = [.opening (.fresh kind)]) (passes : Passes inside before)
    (word : declaration.name = extendWord)
    (run : evaluateInPlace (Deeper.upTo depth) context declaration before = .ok () after) :
    before.scopes = [.opening (.fresh .service)] ∧
      ∃ base entity, Step.Extends ⟨depth, context, declaration, before⟩ base entity ∧ entity.Kept ∧
        entity.kind = .service ∧ after.scopes = [⟨entity.addBase base.text, [], 1, none⟩] := by
  have sound := Deeper.upTo_sound depth
  obtain ⟨position, _, begun⟩ := passes.innermost open'
  obtain ⟨line, expressions, rfl⟩ := evaluateInPlace_extend begun (Entity.kept_fresh kind) word run
  rw [evaluateInPlace_inside (by simp [begun]), evaluateStatement] at run
  obtain ⟨_, middle, evaluated, counted⟩ := (Running.bind_eq_ok _ _ _ _ _).mp run
  rw [evaluateBody, if_pos rfl] at evaluated
  obtain ⟨_, reference, between, path, base, session, extending, values, resolved, compiled, service, rfl⟩ :=
    (extendBase_eq_ok _ _ _).mp evaluated
  obtain ⟨_, scope, outer, scopes, kind', first⟩ := extendingKind_eq_ok extending
  rw [begun] at scopes
  obtain ⟨rfl, rfl⟩ := List.cons.inj scopes
  obtain rfl : kind = .service := kind'
  obtain rfl : position = 0 := first
  have extending' :
      Step.Extends ⟨depth, context, .mk extendWord line (.arguments expressions), before⟩ path base :=
    ⟨line, expressions, reference, between, session, rfl, values, resolved, compiled⟩
  refine ⟨begun, path, base, extending', compileNested_kept sound compiled, service, ?_⟩
  obtain rfl := (Running.modify_eq_ok _ _ _ _).mp counted
  have there := (evaluateItems_leaves sound expressions values).scopes.trans begun
  simp [extendedBy, mapInnermost, there, Scope.opening]

/-- A service that is a base with its path agrees with the base but for the lineage. -/
theorem agrees_of_addBase {entity : Entity} (kept : entity.Kept) (service : entity.kind = .service) {base : String}
    (scopes : after.scopes = [⟨entity.addBase base, [], 1, none⟩]) :
    Agrees entity (fun name => name ≠ Entity.lineageSlot) after := by
  have assigns := Entity.addBase_assigns kept service base
  refine ⟨_, scopes, Nat.one_pos, assigns.kept, assigns.kind.trans service, fun name differs => ?_⟩
  apply assigns.others
  rw [service]
  exact differs

/-- A root block that begins with a base copies it: it extended a service at its defaults, and whatever no
later declaration begins with is as in the base. -/
theorem evaluateRecipe_extends {depth : Nat} {declarations : List Declaration} {session last : Session}
    {root : Entity} {extension : Step} {later : List Step}
    (run : evaluateRecipe (Deeper.upTo depth) context declarations session = .ok root last)
    (begins : rootSteps depth context declarations session = extension :: later)
    (word : extension.declaration.name = extendWord) :
    extension.before.scopes = [.opening (.fresh .service)] ∧
      ∃ base entity, extension.Extends base entity ∧
        ∀ name, name ≠ Entity.lineageSlot →
          (∀ step ∈ later, DottedName.head step.declaration.name ≠ name) →
            root.property? name = entity.property? name := by
  obtain ⟨kind, inside, finished, scope, linked, open', ended, rfl⟩ := rootSteps_linked run begins
  cases linked with
  | step passes single run linked =>
    rename_i next _ _
    obtain ⟨scopes, base, entity, extending, whole, service, ended'⟩ :=
      evaluateInPlace_extends open' passes word run
    refine ⟨scopes, base, entity, extending, fun name differs aside => ?_⟩
    obtain ⟨scope', open'', position, kept, service, same⟩ := agrees_of_addBase whole service ended'
    have agrees : Agrees entity (fun other => other = name) next := by
      refine ⟨scope', open'', position, kept, service, ?_⟩
      intro other equal
      rw [equal]
      exact same name differs
    obtain ⟨scope'', finally', _, _, _, agreed⟩ := linked.agrees agrees aside
    rw [ended] at finally'
    obtain ⟨rfl, _⟩ := List.cons.inj finally'
    exact agreed name rfl

end Evaluation

namespace Compiled

/-- What is compiled is what the text evaluates to, with the files that were read on the way. -/
theorem ofText_evaluates {job : Job} {path : Path} {text : String} {compiled : Compiled}
    (success : ofText job path text = .ok compiled) :
    ∃ session, job.evaluate path text Session.empty = .ok compiled.root session ∧ compiled.file = path ∧
      compiled.sources = session.sources := by
  rw [ofText] at success
  cases evaluated : job.evaluate path text Session.empty with
  | error error session =>
    rw [evaluated] at success
    cases success
  | ok root session =>
    rw [evaluated] at success
    dsimp only at success
    split at success
    · split at success
      · obtain rfl := Except.ok.inj success
        exact ⟨session, rfl, rfl, rfl⟩
      · cases success
    · obtain rfl := Except.ok.inj success
      exact ⟨session, rfl, rfl, rfl⟩

theorem ofText_eq_ok {job : Job} {path : Path} {text : String} {compiled : Compiled}
    (success : ofText job path text = .ok compiled) :
    ∃ session, job.evaluate path text Session.empty = .ok compiled.root session := by
  obtain ⟨session, evaluated, _⟩ := ofText_evaluates success
  exact ⟨session, evaluated⟩

/-- A file that compiles is the text at its absolute path. -/
theorem ofFile_eq_ok {job : Job} {path : Path} {compiled : Compiled} (success : ofFile job path = .ok compiled) :
    ∃ text, job.files.canonical path = .ok compiled.file ∧ job.files.readText compiled.file = .ok text ∧
      ofText job compiled.file text = .ok compiled := by
  rw [ofFile] at success
  split at success
  · split at success
    · cases success
    · rename_i file found
      obtain ⟨text, read, compiles⟩ := (Running.attempt_eq_ok _ _ _).mp success
      obtain ⟨_, _, rfl, _⟩ := ofText_evaluates compiles
      exact ⟨text, found, read, compiles⟩
  · cases success

/-- A file that compiles is opened with its own text and then evaluated. -/
theorem ofFile_evaluates {job : Job} {path : Path} {compiled : Compiled} (success : ofFile job path = .ok compiled) :
    ∃ text context declarations session last, job.files.canonical path = .ok compiled.file ∧
      job.files.readText compiled.file = .ok text ∧
      job.opening compiled.file text Session.empty = .ok (context, declarations) session ∧
      Evaluation.evaluateRecipe (Deeper.upTo job.depth) context declarations session = .ok compiled.root last ∧
      compiled.sources = last.sources := by
  obtain ⟨text, found, read, compiles⟩ := ofFile_eq_ok success
  obtain ⟨last, evaluated, _, sources⟩ := ofText_evaluates compiles
  obtain ⟨context, declarations, session, opened, run⟩ := (Job.evaluate_eq_ok _ _ _ _ _ _).mp evaluated
  exact ⟨text, context, declarations, session, last, found, read, opened, run, sources⟩

end Compiled

namespace Job

open Evaluation (Step)

variable {job : Job} {path : Path} {text : String} {first : Step} {rest : List Step}

theorem rootSteps_eq_cons (begins : job.rootSteps path text = first :: rest) :
    ∃ context declarations session,
      job.opening path text Session.empty = .ok (context, declarations) session ∧
      Evaluation.rootSteps job.depth context declarations session = first :: rest := by
  rw [rootSteps] at begins
  cases opened : job.opening path text Session.empty with
  | error error session =>
    rw [opened] at begins
    cases begins
  | ok pair session =>
    obtain ⟨context, declarations⟩ := pair
    rw [opened] at begins
    exact ⟨context, declarations, session, rfl, begins⟩

end Job

end DeployRecipe
