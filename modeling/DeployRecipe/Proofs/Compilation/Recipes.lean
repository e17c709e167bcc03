import DeployRecipe.Proofs.Compilation.Steps

/-!
The recipes that a recipe leads to: the base that a service extends, and the service that a directory next to
an application holds.
-/

namespace DeployRecipe

namespace Evaluation

variable {deeper : Deeper} {context : RecipeContext} {before after : Evaluation}

/-- Gets ready to evaluate the declarations of a recipe that another one leads to. -/
def openNested (job : Job) (path : Path) (handover : Handover) :
    Compiling (RecipeContext × List Declaration) := do
  Session.enter path
  let declarations ← Session.parseFile job path
  let environment ← Session.recording ((handover.inputs job path).build job.files)
  pure (⟨job, path, environment⟩, declarations)

theorem openNested_eq_ok {job : Job} {path : Path} {handover : Handover} {before after : Session}
    {nested : RecipeContext} {declarations : List Declaration}
    (opened : openNested job path handover before = .ok (nested, declarations) after) :
    nested.job = job ∧ nested.recipeFile = path ∧
      ∃ sources, Running.Gives ((handover.inputs job path).build job.files) sources nested.environment := by
  simp only [openNested, Running.bind_eq_ok, Session.recording_eq_ok, Running.pure_eq_ok] at opened
  obtain ⟨_, _, _, _, parsed, _, environment, _, ⟨sources, built, rfl⟩, same, rfl⟩ := opened
  obtain ⟨rfl, rfl⟩ := Prod.mk.inj same
  exact ⟨rfl, rfl, parsed.sources, sources, built⟩

/-- To compile a recipe that another one leads to is to get ready, to evaluate it, and to leave it. -/
theorem compileNested_iff_openNested {job : Job} {path : Path} {handover : Handover} {session later : Session}
    {entity : Entity} :
    compileNested deeper job path handover session = .ok entity later ↔
      ∃ nested declarations between inner,
        openNested job path handover session = .ok (nested, declarations) between ∧
        deeper.recipe nested declarations between = .ok entity inner ∧ later = inner.leave := by
  rw [compileNested_eq_ok]
  simp only [openNested, Running.bind_eq_ok, Session.enter_eq_ok, Session.recording_eq_ok, Running.pure_eq_ok]
  constructor
  · rintro ⟨free, declarations, parsed, environment, sources, inner, parsing, built, run, rfl⟩
    exact ⟨_, _, _, inner, ⟨(), _, ⟨free, rfl⟩, declarations, parsed, parsing, environment, _,
      ⟨sources, built, rfl⟩, rfl, rfl⟩, run, rfl⟩
  · rintro ⟨_, _, _, inner, ⟨_, _, ⟨free, rfl⟩, declarations, parsed, parsing, environment, _,
      ⟨sources, built, rfl⟩, same, rfl⟩, run, rfl⟩
    obtain ⟨rfl, rfl⟩ := Prod.mk.inj same
    exact ⟨free, declarations, parsed, environment, sources, inner, parsing, built, run, rfl⟩

/-- Gets ready to evaluate the base that a block extends. -/
def openBase (context : RecipeContext) (line : Nat) (values : Evaluating (List Value)) :
    Evaluating (RecipeContext × List Declaration) := do
  let reference ← onePath context line .service extendWord (← values)
  let directory := (← get).currentDirectory context
  let path ← demand context line
    (BaseReference.resolve context.job.files reference directory context.job.settings.searchRoots)
  inSession (openNested context.job path (.inherited context.environment.inheritable))

/-- Gets ready to evaluate the service that a directory holds, if the name that a service of an application is
given is that of one. -/
def openService? (context : RecipeContext) (line : Nat) (values : Evaluating (List Value)) :
    Evaluating (Option (RecipeContext × List Declaration)) := do
  bindName context line nameProperty (← values)
  match (← get).serviceDirectory? context with
  | none => pure none
  | some (_, directory) => do
    let path ← demand context line
      (context.job.files.theFileEndingIn directory RecipeKind.service.suffix)
    let opened ← inSession (openNested context.job path (.external context.environment.inheritable))
    pure (some opened)

namespace Step

/-- Gets ready to evaluate the recipe that the step leads to, if it leads to one. -/
def opens? (step : Step) : Evaluating (Option (RecipeContext × List Declaration)) :=
  let deeper := Deeper.upTo step.depth
  match step.declaration with
  | .mk _ _ (.block _) => pure none
  | .mk name line (.arguments expressions) =>
    let values := evaluateItems deeper step.context line expressions
    if name = extendWord then do
      let opened ← openBase step.context line values
      pure (some opened)
    else if name = nameProperty then openService? step.context line values
    else pure none
  | .mk name line (.assignment expression) =>
    if name = nameProperty then
      openService? step.context line do
        let value ← evaluate deeper step.context line expression
        pure [value]
    else pure none

/-- The step leads to a recipe that is compiled to an entity. -/
def Compiles (step : Step) (entity : Entity) : Prop :=
  ∃ nested declarations between later,
    step.opens? step.before = .ok (some (nested, declarations)) between ∧
    (Deeper.upTo step.depth).recipe nested declarations between.session = .ok entity later

/-- The steps of the root block of the recipe that the step leads to. -/
def recipe? (step : Step) : Option (List Step) :=
  match step.opens? step.before with
  | .ok (some (nested, declarations)) between =>
    some (rootSteps (step.depth - 1) nested declarations between.session)
  | _ => none

theorem Compiles.recipe? {step : Step} {entity : Entity} (compiles : step.Compiles entity) :
    ∃ depth nested declarations session later, step.depth = depth + 1 ∧
      evaluateRecipe (Deeper.upTo depth) nested declarations session = .ok entity later ∧
      step.recipe? = some (rootSteps depth nested declarations session) := by
  obtain ⟨nested, declarations, between, later, opened, run⟩ := compiles
  cases deep : step.depth with
  | zero =>
    rw [deep] at run
    exact absurd run (Running.throw_ne_ok _ _ _ _)
  | succ depth =>
    rw [deep] at run
    exact ⟨depth, nested, declarations, between.session, later, rfl, run, by simp [Step.recipe?, opened, deep]⟩

end Step

/-- A service that extends a base gets ready to evaluate it. -/
theorem opens?_extend {depth line : Nat} {expressions : List Expression} {between : Evaluation}
    {reference : String} {path : Path} {nested : RecipeContext} {declarations : List Declaration} {opened : Session}
    (values : evaluateItems (Deeper.upTo depth) context line expressions before = .ok [.text reference] between)
    (resolved : BaseReference.resolve context.job.files reference (between.currentDirectory context)
      context.job.settings.searchRoots = .ok path)
    (ready : openNested context.job path (.inherited context.environment.inheritable) between.session =
      .ok (nested, declarations) opened) :
    Step.opens? ⟨depth, context, .mk extendWord line (.arguments expressions), before⟩ before =
      .ok (some (nested, declarations)) { between with session := opened } := by
  simp only [Step.opens?, if_true, openBase, Running.bind_eq_ok, onePath_eq_ok, Running.get_eq_ok, demand_eq_ok,
    inSession_eq_ok, Running.pure_eq_ok]
  exact ⟨_, _, ⟨_, between, values, reference, between, ⟨rfl, rfl⟩, between, between, ⟨rfl, rfl⟩, path, between,
    ⟨resolved, rfl⟩, opened, ready, rfl⟩, rfl, rfl⟩

/-- A service that extends a base leads to it. -/
theorem extendBase_compiles {depth line : Nat} {expressions : List Expression} {between : Evaluation}
    {reference : String} {path : Path} {base : Entity} {session : Session}
    (values : evaluateItems (Deeper.upTo depth) context line expressions before = .ok [.text reference] between)
    (resolved : BaseReference.resolve context.job.files reference (between.currentDirectory context)
      context.job.settings.searchRoots = .ok path)
    (compiled : compileNested (Deeper.upTo depth) context.job path (.inherited context.environment.inheritable)
      between.session = .ok base session) :
    Step.Compiles ⟨depth, context, .mk extendWord line (.arguments expressions), before⟩ base := by
  obtain ⟨nested, declarations, opened, inner, ready, run, _⟩ := compileNested_iff_openNested.mp compiled
  exact ⟨nested, declarations, { between with session := opened }, inner, opens?_extend values resolved ready, run⟩

section Services

variable {line : Nat} {values : Evaluating (List Value)} {given : List Value} {between named : Evaluation}
  (evaluated : values before = .ok given between)
  (binding : bindName context line nameProperty given between = .ok () named)
include evaluated binding

/-- A service that is not named like a directory next to its application leads to no recipe. -/
theorem openService?_of_none (nowhere : named.serviceDirectory? context = none) :
    openService? context line values before = .ok none named := by
  rw [openService?]
  refine (Running.bind_eq_ok _ _ _ _ _).mpr ⟨given, between, evaluated, ?_⟩
  refine (Running.bind_eq_ok _ _ _ _ _).mpr ⟨(), named, binding, ?_⟩
  rw [Running.get_bind, nowhere]
  rfl

variable {name : String} {directory path : Path} (found : named.serviceDirectory? context = some (name, directory))
  (searched : context.job.files.theFileEndingIn directory RecipeKind.service.suffix = .ok path)
include found searched

/-- A service that is named like a directory next to its application gets ready to evaluate the recipe in it. -/
theorem openService?_of_openNested {nested : RecipeContext} {declarations : List Declaration} {session : Session}
    (ready : openNested context.job path (.external context.environment.inheritable) named.session =
      .ok (nested, declarations) session) :
    openService? context line values before = .ok (some (nested, declarations)) { named with session } := by
  rw [openService?]
  refine (Running.bind_eq_ok _ _ _ _ _).mpr ⟨given, between, evaluated, ?_⟩
  refine (Running.bind_eq_ok _ _ _ _ _).mpr ⟨(), named, binding, ?_⟩
  rw [Running.get_bind, found]
  simp only [Running.bind_eq_ok, demand_eq_ok, inSession_eq_ok, Running.pure_eq_ok]
  exact ⟨path, named, ⟨searched, rfl⟩, _, _, ⟨session, ready, rfl⟩, rfl, rfl⟩

/-- A service that is named like a directory next to its application leads to the recipe in it. -/
theorem openService?_eq_ok {depth : Nat} {loaded : Entity} {session : Session}
    (compiled : compileNested (Deeper.upTo depth) context.job path (.external context.environment.inheritable)
      named.session = .ok loaded session) :
    ∃ nested declarations opened later,
      openService? context line values before = .ok (some (nested, declarations)) opened ∧
      (Deeper.upTo depth).recipe nested declarations opened.session = .ok loaded later := by
  obtain ⟨nested, declarations, opened, inner, ready, run, _⟩ := compileNested_iff_openNested.mp compiled
  exact ⟨nested, declarations, { named with session := opened }, inner,
    openService?_of_openNested evaluated binding found searched ready, run⟩

end Services

end Evaluation

end DeployRecipe
