import DeployRecipe.Proofs.Compilation.Extension
import DeployRecipe.Proofs.Environment.Inheritance

/-!
A base that is compiled from another recipe, beside the same base compiled alone. A recipe without files or
values of its own hands down a table that is like the defaults, so both compilations give the same entity.
-/

namespace DeployRecipe

theorem RecipeContext.Alike.refl {job : Job} {path : Path} {environment : Environment} {before : Sources}
    {inputs : EnvironmentInputs} (built : Running.Gives (inputs.build job.files) before environment) :
    RecipeContext.Alike ⟨job, path, environment⟩ ⟨job, path, environment⟩ := by
  obtain ⟨layers, _, rfl⟩ := EnvironmentInputs.build_gives.mp built
  exact ⟨rfl, rfl, rfl, rfl, .refl layers⟩

namespace Evaluation

variable {context : RecipeContext} {own : Path} {before after : Evaluation}

/-- The state of a compilation that is inside of its own recipe, where what was parsed was read. -/
structure Loyal (files : FileTree) (own : Path) (state : Evaluation) : Prop where
  faithful : state.session.Faithful files own
  own : ∃ path ∈ state.session.active, path.same own = true

theorem Loyal.twins (loyal : Loyal context.job.files own before) (proper : context.job.files.Proper)
    (alike : context.Alike context) :
    Twins own before.session.active before.session.active context context :=
  ⟨proper, ⟨loyal.own, fun _ inside => inside⟩, alike⟩

/-- What follows itself keeps a state loyal. -/
theorem Loyal.kept {α : Type} {step : Evaluating α} {result : α} {files : FileTree}
    (loyal : Loyal files own before)
    (follows : Running.Follows
      (Beside files own before.session.active before.session.active)
      (Beside files own before.session.active before.session.active) step step)
    (run : step before = .ok result after) : Loyal files own after := by
  obtain ⟨last, again, session, rfl, beside⟩ :=
    follows ⟨before.session, rfl, rfl, rfl, loyal.faithful, loyal.faithful⟩ run
  exact ⟨beside.faithful, beside.active ▸ loyal.own⟩

theorem Loyal.beside {files : FileTree} (loyal : Loyal files own before) :
    before.session.Beside files own before.session.active before.session.active before.session :=
  ⟨rfl, rfl, loyal.faithful, loyal.faithful⟩

/-- To evaluate expressions keeps a state loyal. -/
theorem Loyal.items (loyal : Loyal context.job.files own before) (proper : context.job.files.Proper)
    (alike : context.Alike context) {depth line : Nat} {expressions : List Expression} {values : List Value}
    (run : evaluateItems (Deeper.upTo depth) context line expressions before = .ok values after) :
    Loyal context.job.files own after :=
  loyal.kept (evaluateItems_follows (Deeper.upTo_follows own (Nat.le_refl depth)) (loyal.twins proper alike)
    line expressions) run

/-- Declarations keep a state loyal, also where they lead into a fragment. -/
theorem invariant_loyal (proper : context.job.files.Proper) (alike : context.Alike context) (own : Path)
    (depth : Nat) : Invariant context (Loyal context.job.files own) depth where
  after loyal run :=
    loyal.kept (evaluateInPlace_follows (Deeper.upTo_follows own (Nat.le_refl depth))
      (loyal.twins proper alike) _) run
  inside := by
    intro line expressions before declarations inside loyal run
    obtain ⟨relative, between, path, session, evaluated, named, free, parsing, rfl⟩ :=
      (openFragment_eq_ok _ _ _).mp run
    have middle := loyal.items proper alike evaluated
    have twins := middle.twins proper alike
    obtain ⟨_, foreign, entered⟩ := middle.beside.enter twins.enclosing free
    obtain ⟨_, _, read⟩ :=
      entered.parseFile rfl (FileTree.reads_of_canonical proper named.2) foreign parsing
    refine ⟨read.faithful, ?_⟩
    rw [entering, read.active]
    exact (twins.enclosing.push path).own

end Evaluation

namespace Job

open Evaluation (Step Loyal)

variable {job : Job} {path : Path} {text : String} {first : Step} {rest : List Step}

/-- A recipe that was just parsed stands for its own text. -/
theorem loyal_start (files : FileTree) (path : Path) (declarations : List Declaration) (sources : Sources) :
    Loyal files path (.start ⟨[(path, declarations)], [path], sources⟩) := by
  refine ⟨?_, path, List.mem_cons_self, Path.same_self path⟩
  intro other found known foreign
  have split := Session.parsed?_cons ⟨[], [path], sources⟩ path declarations other
  rw [Evaluation.start, split] at known
  split at known
  · rename_i same
    rw [Path.same_symm same] at foreign
    cases foreign
  · cases known

/-- The first step of the root block stands in the recipe's own context, in a loyal state. -/
theorem rootSteps_loyal (proper : job.files.Proper) (begins : job.rootSteps path text = first :: rest) :
    ∃ environment, Running.Gives ((job.inputs path).build job.files) (Sources.record [] path text) environment ∧
      first.context = ⟨job, path, environment⟩ ∧ first.depth ≤ job.depth ∧
      Loyal job.files path first.before := by
  obtain ⟨_, declarations, _, opened, steps'⟩ := rootSteps_eq_cons begins
  obtain ⟨environment, sources, _, built, rfl, rfl⟩ := (opening_eq_ok _ _ _ _ _ _).mp opened
  obtain ⟨above, root, below, steps, inner⟩ := Evaluation.rootSteps_eq_cons steps'
  have invariant (depth : Nat) : Evaluation.Invariant ⟨job, path, environment⟩ (Loyal job.files path) depth :=
    Evaluation.invariant_loyal proper (.refl ⟨sources, built⟩) path depth
  have member : root ∈ Evaluation.steps job.depth ⟨job, path, environment⟩ declarations
      (.start ⟨[(path, declarations)], [path], sources⟩) := by
    rw [steps]
    exact List.mem_append_right _ List.mem_cons_self
  obtain ⟨same, within, loyal⟩ :=
    Evaluation.of_mem_steps job.depth invariant (loyal_start job.files path declarations sources) member
  obtain ⟨_, _, content, descriptor, _, _, list⟩ := Step.inner?_eq_some inner
  rw [same] at list
  have inside : Loyal job.files path
      { root.before with scopes := .opening (.fresh descriptor.kind) :: root.before.scopes } :=
    ⟨loyal.faithful, loyal.own⟩
  obtain ⟨here, deep, before⟩ :=
    Evaluation.of_mem_steps root.depth invariant inside (list ▸ List.mem_cons_self : first ∈ _)
  exact ⟨environment, ⟨sources, built⟩, here, deep.trans within, before⟩

/-- The recipe has no properties file, no overrides and no external values. -/
structure OwnsNothing (job : Job) (path : Path) : Prop where
  properties : (job.inputs path).propertiesPath? job.files = none
  overrides : (job.inputs path).overridesText? job.files = .ok none
  external : job.external = none

theorem OwnsNothing.propertiesFile (own : job.OwnsNothing path) : job.propertiesFile = none := by
  have nothing := own.properties
  rw [EnvironmentInputs.propertiesPath?] at nothing
  cases found : job.propertiesFile with
  | none => rfl
  | some file => simp [inputs, found] at nothing

theorem OwnsNothing.noOverrides (own : job.OwnsNothing path) : job.overrides = none := by
  have nothing := own.overrides
  cases found : job.overrides with
  | none => rfl
  | some overrides =>
    cases overrides with
    | script text => simp [EnvironmentInputs.overridesText?, inputs, found] at nothing
    | file file =>
      simp only [EnvironmentInputs.overridesText?, inputs, found] at nothing
      obtain ⟨text, _, same⟩ := (Running.map_eq_ok _ _ _).mp nothing
      cases same

/-- Such a recipe hands down the defaults. -/
theorem OwnsNothing.inheritable (own : job.OwnsNothing path) {environment : Environment} {before : Sources}
    (built : Running.Gives ((job.inputs path).build job.files) before environment) :
    environment.inheritable = (Environment.ofLayers [⟨.defaults, job.settings.defaults⟩]).merged := by
  obtain ⟨_, built⟩ := built
  rw [EnvironmentInputs.OwnsNoFiles.build_eq ⟨own.properties, own.overrides⟩] at built
  cases built
  rw [Environment.inheritable_ofLayers, EnvironmentInputs.layers]
  simp [inputs, own.external]

/-- The base of such a recipe gets an environment like that of the base alone. -/
theorem OwnsNothing.inputs_alike (own : job.OwnsNothing path) {environment : Environment} {before : Sources}
    (built : Running.Gives ((job.inputs path).build job.files) before environment) (base : Path) :
    ((Evaluation.Handover.inherited environment.inheritable).inputs job base).Alike
      (inputs { job with validate := some false } base) := by
  have given : (Environment.ofLayers
      [⟨.defaults, job.settings.defaults⟩, ⟨.inherited, environment.inheritable⟩]).Alike
        (.ofLayers [⟨.defaults, job.settings.defaults⟩]) := by
    have ordered := Environment.ordered_merged [⟨.defaults, job.settings.defaults⟩]
    have lower : (Environment.ofLayers [⟨.defaults, job.settings.defaults⟩]).inheritable =
        (Environment.ofLayers [⟨.defaults, job.settings.defaults⟩]).merged :=
      Environment.inheritable_ofLayers _
    have laid : Environment.ofLayers
        [⟨.defaults, job.settings.defaults⟩, ⟨.inherited, environment.inheritable⟩] =
          (Environment.ofLayers [⟨.defaults, job.settings.defaults⟩]).push
            ⟨.inherited, environment.inheritable⟩ := rfl
    rw [laid, own.inheritable built]
    refine ⟨Table.overwriteAll_self ordered, ?_⟩
    rw [Environment.inheritable_push, if_neg (by simp), lower]
    exact Table.overwriteAll_self ordered
  refine ⟨rfl, own.propertiesFile.symm, own.noOverrides.symm, rfl, rfl, given, ?_⟩
  dsimp only [inputs, Evaluation.Handover.inputs]
  rw [own.external]
  exact .none

/-- Without validation, the file of a recipe compiles to what its text evaluates to. -/
theorem ofFile_of_evaluate (job : Job) (proper : job.files.Proper) (quiet : job.validate = some false)
    {file base : Path} {content : String} {root : Entity} {last : Session}
    (leads : job.files.canonical file = .ok base)
    (read : job.files.readText base = .ok content)
    (evaluated : job.evaluate base content Session.empty = .ok root last) :
    Compiled.ofFile job file = .ok ⟨root, base, last.sources⟩ := by
  obtain ⟨there, _⟩ := FileTree.canonical_of_readText proper leads read
  rw [Compiled.ofFile, if_pos there, leads]
  refine (Running.attempt_eq_ok _ _ _).mpr ⟨content, read, ?_⟩
  rw [Compiled.ofText, evaluated]
  simp [quiet]

/-- The nested compilation of the base of such a recipe gives what the base gives alone. -/
theorem OwnsNothing.alone (own : job.OwnsNothing path) (proper : job.files.Proper)
    (begins : job.rootSteps path text = first :: rest) {base : Path} {entity : Entity}
    (extends' : first.Extends base entity) :
    job.files.canonical base = .ok base ∧
      ∀ file, job.files.canonical file = .ok base →
        ∃ compiled, Compiled.ofFile { job with validate := some false } file = .ok compiled ∧
          compiled.root = entity := by
  obtain ⟨environment, built, here, deep, loyal⟩ := rootSteps_loyal proper begins
  obtain ⟨line, expressions, reference, between, after, _, values, resolved, nested⟩ := extends'
  obtain ⟨depth, context, declaration, before⟩ := first
  obtain rfl : context = _ := here
  have self : RecipeContext.Alike ⟨job, path, environment⟩ ⟨job, path, environment⟩ := .refl built
  have middle : Loyal job.files path between := loyal.items proper self values
  have twins := middle.twins proper self
  -- What the nested compilation parses is what the base file holds.
  obtain ⟨free, declarations, parsed, lower, sources, inner, parsing, laid, recipe, rfl⟩ :=
    (Evaluation.compileNested_eq_ok _ _ _ _ _ _ _).mp nested
  obtain ⟨_, foreign, entered⟩ := middle.beside.enter twins.enclosing free
  obtain ⟨candidate, found⟩ := Evaluation.resolve_eq_ok resolved
  obtain ⟨⟨content, read, declared⟩, faithful, active⟩ :=
    entered.faithful.parseFile (FileTree.reads_of_canonical proper found) foreign parsing
  obtain ⟨upper, ⟨sources', laid'⟩, alike⟩ := EnvironmentInputs.build_alike (own.inputs_alike built base)
    ⟨_, laid⟩ (Sources.record [] base content)
  have twins' : Twins path (base :: between.session.active) [base] ⟨job, base, lower⟩
      ⟨{ job with validate := some false }, base, upper⟩ := by
    refine ⟨proper, ⟨(twins.enclosing.push base).own, ?_⟩, rfl, rfl, rfl, rfl, alike⟩
    intro other inside
    rw [List.any_cons, List.any_nil, Bool.or_false] at inside
    rw [List.any_cons, inside, Bool.true_or]
  have start : Session.Beside job.files path (base :: between.session.active) [base] { parsed with sources }
      ⟨[(base, declarations)], [base], sources'⟩ := by
    have nothing : Session.Faithful job.files path ⟨[], [base], []⟩ := by
      intro other found known
      cases known
    exact ⟨active, rfl, faithful, nothing.add read declared sources'⟩
  cases depth with
  | zero => exact absurd recipe (Running.throw_ne_ok _ _ _ _)
  | succ depth =>
    have follows := Deeper.upTo_follows path (Nat.le_of_succ_le deep)
    obtain ⟨last, run, _⟩ := Evaluation.evaluateRecipe_follows follows twins' declarations start recipe
    have opened := (opening_eq_ok { job with validate := some false } base content _ declarations _).mpr
      ⟨upper, sources', declared, laid', rfl, rfl⟩
    have evaluated := (evaluate_eq_ok { job with validate := some false } base content _ _ _).mpr
      ⟨_, _, _, opened, run⟩
    refine ⟨(FileTree.canonical_of_readText proper found read).2, fun file leads => ?_⟩
    exact ⟨⟨entity, base, last.sources⟩,
      ofFile_of_evaluate { job with validate := some false } proper rfl leads read evaluated, rfl⟩

end Job

namespace Compiled

open Evaluation (Step)

/-- A recipe whose root block begins with a base extends a service at its defaults, and whatever no later
declaration begins with is as in the base. The base of a recipe that owns nothing is the base compiled alone. -/
theorem ofText_extends {job : Job} {path : Path} {text : String} {compiled : Compiled} {extension : Step}
    {later : List Step} (success : ofText job path text = .ok compiled)
    (begins : job.rootSteps path text = extension :: later)
    (word : extension.declaration.name = Evaluation.extendWord) :
    extension.before.scopes = [.opening (.fresh .service)] ∧
      ∃ base entity, extension.Extends base entity ∧
        (∀ name, name ≠ Entity.lineageSlot →
          (∀ step ∈ later, DottedName.head step.declaration.name ≠ name) →
            compiled.root.property? name = entity.property? name) ∧
        (job.OwnsNothing path → job.files.Proper →
          job.files.canonical base = .ok base ∧
            ∀ file, job.files.canonical file = .ok base →
              ∃ alone, ofFile { job with validate := some false } file = .ok alone ∧ alone.root = entity) := by
  obtain ⟨last, evaluated⟩ := ofText_eq_ok success
  obtain ⟨context, declarations, session, opened, run⟩ := (Job.evaluate_eq_ok _ _ _ _ _ _).mp evaluated
  obtain ⟨_, _, _, opened', begins'⟩ := Job.rootSteps_eq_cons begins
  rw [opened] at opened'
  cases opened'
  obtain ⟨scopes, base, entity, extending, same⟩ := Evaluation.evaluateRecipe_extends run begins' word
  exact ⟨scopes, base, entity, extending, same, fun own proper => own.alone proper begins extending⟩

/-- A service that extends the only file and sets its own number of retries. -/
theorem ofText_extends_retries :
    let neighbour := "service \x7b\n name \"base\"\n retries 3\n network \x7b port 80 \x7d\n\x7d\n"
    let job := Job.plain
      ⟨[(["r"], .directory), (["r", "base-service.recipe"], .file (.text neighbour))], ["r"]⟩ .standard
    let path : Path := ⟨"/r/child-service.recipe"⟩
    let text := "service \x7b\n extend \"base-service\"\n retries 5\n\x7d\n"
    ∃ derived base file,
      ofText job path text = .ok derived ∧
      ofFile { job with validate := some false } file = .ok base ∧
      ∀ name, name ≠ Entity.lineageSlot → name ≠ "retries" →
        derived.root.property? name = base.root.property? name := by
  intro neighbour job path text
  have compiles : (ofText job path text).isOk = true := by decide +kernel
  have names : (job.rootSteps path text).map (fun step => step.declaration.name) = ["extend", "retries"] := by
    decide +kernel
  obtain ⟨extension, others, begins, word, later⟩ := List.map_eq_cons_iff.mp names
  have own : job.OwnsNothing path := by
    have lonely : (job.inputs path).sibling? job.files "overrides" = none := by decide
    refine ⟨by decide, ?_, rfl⟩
    simp only [EnvironmentInputs.overridesText?, lonely]
    rfl
  have proper : job.files.Proper := by simp [job, Job.plain, FileTree.Proper, Path.IsName, Path.isReal]
  cases success : ofText job path text with
  | error error => rw [success] at compiles; cases compiles
  | ok derived =>
    obtain ⟨_, base, entity, _, same, alone⟩ := ofText_extends success begins word
    obtain ⟨there, found⟩ := alone own proper
    obtain ⟨compiled, compiles, rfl⟩ := found base there
    refine ⟨derived, compiled, base, rfl, compiles, fun name slot other => same name slot ?_⟩
    intro step member equal
    have listed : step.declaration.name ∈ ["retries"] := by
      rw [← later]
      exact List.mem_map_of_mem member
    rw [List.mem_singleton.mp listed] at equal
    exact other (equal.symm.trans (by decide))

end Compiled

end DeployRecipe
