import DeployRecipe.RecipeFile.Kind
import DeployRecipe.Proofs.Compilation.Extension
import DeployRecipe.Proofs.Compilation.Units

/-!
The root of a recipe. A recipe that compiles declares exactly one block outside of all others, in its own text or in
a fragment that it loads there, and its root is of the kind of that block. These are the kinds of roots of recipe
files, but for the installer, which may be declared as a root too.
-/

namespace DeployRecipe

/-- A block that may be declared as a root has the root kind of a recipe file, or is an installer. -/
theorem Registry.recipeKind_of_allowAsRoot {descriptor : Descriptor} (member : descriptor ∈ Registry.descriptors)
    (root : descriptor.allowAsRoot = true) :
    descriptor.kind = .templateInstaller ∨ ∃ kind : RecipeKind, descriptor.kind = kind.rootKind := by
  fin_cases member
  all_goals first
    | (cases root; done)
    | exact Or.inl rfl
    | exact Or.inr ⟨.application, rfl⟩
    | exact Or.inr ⟨.service, rfl⟩
    | exact Or.inr ⟨.cloud, rfl⟩
    | exact Or.inr ⟨.template, rfl⟩

namespace Evaluation

/-- The name of the block that a step declares. -/
def Step.block? (step : Step) : Option String :=
  match step.declaration with
  | .mk name _ (.block _) => some name
  | _ => none

/-- A block with the name may be declared as a root, and the entity is of its kind. -/
def RootOf (name : String) (root : Entity) : Prop :=
  ∃ descriptor, Registry.describe? name = some descriptor ∧ descriptor.allowAsRoot = true ∧
    root.kind = descriptor.kind

/-- The blocks that are declared outside of all others, and the root before and after: no block and the same root, or
one block that becomes the first root. -/
def Roots (before : Option Entity) (blocks : List String) (after : Option Entity) : Prop :=
  blocks = [] ∧ after = before ∨
    before = none ∧ ∃ name root, blocks = [name] ∧ after = some root ∧ RootOf name root

/-- A second root is impossible, so at most one of two parts of a run declares a root. -/
theorem Roots.append {first second third : Option Entity} {blocks more : List String}
    (one : Roots first blocks second) (other : Roots second more third) : Roots first (blocks ++ more) third := by
  rcases one with ⟨rfl, rfl⟩ | ⟨fresh, name, root, rfl, rfl, rooted⟩
  · exact other
  · rcases other with ⟨rfl, rfl⟩ | ⟨impossible, _⟩
    · exact Or.inr ⟨fresh, name, root, rfl, rfl, rooted⟩
    · cases impossible

variable {context : RecipeContext} {before after : Evaluation}

theorem checkPlace_outside {descriptor : Descriptor} (outside : before.scopes = [])
    (placed : checkPlace before descriptor true = .ok ()) :
    before.root = none ∧ descriptor.allowAsRoot = true := by
  rw [checkPlace, outside] at placed
  simp only [List.head?_nil, Option.isNone_none, Bool.and_true, Bool.true_and, Option.map_none] at placed
  split at placed
  · cases placed
  · rename_i first
    refine ⟨by simpa using first, ?_⟩
    rw [Descriptor.checkPlacement] at placed
    by_contra refused
    rw [if_neg refused] at placed
    cases placed

/-- A declaration outside of all blocks leaves the root alone, or is the block that becomes it. -/
theorem evaluateInPlace_roots {depth : Nat} {declaration : Declaration} (outside : before.scopes = [])
    (single : spliced? (Deeper.upTo depth) context declaration before = none)
    (run : evaluateInPlace (Deeper.upTo depth) context declaration before = .ok () after) :
    Roots before.root (Step.block? ⟨depth, context, declaration, before⟩).toList after.root := by
  obtain ⟨name, line, body⟩ := declaration
  cases body with
  | arguments | assignment => exact Or.inl ⟨rfl, evaluateInPlace_root outside single run rfl⟩
  | block declarations =>
    rw [evaluateInPlace_outside outside] at run
    obtain ⟨entity, middle, evaluated, attached⟩ := (Running.bind_eq_ok _ _ _ _ _).mp run
    obtain ⟨descriptor, described, placed, kind, scopes, _⟩ := evaluateBlock_finishes
      (fun _ _ => evaluateStatements_runs (Deeper.upTo_sound depth) declarations) evaluated
    rw [noting_scopes_nil outside] at scopes
    obtain ⟨first, allowed⟩ := checkPlace_outside outside placed
    refine Or.inr ⟨first, name, entity, rfl, ?_, descriptor, described, allowed, kind⟩
    rcases (attach_eq_ok _ _).mp attached with ⟨_, rfl⟩ | ⟨_, _, _, _, inside, _⟩
    · rfl
    · rw [scopes] at inside
      cases inside

/-- The steps outside of all blocks declare one root at most. -/
theorem Linked.roots {list : List Step} (linked : Linked context before list after) (outside : before.scopes = []) :
    Roots before.root (list.filterMap Step.block?) after.root := by
  induction linked with
  | done passes => exact Or.inl ⟨rfl, passes.root⟩
  | @step before start next after depth declaration rest passes single run linked inductionHypothesis =>
    have begins : start.scopes = [] := passes.runs.blocks.eq_nil_iff.mpr outside
    have ends := (evaluateInPlace_runs (Deeper.upTo_sound depth) _ run).blocks.eq_nil_iff.mpr begins
    have roots := evaluateInPlace_roots begins single run
    rw [passes.root] at roots
    have whole := roots.append (inductionHypothesis ends)
    rw [List.filterMap_cons]
    cases named : Step.block? ⟨depth, context, declaration, start⟩ with
    | none =>
      rw [named] at whole
      exact whole
    | some name =>
      rw [named] at whole
      exact whole

/-- A recipe declares exactly one block outside of all others, and its root is of the kind of that block. -/
theorem evaluateRecipe_roots {depth : Nat} {declarations : List Declaration} {session later : Session} {root : Entity}
    (run : evaluateRecipe (Deeper.upTo depth) context declarations session = .ok root later) :
    ∃ name, (steps depth context declarations (start session)).filterMap Step.block? = [name] ∧ RootOf name root := by
  obtain ⟨last, ran, done, _⟩ := (evaluateRecipe_eq_ok _ _ _ _ _ _).mp run
  have linked := steps_linked depth context declarations
    (forM_evaluateInPlace_outside (Deeper.upTo_sound depth) rfl ran)
  rcases linked.roots rfl with ⟨_, none⟩ | ⟨_, name, found, blocks, some, rooted⟩
  · rw [done] at none
    cases none
  · rw [done] at some
    obtain rfl := Option.some.inj some
    exact ⟨name, blocks, rooted⟩

end Evaluation

open Evaluation (Step)

/-- The names of the blocks that a recipe with the given text declares outside of all others. -/
def Job.rootBlocks (job : Job) (path : Path) (text : String) : List String :=
  match job.opening path text Session.empty with
  | .ok (context, declarations) session =>
    (Evaluation.steps job.depth context declarations (Evaluation.start session)).filterMap Step.block?
  | .error _ _ => []

namespace Compiled

/-- The recipe declares one block outside of all others, whose kind the root has. It is the root kind of a recipe
file, unless the block is an installer. -/
structure Rooted (job : Job) (text : String) (compiled : Compiled) : Prop where
  single : ∃ name descriptor, job.rootBlocks compiled.file text = [name] ∧ Registry.describe? name = some descriptor ∧
    compiled.kind = descriptor.kind
  kind : compiled.kind ≠ .templateInstaller → ∃ kind : RecipeKind, compiled.kind = kind.rootKind

theorem ofText_rooted {job : Job} {path : Path} {text : String} {compiled : Compiled}
    (success : ofText job path text = .ok compiled) : compiled.Rooted job text := by
  obtain ⟨session, evaluated, rfl, _⟩ := ofText_evaluates success
  obtain ⟨context, declarations, between, opened, run⟩ := (Job.evaluate_eq_ok _ _ _ _ _ _).mp evaluated
  obtain ⟨name, blocks, descriptor, described, allowed, kind⟩ := Evaluation.evaluateRecipe_roots run
  refine ⟨⟨name, descriptor, ?_, described, kind⟩, fun other => ?_⟩
  · rw [Job.rootBlocks, opened]
    exact blocks
  · rw [Compiled.kind, kind] at other ⊢
    exact (Registry.recipeKind_of_allowAsRoot (Registry.describe?_eq_some described).1 allowed).resolve_left other

/-- Whatever compiles, as a text or as a file, has one root. -/
theorem rooted_of_compiles (job : Job) (path : Path) (compiled : Compiled) :
    (∀ text, ofText job path text = .ok compiled → compiled.file = path ∧ compiled.Rooted job text) ∧
    (ofFile job path = .ok compiled →
      ∃ text, job.files.readText compiled.file = .ok text ∧ compiled.Rooted job text) := by
  refine ⟨fun text success => ?_, fun success => ?_⟩
  · obtain ⟨_, _, file, _⟩ := ofText_evaluates success
    exact ⟨file, ofText_rooted success⟩
  · obtain ⟨text, _, read, compiles⟩ := ofFile_eq_ok success
    exact ⟨text, read, ofText_rooted compiles⟩

/-- A recipe that loads its root from a fragment. -/
theorem rooted_of_compiles_loaded :
    let files : FileTree := ⟨[(["r"], .directory),
      (["r", "a-service.recipe"], .file (.text "load \"root.recipe\"\n")),
      (["r", "root.recipe"], .file (.text "service \x7b\n name \"s\"\n\x7d\n"))], ["r"]⟩
    let job := Job.plain files .standard
    ∃ compiled text, ofFile job ⟨"/r/a-service.recipe"⟩ = .ok compiled ∧ compiled.kind = .service ∧
      job.files.readText compiled.file = .ok text ∧ compiled.Rooted job text := by
  intro files job
  have ends : (ofFile job ⟨"/r/a-service.recipe"⟩).toOption.map Compiled.kind = some .service := by decide +kernel
  cases success : ofFile job ⟨"/r/a-service.recipe"⟩ with
  | error error =>
    rw [success] at ends
    cases ends
  | ok compiled =>
    rw [success] at ends
    obtain ⟨text, read, rooted⟩ := (rooted_of_compiles job ⟨"/r/a-service.recipe"⟩ compiled).2 success
    exact ⟨compiled, text, rfl, Option.some.inj ends, read, rooted⟩

/-- An installer is compiled as the root of a recipe, though no recipe file has such a root. -/
theorem ofText_installer :
    let job := Job.plain ⟨[], []⟩ .standard
    ∃ compiled, ofText job ⟨"/t-template.recipe"⟩ "installer \x7b\n\x7d\n" = .ok compiled ∧
      ∀ kind : RecipeKind, compiled.kind ≠ kind.rootKind := by
  intro job
  have ends : (ofText job ⟨"/t-template.recipe"⟩ "installer \x7b\n\x7d\n").toOption.map Compiled.kind =
      some .templateInstaller := by decide +kernel
  cases success : ofText job ⟨"/t-template.recipe"⟩ "installer \x7b\n\x7d\n" with
  | error error =>
    rw [success] at ends
    cases ends
  | ok compiled =>
    rw [success] at ends
    refine ⟨compiled, rfl, fun kind => ?_⟩
    rw [Option.some.inj ends]
    cases kind <;> decide

end Compiled

end DeployRecipe
