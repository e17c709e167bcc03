import DeployRecipe.Proofs.Compilation.Preserves
import DeployRecipe.Proofs.Environment.Around
import DeployRecipe.Proofs.Scaffold.Reading
import DeployRecipe.Proofs.Validation

/-!
What a fresh recipe of a service is evaluated to: a service whose properties are those of the recipe, where the
environment knows the number of instances and the port.
-/

namespace DeployRecipe

namespace Command

/-- The environment knows what the properties file next to a fresh recipe defines. -/
structure Supplies (environment : Environment) : Prop where
  instances : environment.lookup? "instances" = some (.int 1)
  port : environment.lookup? "port" = some (.int 8080)

section Lines

variable {deeper : Deeper} {context : RecipeContext}

theorem evaluate_reference {name : String} {value : Value} (known : context.environment.lookup? name = some value)
    (state : Evaluation) (locals : state.locals = []) :
    Evaluation.evaluate deeper context 0 (.reference name) state = .ok value state := by
  have resolved : state.resolve? context name = some value := by
    rw [Evaluation.resolve?, locals, Table.lookup?_nil, known]
    rfl
  rw [Evaluation.evaluate, Running.get_bind, resolved]
  rfl

theorem serviceLines_suit (supplies : Supplies context.environment) (name : String) :
    ∀ line ∈ serviceLines name, line.Suits deeper context .service := by
  simp only [serviceLines, List.forall_mem_cons, List.not_mem_nil, false_implies, implies_true, and_true]
  refine ⟨?_, ?_, ?_, ?_⟩
  · exact ⟨⟨_, rfl, rfl⟩, rfl, rfl, by dsimp only; decide, fun _ _ => rfl⟩
  · exact ⟨⟨_, rfl, rfl⟩, rfl, rfl, by decide, fun _ _ => rfl⟩
  · exact ⟨⟨_, rfl, rfl⟩, rfl, rfl, by decide, evaluate_reference supplies.instances⟩
  · exact ⟨⟨_, rfl, rfl⟩, rfl, rfl, by decide, fun _ _ => rfl⟩

theorem lifecycleLines_suit : ∀ line ∈ lifecycleLines, line.Suits deeper context .lifecycle := by
  simp only [lifecycleLines, List.forall_mem_cons, List.not_mem_nil, false_implies, implies_true, and_true]
  refine ⟨?_, ?_, ?_⟩
  all_goals exact ⟨⟨_, rfl, rfl⟩, rfl, rfl, by decide, fun _ _ => rfl⟩

theorem networkLines_suit (supplies : Supplies context.environment) :
    ∀ line ∈ networkLines, line.Suits deeper context .network := by
  simp only [networkLines, List.forall_mem_cons, List.not_mem_nil, false_implies, implies_true, and_true]
  exact ⟨⟨_, rfl, rfl⟩, rfl, rfl, by decide, evaluate_reference supplies.port⟩

end Lines

def lifecycleDescriptor : Descriptor := .processingUnit .lifecycle

def networkDescriptor : Descriptor := .nestedIn .service .network

/-- The blocks of a fresh recipe, filled. -/
def lifecycleScope : Scope := (Scope.opening (.fresh .lifecycle)).filledAll lifecycleLines

def networkScope : Scope := (Scope.opening (.fresh .network)).filledAll networkLines

def valuesScope (name : String) : Scope := (Scope.opening (.fresh .service)).filledAll (serviceLines name)

def halfway (name : String) : Scope :=
  (Evaluation.noteFamily lifecycleDescriptor (valuesScope name)).filled "lifecycle" lifecycleScope.entity.toValue

def scaffoldScope (name : String) : Scope :=
  (halfway name).filled "network" networkScope.entity.toValue

/-- The service that a fresh recipe stands for. -/
def scaffold (name : String) : Entity := (scaffoldScope name).entity

section Block

variable {deeper : Deeper} {context : RecipeContext} {state : Evaluation}

open Evaluation

/-- The lifecycle of a fresh recipe is filled, whatever blocks it stands in. -/
theorem evaluateStatements_lifecycle (deeper : Deeper) (context : RecipeContext) (locals : state.locals = [])
    (outer : List Scope) :
    evaluateStatements deeper context (lifecycleLines.map ValueLine.declaration)
        (state.opened (.opening (.fresh .lifecycle) :: outer)) = .ok () (state.opened (lifecycleScope :: outer)) ∧
      lifecycleScope.entity.Kept :=
  evaluateStatements_fresh lifecycleLines_suit (by decide) (by decide) (by decide) locals

/-- The network of a fresh recipe is filled, whatever blocks it stands in. -/
theorem evaluateStatements_network (deeper : Deeper) (supplies : Supplies context.environment)
    (locals : state.locals = []) (outer : List Scope) :
    evaluateStatements deeper context (networkLines.map ValueLine.declaration)
        (state.opened (.opening (.fresh .network) :: outer)) = .ok () (state.opened (networkScope :: outer)) ∧
      networkScope.entity.Kept :=
  evaluateStatements_fresh (networkLines_suit supplies) (by decide) (by decide) (by decide) locals

/-- The service of a fresh recipe is filled: first its values, then its two blocks. -/
theorem evaluateStatements_serviceBody (supplies : Supplies context.environment) (name : String)
    (locals : state.locals = []) :
    evaluateStatements deeper context (serviceBody name) (state.opened [.opening (.fresh .service)]) =
        .ok () (state.opened [scaffoldScope name]) ∧
      (scaffold name).Kept := by
  have start : (Scope.opening (.fresh .service)).Ready
      ((serviceLines name).map ValueLine.name ++ ["lifecycle", "network"]) :=
    .opening .service (by dsimp only [serviceLines, List.map]; decide) (by dsimp only [serviceLines, List.map]; decide)
  have suits : ∀ line ∈ serviceLines name, line.Suits deeper context .service := serviceLines_suit supplies name
  obtain ⟨values, ready⟩ := evaluateStatements_values suits start (fun _ => rfl) locals
    [.mk "lifecycle" 0 (.block (lifecycleLines.map ValueLine.declaration)),
      .mk "network" 0 (.block (networkLines.map ValueLine.declaration))]
  obtain ⟨lifecycle, lifecycleKept⟩ := evaluateStatements_lifecycle deeper context locals
    [noteFamily lifecycleDescriptor (valuesScope name)]
  obtain ⟨network, networkKept⟩ := evaluateStatements_network deeper supplies locals [halfway name]
  have lifecycleKeeps : EntityKind.service.Keeps "lifecycle" lifecycleScope.entity.toValue :=
    EntityKind.keeps_block rfl lifecycleKept
  have networkKeeps : EntityKind.service.Keeps "network" networkScope.entity.toValue :=
    EntityKind.keeps_block rfl networkKept
  have between : (halfway name).Ready ["network"] := (ready.noteFamily lifecycleDescriptor).filled lifecycleKeeps
  have first : evaluateStatement deeper context
      (.mk "lifecycle" 0 (.block (lifecycleLines.map ValueLine.declaration))) (state.opened [valuesScope name]) =
        .ok () (state.opened [halfway name]) :=
    evaluateStatement_block lifecycleDescriptor rfl rfl rfl ready rfl lifecycle rfl lifecycleKeeps
  have second : evaluateStatement deeper context
      (.mk "network" 0 (.block (networkLines.map ValueLine.declaration))) (state.opened [halfway name]) =
        .ok () (state.opened [scaffoldScope name]) :=
    evaluateStatement_block networkDescriptor rfl rfl rfl between rfl network rfl networkKeeps
  refine ⟨values.trans ?_, (between.filled networkKeeps).kept⟩
  exact (Running.bind_eq_ok _ _ _ _ _).mpr ⟨(), _, first, (Running.bind_eq_ok _ _ _ _ _).mpr ⟨(), _, second, rfl⟩⟩

theorem exists_of_allUnnumbered_block {declarations inner : List Declaration} {name : String}
    (unnumbered : Declaration.allUnnumbered declarations = [.mk name 0 (.block inner)]) :
    ∃ line body, declarations = [.mk name line (.block body)] ∧ Declaration.allUnnumbered body = inner := by
  match declarations with
  | [] => cases unnumbered
  | _ :: _ :: _ => cases (List.cons.inj unnumbered).2
  | [.mk present line body] =>
    cases body with
    | block declarations =>
      cases unnumbered
      exact ⟨line, declarations, rfl, rfl⟩
    | arguments values => cases unnumbered
    | assignment value => cases unnumbered

/-- A fresh recipe has the service as its root, on whatever lines its declarations stand. -/
theorem evaluateRecipe_service (supplies : Supplies context.environment) {name : String}
    {declarations : List Declaration}
    (unnumbered : Declaration.allUnnumbered declarations = [.mk "service" 0 (.block (serviceBody name))])
    (session : Session) :
    evaluateRecipe deeper context declarations session = .ok (scaffold name) session := by
  obtain ⟨line, body, rfl, inner⟩ := exists_of_allUnnumbered_block unnumbered
  have run : evaluateStatements deeper context (serviceBody name)
      ((start session).opened [.opening (.fresh .service)]) = .ok () ((start session).opened [scaffoldScope name]) :=
    (evaluateStatements_serviceBody supplies name rfl).1
  have block : evaluateBlock context "service" 0 true (evaluateStatements deeper context (serviceBody name))
      (start session) = .ok (scaffold name) (start session) :=
    (evaluateBlock_eq_ok _ _ _ _ _).mpr ⟨_, _, rfl, rfl, rfl, (inScope_eq_ok _ _ _).mpr ⟨_, run, rfl, rfl⟩⟩
  rw [← inner] at block
  have numbered := (evaluateBlock_alike (evaluateStatements_unnumbered body) "service" line 0 true _ _ _).mpr block
  refine (evaluateRecipe_eq_ok _ _ _ _ _ _).mpr ⟨{ start session with root := some (scaffold name) }, ?_, rfl, rfl⟩
  have declared : evaluateTopLevel deeper context (.mk "service" line (.block body)) (start session) =
      .ok () { start session with root := some (scaffold name) } :=
    (Running.bind_eq_ok _ _ _ _ _).mpr ⟨_, _, numbered, (attach_eq_ok _ _).mpr (.inl ⟨rfl, rfl⟩)⟩
  exact (Running.bind_eq_ok _ _ _ _ _).mpr ⟨(), _, declared, rfl⟩

end Block

section Validity

open Validation

variable (context : ValidationContext)

theorem passes_scaffold {name : String} (named : isBlank name = false) : Passes context (scaffold name) := by
  have present : serviceName context (scaffold name) = require (!isBlank name) .nameEmpty := rfl
  rw [named] at present
  have kind : (scaffold name).kind = .service := rfl
  rw [Passes, kind]
  simp only [checks, List.forall_mem_cons]
  exact ⟨present, rfl, rfl, rfl, rfl, rfl, rfl, List.forall_mem_nil _⟩

/-- The service of a fresh recipe is valid with the blocks in it. -/
theorem validate_scaffold {name : String} (named : isBlank name = false) :
    Validation.validate context (scaffold name) = .ok () := by
  have blocks : (scaffold name).children = [lifecycleScope.entity, networkScope.entity] := rfl
  have lifecycle : Validation.validate context lifecycleScope.entity = .ok () := by
    rw [validate_eq]
    rfl
  have network : Validation.validate context networkScope.entity = .ok () := by
    rw [validate_eq]
    rfl
  rw [validate_eq, blocks, checkOne_eq]
  refine (Running.attempt_eq_ok _ _ _).mpr ⟨(), forM_eq_ok_iff.mpr (passes_iff_hooksOf.mp ?_), ?_⟩
  · exact passes_scaffold context named
  · exact forM_eq_ok_iff.mpr (by simp [lifecycle, network])

end Validity

end Command

end DeployRecipe
