import DeployRecipe.Proofs.Compilation.Events

/-!
What holds of every step of an evaluation holds of the whole. A judgement looks at two evaluations side by side
and at the events of the first one; if it is closed under the steps of an evaluation, it holds of every
evaluation of the same declarations, by recursion on them and on how often files may lead to files.
-/

namespace DeployRecipe

open Evaluation

theorem Evaluation.evaluateInPlace_eq_branch (deeper : Deeper) (context : RecipeContext) (declaration : Declaration) :
    evaluateInPlace deeper context declaration = fun state =>
      if state.scopes.isEmpty then evaluateTopLevel deeper context declaration state
      else evaluateStatement deeper context declaration state := by
  funext state
  rw [evaluateInPlace, Running.get_bind]
  split <;> rfl

section Values

variable {deeper other : Deeper} {context around : RecipeContext} {line : Nat} {before after : Evaluation}
  {value : Value}

theorem Evaluation.resolve?_of_environment (same : around.environment = context.environment)
    (locals : after.locals = before.locals) : after.resolve? around = before.resolve? context := by
  funext name
  rw [resolve?, resolve?, same, locals]

/-- An interpolated text only looks at the names that the recipe defines and at the environment. -/
theorem Evaluation.evaluate_interpolated_still (same : around.environment = context.environment) {parts : List TextPart}
    (run : evaluate deeper context line (.interpolated parts) before = .ok value after) :
    after = before ∧ ∀ state : Evaluation, state.locals = before.locals →
      evaluate other around line (.interpolated parts) state = .ok value state := by
  obtain ⟨text, found, rfl, rfl⟩ := evaluate_interpolated_eq_ok.mp run
  refine ⟨rfl, fun state locals => evaluate_interpolated_eq_ok.mpr ⟨text, ?_, rfl, rfl⟩⟩
  rwa [resolve?_of_environment same locals]

/-- So does a reference. -/
theorem Evaluation.evaluate_reference_still (same : around.environment = context.environment) {name : String}
    (run : evaluate deeper context line (.reference name) before = .ok value after) :
    after = before ∧ ∀ state : Evaluation, state.locals = before.locals →
      evaluate other around line (.reference name) state = .ok value state := by
  obtain ⟨found, rfl⟩ := evaluate_reference_eq_ok.mp run
  refine ⟨rfl, fun state locals => evaluate_reference_eq_ok.mpr ⟨?_, rfl⟩⟩
  rwa [resolve?_of_environment same locals]

end Values

/-- Something that may be said of two evaluations side by side, with the context and the events of the first one. -/
structure Judgement where
  holds : {α : Type} → RecipeContext → Evaluating α → Evaluating α → (Evaluation → List Event) → Prop
  holdsRecipe : Compiling Entity → Compiling Entity → (Session → List Event) → Prop
  /-- The contexts that it is about. -/
  fits : RecipeContext → Prop
  /-- The context of the second evaluation. -/
  beside : RecipeContext → RecipeContext

namespace Judgement

/-- The judgement holds of the files that a file leads to. -/
structure Reaches (judgement : Judgement) (deeper other : Deeper) (trace : Trace) : Prop where
  declarations : ∀ context, judgement.fits context → ∀ declarations,
    judgement.holds context (deeper.declarations context declarations)
      (other.declarations (judgement.beside context) declarations) (trace.declarations context declarations)
  expression : ∀ context, judgement.fits context → ∀ expression,
    judgement.holds context (deeper.expression context expression)
      (other.expression (judgement.beside context) expression) (trace.expression context expression)
  recipe : ∀ context, judgement.fits context → ∀ declarations,
    judgement.holdsRecipe (deeper.recipe context declarations)
      (other.recipe (judgement.beside context) declarations) (trace.recipe context declarations)

/-- The judgement is closed under the steps of an evaluation. -/
structure Closed (judgement : Judgement) : Prop where
  environment : ∀ context, (judgement.beside context).environment = context.environment
  fails : ∀ {α : Type} {context} {one other : Evaluating α} (events : Evaluation → List Event),
    (∀ before value after, one before ≠ .ok value after) →
    (∀ before value after, other before ≠ .ok value after) → judgement.holds context one other events
  /-- A step that only looks at the names that the recipe defines. -/
  still : ∀ {α : Type} {context} {one other : Evaluating α},
    (∀ before value after, one before = .ok value after → after = before ∧
      ∀ state : Evaluation, state.locals = before.locals → other state = .ok value state) →
    (∀ before value after, other before = .ok value after → after = before) →
    judgement.holds context one other fun _ => []
  bind : ∀ {α β : Type} {context} {one other : Evaluating α} {next more : α → Evaluating β}
    {here : Evaluation → List Event} {later : α → Evaluation → List Event}, judgement.holds context one other here →
    (∀ value, judgement.holds context (next value) (more value) (later value)) →
    judgement.holds context (one >>= next) (other >>= more) (Trace.andThen one here later)
  branch : ∀ {α : Type} {context} {one other first second : Evaluating α} {here there : Evaluation → List Event},
    judgement.holds context one first here → judgement.holds context other second there →
    judgement.holds context (fun state => if state.scopes.isEmpty then one state else other state)
      (fun state => if state.scopes.isEmpty then first state else second state)
      fun state => if state.scopes.isEmpty then here state else there state
  locals : ∀ {context} name value, judgement.holds context
    (modify fun state => { state with locals := state.locals.insert name value })
    (modify fun state => { state with locals := state.locals.insert name value }) fun _ => []
  count : ∀ {context}, judgement.holds context countDeclaration countDeclaration fun _ => []
  value : ∀ {context} {body other : Evaluating Unit} {here : Evaluation → List Event} (name line),
    judgement.fits context → judgement.holds context body other here →
    judgement.holds context (evaluateBlock context name line false body)
      (evaluateBlock (judgement.beside context) name line false other) (Trace.ofBlock context line name false here)
  attached : ∀ {context} {body other : Evaluating Unit} {here : Evaluation → List Event} (name line),
    judgement.fits context → judgement.holds context body other here →
    judgement.holds context (evaluateBlock context name line true body >>= attach context line)
      (evaluateBlock (judgement.beside context) name line true other >>= attach (judgement.beside context) line)
      (Trace.ofBlock context line name true here)
  assign : ∀ {context depth more} (line name values), judgement.fits context →
    judgement.Reaches (Deeper.upTo depth) (Deeper.upTo more) (Trace.upTo depth) →
    judgement.holds context (Evaluation.assign (Deeper.upTo depth) context line name values)
      (Evaluation.assign (Deeper.upTo more) (judgement.beside context) line name values)
      (Trace.ofAssign (Trace.upTo depth) context line name values)
  load : ∀ {context depth more} (line relative), judgement.fits context →
    judgement.Reaches (Deeper.upTo depth) (Deeper.upTo more) (Trace.upTo depth) →
    judgement.holds context (loadValue (Deeper.upTo depth) context line relative)
      (loadValue (Deeper.upTo more) (judgement.beside context) line relative)
      (Trace.ofValue (Trace.upTo depth) context line relative)
  splice : ∀ {context depth more} {values other : Evaluating (List Value)} {here : Evaluation → List Event} (line),
    judgement.fits context → judgement.Reaches (Deeper.upTo depth) (Deeper.upTo more) (Trace.upTo depth) →
    judgement.holds context values other here →
    judgement.holds context (Evaluation.splice (Deeper.upTo depth) context line values)
      (Evaluation.splice (Deeper.upTo more) (judgement.beside context) line other)
      (Trace.andThen values here (Trace.ofFragment (Trace.upTo depth) context line))
  extend : ∀ {context depth more} {values other : Evaluating (List Value)} {here : Evaluation → List Event} (line),
    judgement.fits context → judgement.Reaches (Deeper.upTo depth) (Deeper.upTo more) (Trace.upTo depth) →
    judgement.holds context values other here →
    judgement.holds context (extendBase (Deeper.upTo depth) context line values)
      (extendBase (Deeper.upTo more) (judgement.beside context) line other)
      (Trace.andThen values here (Trace.ofBase (Trace.upTo depth) context line))
  recipe : ∀ {context deeper other} {declarations : List Declaration} {here : Evaluation → List Event},
    judgement.fits context →
    judgement.holds context (declarations.forM (evaluateTopLevel deeper context))
      (declarations.forM (evaluateTopLevel other (judgement.beside context))) here →
    judgement.holdsRecipe (evaluateRecipe deeper context declarations)
      (evaluateRecipe other (judgement.beside context) declarations) fun session => here (start session)

namespace Closed

variable {judgement : Judgement} {depth more : Nat} {context : RecipeContext}

section Steps

variable (closed : judgement.Closed) {α β : Type}
include closed

theorem pure (value : α) : judgement.holds context (Pure.pure value) (Pure.pure value) fun _ => [] := by
  refine closed.still (fun before result after run => ?_) fun before result after run => ?_
  · obtain ⟨rfl, rfl⟩ := (Running.pure_eq_ok _ _ _ _).mp run
    exact ⟨rfl, fun _ _ => rfl⟩
  · exact ((Running.pure_eq_ok _ _ _ _).mp run).2.symm

theorem fail (line : Nat) (kind : ErrorKind) (events : Evaluation → List Event) :
    judgement.holds context (Evaluation.fail context line kind : Evaluating α)
      (Evaluation.fail (judgement.beside context) line kind) events :=
  closed.fails events (fun _ _ _ => fail_ne_ok line kind _) fun _ _ _ => fail_ne_ok line kind _

/-- A step after which nothing happens that counts. -/
theorem bind_still {one other : Evaluating α} {next after : α → Evaluating β} {here : Evaluation → List Event}
    (head : judgement.holds context one other here)
    (rest : ∀ value, judgement.holds context (next value) (after value) fun _ => []) :
    judgement.holds context (one >>= next) (other >>= after) here := by
  rw [← Trace.andThen_nil one here]
  exact closed.bind head rest

theorem forM {ι : Type} {one other : ι → Evaluating Unit} {here : ι → Evaluation → List Event}
    (step : ∀ item, judgement.holds context (one item) (other item) (here item)) (items : List ι) :
    judgement.holds context (items.forM one) (items.forM other) (Trace.oneByOne one here items) := by
  induction items with
  | nil => exact closed.pure ()
  | cons first rest inductionHypothesis => exact closed.bind (step first) fun _ => inductionHypothesis

theorem interpolated (line : Nat) (parts : List TextPart) :
    judgement.holds context (evaluate (Deeper.upTo depth) context line (.interpolated parts))
      (evaluate (Deeper.upTo more) (judgement.beside context) line (.interpolated parts)) fun _ => [] :=
  closed.still (fun _ _ _ run => evaluate_interpolated_still (closed.environment context) run)
    fun _ _ _ run => by
      obtain ⟨_, _, _, same⟩ := evaluate_interpolated_eq_ok.mp run
      exact same

theorem reference (line : Nat) (name : String) :
    judgement.holds context (evaluate (Deeper.upTo depth) context line (.reference name))
      (evaluate (Deeper.upTo more) (judgement.beside context) line (.reference name)) fun _ => [] :=
  closed.still (fun _ _ _ run => evaluate_reference_still (closed.environment context) run)
    fun _ _ _ run => (evaluate_reference_eq_ok.mp run).2

end Steps

mutual

theorem evaluate (closed : judgement.Closed)
    (reaches : judgement.Reaches (Deeper.upTo depth) (Deeper.upTo more) (Trace.upTo depth))
    (fits : judgement.fits context) (line : Nat) (expression : Expression) :
    judgement.holds context (Evaluation.evaluate (Deeper.upTo depth) context line expression)
      (Evaluation.evaluate (Deeper.upTo more) (judgement.beside context) line expression)
      (Trace.ofExpression (Deeper.upTo depth) (Trace.upTo depth) context line expression) := by
  cases expression with
  | null => exact closed.pure _
  | bool value => exact closed.pure _
  | int value => exact closed.pure _
  | float value => exact closed.pure _
  | text value => exact closed.pure _
  | interpolated parts => exact closed.interpolated line parts
  | reference name => exact closed.reference line name
  | list items =>
    rw [Evaluation.evaluate, Evaluation.evaluate, Trace.ofExpression]
    exact closed.bind_still (evaluateItems closed reaches fits line items) fun _ => closed.pure _
  | map entries =>
    rw [Evaluation.evaluate, Evaluation.evaluate, Trace.ofExpression]
    exact closed.bind_still (evaluateEntries closed reaches fits line [] entries) fun _ => closed.pure _
  | block name blockLine body =>
    rw [Evaluation.evaluate, Evaluation.evaluate, Trace.ofExpression]
    exact closed.bind_still (closed.value name blockLine fits (evaluateStatements closed reaches fits body))
      fun _ => closed.pure _
  | load path => exact closed.load line path fits reaches
termination_by structural expression

theorem evaluateItems (closed : judgement.Closed)
    (reaches : judgement.Reaches (Deeper.upTo depth) (Deeper.upTo more) (Trace.upTo depth))
    (fits : judgement.fits context) (line : Nat) (items : List Expression) :
    judgement.holds context (Evaluation.evaluateItems (Deeper.upTo depth) context line items)
      (Evaluation.evaluateItems (Deeper.upTo more) (judgement.beside context) line items)
      (Trace.ofItems (Deeper.upTo depth) (Trace.upTo depth) context line items) := by
  match items with
  | [] => exact closed.pure _
  | first :: rest =>
    rw [Evaluation.evaluateItems, Evaluation.evaluateItems, Trace.ofItems]
    exact closed.bind (evaluate closed reaches fits line first) fun _ =>
      closed.bind_still (evaluateItems closed reaches fits line rest) fun _ => closed.pure _
termination_by structural items

theorem evaluateEntries (closed : judgement.Closed)
    (reaches : judgement.Reaches (Deeper.upTo depth) (Deeper.upTo more) (Trace.upTo depth))
    (fits : judgement.fits context) (line : Nat) (mapping : Mapping) (entries : List (String × Expression)) :
    judgement.holds context (Evaluation.evaluateEntries (Deeper.upTo depth) context line mapping entries)
      (Evaluation.evaluateEntries (Deeper.upTo more) (judgement.beside context) line mapping entries)
      (Trace.ofEntries (Deeper.upTo depth) (Trace.upTo depth) context line entries) := by
  match entries with
  | [] => exact closed.pure _
  | (key, item) :: rest =>
    rw [Evaluation.evaluateEntries, Evaluation.evaluateEntries, Trace.ofEntries]
    exact closed.bind (evaluate closed reaches fits line item) fun _ =>
      evaluateEntries closed reaches fits line _ rest
termination_by structural entries

theorem evaluateStatement (closed : judgement.Closed)
    (reaches : judgement.Reaches (Deeper.upTo depth) (Deeper.upTo more) (Trace.upTo depth))
    (fits : judgement.fits context) (declaration : Declaration) :
    judgement.holds context (Evaluation.evaluateStatement (Deeper.upTo depth) context declaration)
      (Evaluation.evaluateStatement (Deeper.upTo more) (judgement.beside context) declaration)
      (Trace.ofStatement (Deeper.upTo depth) (Trace.upTo depth) context declaration) := by
  cases declaration with
  | mk name line body =>
    rw [Evaluation.evaluateStatement, Evaluation.evaluateStatement, Trace.ofStatement]
    exact closed.bind_still (evaluateBody closed reaches fits name line body) fun _ => closed.count
termination_by structural declaration

theorem evaluateBody (closed : judgement.Closed)
    (reaches : judgement.Reaches (Deeper.upTo depth) (Deeper.upTo more) (Trace.upTo depth))
    (fits : judgement.fits context) (name : String) (line : Nat) (body : Body) :
    judgement.holds context (Evaluation.evaluateBody (Deeper.upTo depth) context name line body)
      (Evaluation.evaluateBody (Deeper.upTo more) (judgement.beside context) name line body)
      (Trace.ofBody (Deeper.upTo depth) (Trace.upTo depth) context name line body) := by
  cases body with
  | block declarations =>
    rw [Evaluation.evaluateBody, Evaluation.evaluateBody, Trace.ofBody]
    exact closed.attached name line fits (evaluateStatements closed reaches fits declarations)
  | arguments expressions =>
    have values := evaluateItems closed reaches fits line expressions
    rw [Evaluation.evaluateBody, Evaluation.evaluateBody, Trace.ofBody]
    by_cases extend : name = extendWord
    · simp only [if_pos extend]
      exact closed.extend line fits reaches values
    · by_cases load : name = loadWord
      · simp only [if_neg extend, if_pos load]
        exact closed.splice line fits reaches values
      · simp only [if_neg extend, if_neg load]
        exact closed.bind values fun given => closed.assign line name given fits reaches
  | assignment expression =>
    rw [Evaluation.evaluateBody, Evaluation.evaluateBody, Trace.ofBody]
    exact closed.bind (evaluate closed reaches fits line expression) fun value =>
      closed.assign line name [value] fits reaches
termination_by structural body

theorem evaluateStatements (closed : judgement.Closed)
    (reaches : judgement.Reaches (Deeper.upTo depth) (Deeper.upTo more) (Trace.upTo depth))
    (fits : judgement.fits context) (declarations : List Declaration) :
    judgement.holds context (Evaluation.evaluateStatements (Deeper.upTo depth) context declarations)
      (Evaluation.evaluateStatements (Deeper.upTo more) (judgement.beside context) declarations)
      (Trace.ofStatements (Deeper.upTo depth) (Trace.upTo depth) context declarations) := by
  match declarations with
  | [] => exact closed.pure ()
  | first :: rest =>
    rw [Evaluation.evaluateStatements, Evaluation.evaluateStatements, Trace.ofStatements]
    exact closed.bind (evaluateStatement closed reaches fits first) fun _ =>
      evaluateStatements closed reaches fits rest
termination_by structural declarations

end

section Recipes

variable (closed : judgement.Closed)
  (reaches : judgement.Reaches (Deeper.upTo depth) (Deeper.upTo more) (Trace.upTo depth))
  (fits : judgement.fits context)
include closed reaches fits

theorem evaluateTopLevel (declaration : Declaration) :
    judgement.holds context (Evaluation.evaluateTopLevel (Deeper.upTo depth) context declaration)
      (Evaluation.evaluateTopLevel (Deeper.upTo more) (judgement.beside context) declaration)
      (Trace.ofTopLevel (Deeper.upTo depth) (Trace.upTo depth) context declaration) := by
  obtain ⟨name, line, body⟩ := declaration
  cases body with
  | block declarations => exact closed.attached name line fits (closed.evaluateStatements reaches fits declarations)
  | arguments expressions =>
    change judgement.holds context (if name = loadWord then _ else if name = extendWord then _ else _)
      (if name = loadWord then _ else if name = extendWord then _ else _) (if name = loadWord then _ else _)
    by_cases load : name = loadWord
    · simp only [if_pos load]
      exact closed.splice line fits reaches (closed.evaluateItems reaches fits line expressions)
    · simp only [if_neg load]
      split
      · exact closed.fail line _ _
      · exact closed.fail line _ _
  | assignment expression =>
    exact closed.bind_still (closed.evaluate reaches fits line expression) fun value => closed.locals name value

theorem evaluateInPlace (declaration : Declaration) :
    judgement.holds context (Evaluation.evaluateInPlace (Deeper.upTo depth) context declaration)
      (Evaluation.evaluateInPlace (Deeper.upTo more) (judgement.beside context) declaration)
      (Trace.ofInPlace (Deeper.upTo depth) (Trace.upTo depth) context declaration) := by
  rw [evaluateInPlace_eq_branch, evaluateInPlace_eq_branch]
  exact closed.branch (closed.evaluateTopLevel reaches fits declaration)
    (closed.evaluateStatement reaches fits declaration)

theorem evaluateRecipe (declarations : List Declaration) :
    judgement.holdsRecipe (Evaluation.evaluateRecipe (Deeper.upTo depth) context declarations)
      (Evaluation.evaluateRecipe (Deeper.upTo more) (judgement.beside context) declarations)
      (Trace.ofRecipe (Deeper.upTo depth) (Trace.upTo depth) context declarations) :=
  closed.recipe fits (closed.forM (closed.evaluateTopLevel reaches fits) declarations)

end Recipes

/-- However often files may lead to files, if the second evaluation allows it as often, and it holds of the
second one where the first one allows it no more. -/
theorem reaches (closed : judgement.Closed)
    (base : ∀ more, judgement.Reaches (Deeper.upTo 0) (Deeper.upTo more) (Trace.upTo 0)) {depth more : Nat}
    (enough : depth ≤ more) : judgement.Reaches (Deeper.upTo depth) (Deeper.upTo more) (Trace.upTo depth) := by
  induction depth generalizing more with
  | zero => exact base more
  | succ depth inductionHypothesis =>
    obtain ⟨more, rfl⟩ := Nat.exists_eq_add_of_le' (Nat.le_of_add_left_le enough)
    have deeper := inductionHypothesis (Nat.le_of_succ_le_succ enough)
    exact ⟨fun _ fits => closed.forM (closed.evaluateInPlace deeper fits),
      fun _ fits => closed.evaluate deeper fits 1, fun _ fits => closed.evaluateRecipe deeper fits⟩

end Closed

/-- A judgement of the first evaluation that holds where that one fails. -/
theorem reaches_zero {judgement : Judgement}
    (fails : ∀ {α : Type} {context} {one : Evaluating α} (other : Evaluating α) (events : Evaluation → List Event),
      (∀ before value after, one before ≠ .ok value after) → judgement.holds context one other events)
    (failsRecipe : ∀ {one : Compiling Entity} (other : Compiling Entity) (events : Session → List Event),
      (∀ before value after, one before ≠ .ok value after) → judgement.holdsRecipe one other events) (more : Nat) :
    judgement.Reaches (Deeper.upTo 0) (Deeper.upTo more) (Trace.upTo 0) := by
  refine ⟨fun _ _ _ => fails _ _ ?_, fun _ _ _ => fails _ _ ?_, fun _ _ _ => failsRecipe _ _ ?_⟩ <;>
    exact fun _ _ _ => Running.throw_ne_ok _ _ _ _

end Judgement

end DeployRecipe
