import DeployRecipe.Proofs.Compilation.Runs

/-!
The lines of declarations only tell where an evaluation failed. Where it ends well, it does the same whatever lines
the declarations stand on.
-/

namespace DeployRecipe

namespace Running

variable {ε σ α β : Type}

/-- Two steps that end well from the same states and with the same results. -/
def EndAlike (one other : EStateM ε σ α) : Prop :=
  ∀ before value after, one before = .ok value after ↔ other before = .ok value after

theorem EndAlike.refl (step : EStateM ε σ α) : EndAlike step step :=
  fun _ _ _ => .rfl

theorem EndAlike.bind {one other : EStateM ε σ α} {next more : α → EStateM ε σ β} (head : EndAlike one other)
    (rest : ∀ value, EndAlike (next value) (more value)) : EndAlike (one >>= next) (other >>= more) := by
  intro before value after
  simp only [bind_eq_ok, head before, rest _ _ value after]

theorem EndAlike.gives {one other : EStateM ε σ α} (alike : EndAlike one other) (before : σ) (value : α) :
    Gives one before value ↔ Gives other before value :=
  exists_congr fun after => alike before value after

end Running

mutual

/-- The expression with no lines in it. -/
def Expression.unnumbered : Expression → Expression
  | .null => .null
  | .bool value => .bool value
  | .int value => .int value
  | .float value => .float value
  | .text value => .text value
  | .interpolated parts => .interpolated parts
  | .list items => .list (Expression.allUnnumbered items)
  | .map entries => .map (Expression.entriesUnnumbered entries)
  | .reference name => .reference name
  | .block name _ body => .block name 0 (Declaration.allUnnumbered body)
  | .load path => .load path

def Expression.allUnnumbered : List Expression → List Expression
  | [] => []
  | first :: rest => first.unnumbered :: Expression.allUnnumbered rest

def Expression.entriesUnnumbered : List (String × Expression) → List (String × Expression)
  | [] => []
  | (key, item) :: rest => (key, item.unnumbered) :: Expression.entriesUnnumbered rest

/-- The declaration with no lines in it. -/
def Declaration.unnumbered : Declaration → Declaration
  | .mk name _ body => .mk name 0 body.unnumbered

/-- The body with no lines in it. -/
def Body.unnumbered : Body → Body
  | .block declarations => .block (Declaration.allUnnumbered declarations)
  | .arguments values => .arguments (Expression.allUnnumbered values)
  | .assignment value => .assignment value.unnumbered

def Declaration.allUnnumbered : List Declaration → List Declaration
  | [] => []
  | first :: rest => first.unnumbered :: Declaration.allUnnumbered rest

end

namespace Evaluation

open Running (EndAlike)

variable {deeper : Deeper} {context : RecipeContext}

theorem evaluateBlock_alike {body body' : Evaluating Unit} (inner : EndAlike body body') (name : String)
    (line line' : Nat) (attached : Bool) :
    EndAlike (evaluateBlock context name line attached body) (evaluateBlock context name line' attached body') := by
  intro before finished after
  simp only [evaluateBlock_eq_ok, inScope_eq_ok, inner _ () _]

theorem attach_alike (line line' : Nat) (entity : Entity) :
    EndAlike (attach context line entity) (attach context line' entity) := by
  intro before _ after
  rw [attach_eq_ok, attach_eq_ok]

theorem assign_alike (line line' : Nat) (name : String) (values : List Value) :
    EndAlike (assign deeper context line name values) (assign deeper context line' name values) := by
  refine .bind (fun before _ after => ?_) fun _ => ?_
  · rw [bindName_eq_ok, bindName_eq_ok]
  · split
    · intro before _ after
      rw [loadService_eq_ok, loadService_eq_ok]
    · exact .refl _

section Files

variable {values values' : Evaluating (List Value)} (evaluated : EndAlike values values') (line line' : Nat)
include evaluated

theorem splice_alike : EndAlike (splice deeper context line values) (splice deeper context line' values') := by
  intro before _ after
  rw [splice_eq_ok, splice_eq_ok]
  simp only [evaluated before]

theorem extendBase_alike :
    EndAlike (extendBase deeper context line values) (extendBase deeper context line' values') := by
  intro before _ after
  rw [extendBase_eq_ok, extendBase_eq_ok]
  simp only [evaluated before]

end Files

mutual

theorem evaluate_unnumbered (line line' : Nat) (expression : Expression) :
    EndAlike (evaluate deeper context line expression) (evaluate deeper context line' expression.unnumbered) := by
  cases expression with
  | null | bool | int | float | text => exact .refl _
  | interpolated parts =>
    intro before value after
    rw [Expression.unnumbered, evaluate_interpolated_eq_ok, evaluate_interpolated_eq_ok]
  | reference name =>
    intro before value after
    rw [Expression.unnumbered, evaluate_reference_eq_ok, evaluate_reference_eq_ok]
  | list items =>
    rw [Expression.unnumbered, evaluate, evaluate]
    exact (evaluateItems_unnumbered line line' items).bind fun _ => .refl _
  | map entries =>
    rw [Expression.unnumbered, evaluate, evaluate]
    exact (evaluateEntries_unnumbered line line' [] entries).bind fun _ => .refl _
  | block name blockLine body =>
    rw [Expression.unnumbered, evaluate, evaluate]
    exact (evaluateBlock_alike (evaluateStatements_unnumbered body) name blockLine 0 false).bind fun _ => .refl _
  | load path =>
    intro before value after
    rw [Expression.unnumbered, evaluate, evaluate, loadValue_eq_ok, loadValue_eq_ok]
termination_by structural expression

theorem evaluateItems_unnumbered (line line' : Nat) (items : List Expression) :
    EndAlike (evaluateItems deeper context line items)
      (evaluateItems deeper context line' (Expression.allUnnumbered items)) := by
  cases items with
  | nil => exact .refl _
  | cons first rest =>
    rw [Expression.allUnnumbered, evaluateItems, evaluateItems]
    exact (evaluate_unnumbered line line' first).bind fun _ =>
      (evaluateItems_unnumbered line line' rest).bind fun _ => .refl _
termination_by structural items

theorem evaluateEntries_unnumbered (line line' : Nat) (mapping : Mapping) (entries : List (String × Expression)) :
    EndAlike (evaluateEntries deeper context line mapping entries)
      (evaluateEntries deeper context line' mapping (Expression.entriesUnnumbered entries)) := by
  match entries with
  | [] => exact .refl _
  | (key, item) :: rest =>
    rw [Expression.entriesUnnumbered, evaluateEntries, evaluateEntries]
    exact (evaluate_unnumbered line line' item).bind fun _ => evaluateEntries_unnumbered line line' _ rest
termination_by structural entries

theorem evaluateStatement_unnumbered (declaration : Declaration) :
    EndAlike (evaluateStatement deeper context declaration)
      (evaluateStatement deeper context declaration.unnumbered) := by
  cases declaration with
  | mk name line body =>
    rw [Declaration.unnumbered, evaluateStatement, evaluateStatement]
    exact (evaluateBody_unnumbered name line 0 body).bind fun _ => .refl _
termination_by structural declaration

theorem evaluateBody_unnumbered (name : String) (line line' : Nat) (body : Body) :
    EndAlike (evaluateBody deeper context name line body)
      (evaluateBody deeper context name line' body.unnumbered) := by
  cases body with
  | block declarations =>
    rw [Body.unnumbered, evaluateBody, evaluateBody]
    exact (evaluateBlock_alike (evaluateStatements_unnumbered declarations) name line line' true).bind fun entity =>
      attach_alike line line' entity
  | arguments expressions =>
    have values := evaluateItems_unnumbered line line' expressions
    rw [Body.unnumbered, evaluateBody, evaluateBody]
    by_cases extend : name = extendWord
    · simp only [if_pos extend]
      exact extendBase_alike values line line'
    · by_cases load : name = loadWord
      · simp only [if_neg extend, if_pos load]
        exact splice_alike values line line'
      · simp only [if_neg extend, if_neg load]
        exact values.bind fun given => assign_alike line line' name given
  | assignment expression =>
    rw [Body.unnumbered, evaluateBody, evaluateBody]
    exact (evaluate_unnumbered line line' expression).bind fun value => assign_alike line line' name [value]
termination_by structural body

theorem evaluateStatements_unnumbered (declarations : List Declaration) :
    EndAlike (evaluateStatements deeper context declarations)
      (evaluateStatements deeper context (Declaration.allUnnumbered declarations)) := by
  cases declarations with
  | nil => exact .refl _
  | cons first rest =>
    rw [Declaration.allUnnumbered, evaluateStatements, evaluateStatements]
    exact (evaluateStatement_unnumbered first).bind fun _ => evaluateStatements_unnumbered rest
termination_by structural declarations

end

/-- A block becomes the same entity whatever lines its declarations stand on. -/
theorem evaluateBlock_unnumbered (name : String) (line : Nat) (attached : Bool) (declarations : List Declaration)
    (state : Evaluation) (finished : Entity) :
    Running.Gives (evaluateBlock context name line attached (evaluateStatements deeper context declarations)) state
        finished ↔
      Running.Gives (evaluateBlock context name line attached (evaluateStatements deeper context
        (Declaration.allUnnumbered declarations))) state finished :=
  (evaluateBlock_alike (evaluateStatements_unnumbered declarations) name line line attached).gives state finished

end Evaluation

end DeployRecipe
