import DeployRecipe.Recipe.Grammar

/-!
What a text is read as, checked by computation. Trees are compared piece by piece, and trees that compare equal are.
-/

namespace DeployRecipe

mutual

/-- Compares two values as they are written. -/
def Expression.same : Expression → Expression → Bool
  | .null, .null => true
  | .bool one, .bool other => one = other
  | .int one, .int other => one = other
  | .float one, .float other => one = other
  | .text one, .text other => one = other
  | .interpolated one, .interpolated other => one = other
  | .list one, .list other => Expression.sameItems one other
  | .map one, .map other => Expression.sameEntries one other
  | .reference one, .reference other => one = other
  | .block one line body, .block other line' body' => one = other && line = line' && Declaration.sameAll body body'
  | .load one, .load other => one = other
  | _, _ => false

def Expression.sameItems : List Expression → List Expression → Bool
  | [], [] => true
  | one :: rest, other :: rest' => Expression.same one other && Expression.sameItems rest rest'
  | _, _ => false

def Expression.sameEntries : List (String × Expression) → List (String × Expression) → Bool
  | [], [] => true
  | (key, one) :: rest, (key', other) :: rest' =>
    key = key' && Expression.same one other && Expression.sameEntries rest rest'
  | _, _ => false

/-- Compares two declarations, with the lines that they start on. -/
def Declaration.same : Declaration → Declaration → Bool
  | .mk one line body, .mk other line' body' => one = other && line = line' && Body.same body body'

def Body.same : Body → Body → Bool
  | .block one, .block other => Declaration.sameAll one other
  | .arguments one, .arguments other => Expression.sameItems one other
  | .assignment one, .assignment other => Expression.same one other
  | _, _ => false

def Declaration.sameAll : List Declaration → List Declaration → Bool
  | [], [] => true
  | one :: rest, other :: rest' => Declaration.same one other && Declaration.sameAll rest rest'
  | _, _ => false

end

mutual

theorem Expression.eq_of_same {one other : Expression} (same : one.same other = true) : one = other := by
  cases one with
  | list items =>
    cases other <;> simp only [Expression.same, Bool.false_eq_true] at same
    rw [Expression.eq_of_sameItems same]
  | map entries =>
    cases other <;> simp only [Expression.same, Bool.false_eq_true] at same
    rw [Expression.eq_of_sameEntries same]
  | block name line body =>
    cases other <;> simp only [Expression.same, Bool.false_eq_true, Bool.and_eq_true, decide_eq_true_eq] at same
    rw [same.1.1, same.1.2, Declaration.eq_of_sameAll same.2]
  | _ => cases other <;> simp_all [Expression.same]
termination_by structural one

theorem Expression.eq_of_sameItems {one other : List Expression} (same : Expression.sameItems one other = true) :
    one = other := by
  cases one with
  | nil => cases other <;> simp_all [Expression.sameItems]
  | cons first rest =>
    cases other <;> simp only [Expression.sameItems, Bool.false_eq_true, Bool.and_eq_true] at same
    rw [Expression.eq_of_same same.1, Expression.eq_of_sameItems same.2]
termination_by structural one

theorem Expression.eq_of_sameEntries {one other : List (String × Expression)}
    (same : Expression.sameEntries one other = true) : one = other := by
  match one, other with
  | [], other => cases other <;> simp_all [Expression.sameEntries]
  | (key, first) :: rest, [] => simp [Expression.sameEntries] at same
  | (key, first) :: rest, (key', first') :: rest' =>
    simp only [Expression.sameEntries, Bool.and_eq_true, decide_eq_true_eq] at same
    rw [same.1.1, Expression.eq_of_same same.1.2, Expression.eq_of_sameEntries same.2]
termination_by structural one

theorem Declaration.eq_of_same {one other : Declaration} (same : one.same other = true) : one = other := by
  cases one
  cases other
  simp only [Declaration.same, Bool.and_eq_true, decide_eq_true_eq] at same
  rw [same.1.1, same.1.2, Body.eq_of_same same.2]
termination_by structural one

theorem Body.eq_of_same {one other : Body} (same : one.same other = true) : one = other := by
  cases one with
  | block declarations =>
    cases other <;> simp only [Body.same, Bool.false_eq_true] at same
    rw [Declaration.eq_of_sameAll same]
  | arguments values =>
    cases other <;> simp only [Body.same, Bool.false_eq_true] at same
    rw [Expression.eq_of_sameItems same]
  | assignment value =>
    cases other <;> simp only [Body.same, Bool.false_eq_true] at same
    rw [Expression.eq_of_same same]
termination_by structural one

theorem Declaration.eq_of_sameAll {one other : List Declaration} (same : Declaration.sameAll one other = true) :
    one = other := by
  cases one with
  | nil => cases other <;> simp_all [Declaration.sameAll]
  | cons first rest =>
    cases other <;> simp only [Declaration.sameAll, Bool.false_eq_true, Bool.and_eq_true] at same
    rw [Declaration.eq_of_same same.1, Declaration.eq_of_sameAll same.2]
termination_by structural one

end

namespace Recipe

/-- The text is read, and as these declarations. -/
def readsAs (text : String) (declarations : List Declaration) : Bool :=
  (readDeclarations text).toOption.any fun found => Declaration.sameAll found declarations

theorem readDeclarations_of_readsAs {text : String} {declarations : List Declaration}
    (reads : readsAs text declarations = true) : readDeclarations text = .ok declarations := by
  rw [readsAs] at reads
  cases read : readDeclarations text with
  | error error =>
    rw [read] at reads
    cases reads
  | ok found =>
    rw [read] at reads
    exact congrArg Except.ok (Declaration.eq_of_sameAll reads)

end Recipe

end DeployRecipe
