import DeployRecipe.Value.Basic

/-!
Whether two values are built alike can be computed.
-/

namespace DeployRecipe

namespace Value

mutual

/-- Whether two values are built alike. -/
def identical : Value → Value → Bool
  | .null, .null => true
  | .bool left, .bool right => left = right
  | .int left, .int right => left = right
  | .float left, .float right => left = right
  | .text left, .text right => left = right
  | .sequence left, .sequence right => identicalItems left right
  | .mapping left, .mapping right => identicalEntries left right
  | .tagged tag left, .tagged other right => tag = other && identical left right
  | _, _ => false

def identicalItems : List Value → List Value → Bool
  | [], [] => true
  | left :: lefts, right :: rights => identical left right && identicalItems lefts rights
  | _, _ => false

def identicalEntries : List (Value × Value) → List (Value × Value) → Bool
  | [], [] => true
  | (key, left) :: lefts, (other, right) :: rights =>
    identical key other && identical left right && identicalEntries lefts rights
  | _, _ => false

end

mutual

theorem eq_of_identical : (left right : Value) → identical left right = true → left = right
  | .null, right, same => by
    cases right with
    | null => rfl
    | _ => cases same
  | .bool left, right, same => by
    cases right with
    | bool right => exact congrArg bool (of_decide_eq_true same)
    | _ => cases same
  | .int left, right, same => by
    cases right with
    | int right => exact congrArg int (of_decide_eq_true same)
    | _ => cases same
  | .float left, right, same => by
    cases right with
    | float right => exact congrArg float (of_decide_eq_true same)
    | _ => cases same
  | .text left, right, same => by
    cases right with
    | text right => exact congrArg text (of_decide_eq_true same)
    | _ => cases same
  | .sequence left, right, same => by
    cases right with
    | sequence right => exact congrArg sequence (eq_of_identicalItems left right same)
    | _ => cases same
  | .mapping left, right, same => by
    cases right with
    | mapping right => exact congrArg mapping (eq_of_identicalEntries left right same)
    | _ => cases same
  | .tagged tag left, right, same => by
    cases right with
    | tagged other right =>
      obtain ⟨tags, inner⟩ := (Bool.and_eq_true _ _).mp same
      rw [of_decide_eq_true tags, eq_of_identical left right inner]
    | _ => cases same

theorem eq_of_identicalItems : (left right : List Value) → identicalItems left right = true → left = right
  | [], [], _ => rfl
  | left :: lefts, right :: rights, same => by
    obtain ⟨first, others⟩ := (Bool.and_eq_true _ _).mp same
    rw [eq_of_identical left right first, eq_of_identicalItems lefts rights others]

theorem eq_of_identicalEntries :
    (left right : List (Value × Value)) → identicalEntries left right = true → left = right
  | [], [], _ => rfl
  | (key, left) :: lefts, (other, right) :: rights, same => by
    obtain ⟨first, others⟩ := (Bool.and_eq_true _ _).mp same
    obtain ⟨keys, values⟩ := (Bool.and_eq_true _ _).mp first
    rw [eq_of_identical key other keys, eq_of_identical left right values,
      eq_of_identicalEntries lefts rights others]

end

mutual

theorem identical_self : (value : Value) → identical value value = true
  | .null => rfl
  | .bool _ | .int _ | .float _ | .text _ => decide_eq_true rfl
  | .sequence items => identicalItems_self items
  | .mapping entries => identicalEntries_self entries
  | .tagged _ inner => (Bool.and_eq_true _ _).mpr ⟨decide_eq_true rfl, identical_self inner⟩

theorem identicalItems_self : (items : List Value) → identicalItems items items = true
  | [] => rfl
  | first :: rest => (Bool.and_eq_true _ _).mpr ⟨identical_self first, identicalItems_self rest⟩

theorem identicalEntries_self : (entries : List (Value × Value)) → identicalEntries entries entries = true
  | [] => rfl
  | (key, value) :: rest => (Bool.and_eq_true _ _).mpr
    ⟨(Bool.and_eq_true _ _).mpr ⟨identical_self key, identical_self value⟩, identicalEntries_self rest⟩

end

instance : DecidableEq Value := fun left right =>
  decidable_of_iff (identical left right = true) ⟨eq_of_identical left right, fun same => same ▸ identical_self left⟩

end Value

end DeployRecipe
