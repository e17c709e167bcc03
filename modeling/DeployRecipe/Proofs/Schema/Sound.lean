import DeployRecipe.Entity.Kind
import DeployRecipe.Proofs.Schema.Kept
import DeployRecipe.Proofs.Value

/-!
The records of services, applications and clouds have distinct names, and each of their defaults is kept. It
can be computed whether a shape is so.
-/

namespace DeployRecipe

/-- Whether a value is read as a kept one. -/
def Value.isKept (read : Except DecodeError Value) (kept : Value) : Bool :=
  match read with
  | .ok found => found.identical kept
  | .error _ => false

theorem Value.eq_of_isKept {read : Except DecodeError Value} {kept : Value}
    (same : isKept read kept = true) : read = .ok kept := by
  cases read with
  | ok found => exact congrArg Except.ok (eq_of_identical found kept same)
  | error error => cases same

mutual

/-- Whether a shape is sound. -/
def Shape.check : Shape → Bool
  | .optional inner => inner.check
  | .list inner => inner.check
  | .map inner => inner.check
  | .choice choices => choices.all fun member =>
      Value.isKept (Shape.decodeChoice choices member.name) (.text member.name)
  | .record _ _ layout => decide layout.names.Nodup && layout.check
  | _ => true

def Layout.check : Layout → Bool
  | .nil => true
  | .field _ shape absent rest => shape.check && (Value.isKept (shape.decode absent) absent && rest.check)

end

mutual

theorem Shape.sound_of_check : (shape : Shape) → shape.check = true → shape.Sound
  | .optional inner, checked => inner.sound_of_check checked
  | .list inner, checked => inner.sound_of_check checked
  | .map inner, checked => inner.sound_of_check checked
  | .choice _, checked => fun _ member => Value.eq_of_isKept (List.all_eq_true.mp checked _ member)
  | .record _ _ layout, checked => by
    obtain ⟨distinct, fields⟩ := (Bool.and_eq_true _ _).mp checked
    exact ⟨of_decide_eq_true distinct, layout.sound_of_check fields⟩
  | .any, _ | .text, _ | .bool, _ | .int _, _ | .double, _ | .executable, _ | .widget, _ => trivial

theorem Layout.sound_of_check : (layout : Layout) → layout.check = true → layout.Sound
  | .nil, _ => trivial
  | .field _ shape absent rest, checked => by
    obtain ⟨inner, others⟩ := (Bool.and_eq_true _ _).mp checked
    obtain ⟨kept, fields⟩ := (Bool.and_eq_true _ _).mp others
    exact ⟨shape.sound_of_check inner, Value.eq_of_isKept kept, rest.sound_of_check fields⟩

end

namespace EntityKind

theorem shape_sound (kind : EntityKind) : kind.shape.Sound := by
  apply Shape.sound_of_check
  cases kind <;> decide +kernel

end EntityKind

end DeployRecipe
