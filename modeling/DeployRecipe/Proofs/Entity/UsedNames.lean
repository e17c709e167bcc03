import DeployRecipe.Proofs.Entity.Binding

/-!
The names that were given a value in a block. Two names overlap if they are the same or one is within the
other; a name is free as long as it overlaps none that is used, and only then it is given a value.
-/

namespace DeployRecipe

namespace DottedName

/-- Two names are the same, or one is within the other. -/
def Overlaps (first second : String) : Prop :=
  first = second ∨ isWithin first second = true ∨ isWithin second first = true

instance (first second : String) : Decidable (Overlaps first second) :=
  inferInstanceAs (Decidable (_ ∨ _ ∨ _))

theorem overlaps_comm {first second : String} : Overlaps first second ↔ Overlaps second first := by
  rw [Overlaps, Overlaps, eq_comm, or_comm (a := isWithin first second = true)]

theorem overlaps_within {outer first second : String} :
    Overlaps (within outer first) (within outer second) ↔ Overlaps first second := by
  rw [Overlaps, Overlaps, within_inj, isWithin_within_within, isWithin_within_within]

/-- What overlaps a name overlaps every name around it. -/
theorem Overlaps.around {first second outer : String} (overlaps : Overlaps first second)
    (inside : isWithin second outer = true) : Overlaps first outer := by
  rcases overlaps with rfl | deeper | around
  · exact Or.inr (Or.inl inside)
  · exact Or.inr (Or.inl (isWithin_trans deeper inside))
  · exact isWithin_or_of_isWithin around inside

/-- A name without a dot overlaps the names that begin with it. -/
theorem Overlaps.head_eq {first second : String} (overlaps : Overlaps first second)
    (plain : isDotted second = false) : head first = second := by
  rw [← head_of_not_dotted plain]
  rcases overlaps with rfl | inside | around
  · rfl
  · exact head_of_isWithin inside
  · rw [isWithin_of_not_dotted plain] at around
    cases around

/-- A path begins with a name without a dot only if the two overlap. -/
theorem overlaps_of_head_eq {name path : String} (plain : isDotted name = false) (same : head path = name) :
    Overlaps name path := by
  have leads : segments name <+: segments path := by
    rw [segments_of_not_dotted plain]
    rcases segments_cases path with ⟨parts, _⟩ | ⟨next, rest, parts⟩
    · rw [parts, ← same, ‹head path = path›]
    · rw [parts, same]
      exact List.prefix_append [name] _
  rcases eq_or_isWithin_of_prefix leads with equal | inside
  · exact .inl equal
  · exact .inr (.inr inside)

theorem not_overlaps_of_ne {first second : String} (differs : first ≠ second)
    (one : isDotted first = false) (other : isDotted second = false) : ¬ Overlaps first second := by
  intro overlaps
  exact differs ((head_of_not_dotted one).symm.trans (overlaps.head_eq other))

end DottedName

namespace UsedNames

open DottedName

theorem covers_eq_false_iff {used : UsedNames} {path : String} :
    used.covers path = false ↔ ∀ name ∈ used, ¬ Overlaps name path := by
  simp only [covers, List.any_eq_false, Overlaps]
  refine forall₂_congr fun name _ => ?_
  simp [or_assoc, or_comm (a := isWithin path name = true)]

theorem mem_add {used : UsedNames} {name other : String} : other ∈ used.add name ↔ other = name ∨ other ∈ used := by
  rw [add]
  split
  · rename_i there
    constructor
    · exact Or.inr
    · rintro (rfl | member)
      · simpa using there
      · exact member
  · simp [or_comm]

theorem subset_add (used : UsedNames) (name : String) : used ⊆ used.add name :=
  fun _ member => mem_add.mpr (Or.inr member)

/-- A name stays free when one is used that it does not overlap. -/
theorem covers_add {used : UsedNames} {name path : String} :
    (used.add name).covers path = false ↔ ¬ Overlaps name path ∧ used.covers path = false := by
  simp only [covers_eq_false_iff, mem_add, forall_eq_or_imp]

end UsedNames

namespace Entity

/-- To give a property a value in a block is to assign it, as long as its name is free. -/
theorem bind_eq_ok_iff {entity changed : Entity} {used more : UsedNames} {name : String}
    {arguments : List Value} :
    entity.bind used name arguments = .ok (changed, more) ↔
      ∃ value, single entity.kind name arguments = .ok value ∧ used.covers name = false ∧
        entity.assignPath [name] value = .ok changed ∧ more = used.add name := by
  rw [bind, Running.attempt_eq_ok]
  refine exists_congr fun value => and_congr_right fun _ => ?_
  rw [assignPath_last]
  cases entity.isWritable name with
  | false => simp [throw, throwThe, MonadExceptOf.throw, Bind.bind, Except.bind]
  | true =>
    cases used.covers name with
    | true => simp [throw, throwThe, MonadExceptOf.throw, Bind.bind, Except.bind]
    | false =>
      simp only [Bool.not_true, Bool.false_eq_true, if_false, if_true, Running.attempt_eq_ok, true_and]
      constructor
      · rintro ⟨result, set, same⟩
        cases same
        exact ⟨set, rfl⟩
      · rintro ⟨set, rfl⟩
        exact ⟨changed, set, rfl⟩

end Entity

end DeployRecipe
