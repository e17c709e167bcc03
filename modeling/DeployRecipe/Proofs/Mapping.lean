import DeployRecipe.Value.Basic
import Mathlib.Tactic

/-!
Mappings as tables of text keys and as trees of paths. Values at paths that part before a path which is
there can be set in either order.
-/

namespace DeployRecipe.Mapping

theorem find?_insert (mapping : Mapping) (key other : String) (value : Value) :
    (mapping.insert key value).find? other = if key = other then some value else mapping.find? other := by
  induction mapping with
  | nil => simp [insert, find?]
  | cons entry rest inductionHypothesis =>
    obtain ⟨present, old⟩ := entry
    cases present with
    | text name =>
      by_cases same : name = key
      · subst same
        simp only [insert, if_true, find?]
        split <;> rfl
      · rw [insert, if_neg same, find?, inductionHypothesis, find?]
        by_cases here : name = other
        · rw [if_pos here, if_pos here, if_neg]
          rintro rfl
          exact same here
        · rw [if_neg here, if_neg here]
    | _ =>
      rw [insert, find?, inductionHypothesis, find?]
      all_goals simp

theorem find?_ofTable (table : Table) (name : String) :
    (ofValue (Value.ofTable table)).find? name = table.find? name := by
  induction table with
  | nil => rfl
  | cons entry rest inductionHypothesis =>
    simp only [Value.ofTable, ofValue, List.map_cons, find?, Entries.find?]
    split
    · rfl
    · exact inductionHypothesis

theorem insert_ofTable (table : Table) (name : String) (value : Value) :
    (ofValue (.ofTable table)).insert name value = ofValue (.ofTable (table.insert name value)) := by
  induction table with
  | nil => rfl
  | cons entry rest inductionHypothesis =>
    obtain ⟨present, old⟩ := entry
    simp only [Value.ofTable, ofValue, List.map_cons, insert, Entries.insert] at inductionHypothesis ⊢
    split
    · rfl
    · rw [inductionHypothesis, List.map_cons]

/-- A path is followed through the value of its first key. -/
theorem descend?_congr {first second : Mapping} {key : String} (same : first.find? key = second.find? key)
    (rest : List String) : first.descend? (key :: rest) = second.descend? (key :: rest) := by
  cases rest with
  | nil => simpa only [descend?] using same
  | cons next more => simp only [descend?, same]

theorem insert_insert (mapping : Mapping) (key : String) (value other : Value) :
    (mapping.insert key value).insert key other = mapping.insert key other := by
  induction mapping with
  | nil => simp [insert]
  | cons entry rest inductionHypothesis =>
    obtain ⟨present, old⟩ := entry
    cases present with
    | text name =>
      by_cases same : name = key
      · simp [insert, same]
      · simp [insert, same, inductionHypothesis]
    | _ => simp [insert, inductionHypothesis]

/-- Two keys are set in either order if one of them is there. -/
theorem insert_comm {mapping : Mapping} {key other : String} (differs : key ≠ other)
    (there : mapping.find? key ≠ none) (value more : Value) :
    (mapping.insert key value).insert other more = (mapping.insert other more).insert key value := by
  induction mapping with
  | nil => exact absurd rfl there
  | cons entry rest inductionHypothesis =>
    obtain ⟨present, old⟩ := entry
    cases present with
    | text name =>
      by_cases here : name = key
      · simp [insert, here, differs]
      · rw [find?, if_neg here] at there
        by_cases last : name = other
        · simp [insert, last, differs.symm]
        · simp [insert, here, last, inductionHypothesis there]
    | _ =>
      rw [find?] at there
      · simp [insert, inductionHypothesis there]
      · simp

/-- What a value becomes in which a path is set. -/
def within (current : Option Value) (path : List String) (value : Value) : Value :=
  if path = [] then value else .mapping (insertPath (ofValue (current.getD .null)) path value)

theorem insertPath_cons (mapping : Mapping) (key : String) (rest : List String) (value : Value) :
    mapping.insertPath (key :: rest) value = mapping.insert key (within (mapping.find? key) rest value) := by
  cases rest <;> rfl

/-- A path is there if its first key is, and leads to a mapping that has the rest of the path. -/
theorem descend?_cons_ne_none {mapping : Mapping} {key : String} {rest : List String} :
    mapping.descend? (key :: rest) ≠ none ↔
      rest = [] ∧ mapping.find? key ≠ none ∨
        ∃ inner : Mapping, mapping.find? key = some (.mapping inner) ∧ descend? inner rest ≠ none := by
  cases rest with
  | nil => simp [descend?]
  | cons next more =>
    rw [descend?]
    · cases mapping.find? key with
      | none => simp
      | some value => cases value <;> simp
    · simp

theorem descend?_insertPath_self (mapping : Mapping) {path : List String} (some : path ≠ []) (value : Value) :
    (mapping.insertPath path value).descend? path ≠ none := by
  induction path generalizing mapping with
  | nil => exact absurd rfl some
  | cons key rest inductionHypothesis =>
    rw [insertPath_cons, descend?_cons_ne_none, find?_insert, if_pos rfl]
    by_cases last : rest = []
    · exact Or.inl ⟨last, Option.some_ne_none _⟩
    · exact Or.inr ⟨_, by rw [within, if_neg last], inductionHypothesis _ last⟩

/-- A path stays where a value is set that is not on the way to it. -/
theorem descend?_insertPath_of_not_prefix {mapping : Mapping} {path other : List String}
    (there : mapping.descend? path ≠ none) (aside : ¬ other <+: path) (value : Value) :
    (mapping.insertPath other value).descend? path ≠ none := by
  induction path generalizing mapping other with
  | nil => exact absurd rfl there
  | cons key rest inductionHypothesis =>
    cases other with
    | nil => exact absurd (List.nil_prefix) aside
    | cons first more =>
      rw [descend?_cons_ne_none] at there
      rw [insertPath_cons, descend?_cons_ne_none, find?_insert]
      by_cases same : first = key
      · subst same
        have further : ¬ more <+: rest := fun leads => aside (List.cons_prefix_cons.mpr ⟨rfl, leads⟩)
        have some : more ≠ [] := by
          rintro rfl
          exact further List.nil_prefix
        rw [if_pos rfl]
        rcases there with ⟨last, _⟩ | ⟨inner, found, deeper⟩
        · exact Or.inl ⟨last, Option.some_ne_none _⟩
        · refine Or.inr ⟨insertPath inner more value, ?_, inductionHypothesis deeper further⟩
          rw [within, if_neg some, found]
          rfl
      · rwa [if_neg same]

/-- Two paths are set in either order if the second one goes on from a path that is there, and that path
and the first one part. -/
theorem insertPath_comm {mapping : Mapping} {path first : List String}
    (there : mapping.descend? path ≠ none) (short : ¬ first <+: path) (long : ¬ path <+: first)
    (rest : List String) (value more : Value) :
    (mapping.insertPath first value).insertPath (path ++ rest) more =
      (mapping.insertPath (path ++ rest) more).insertPath first value := by
  induction path generalizing mapping first with
  | nil => exact absurd List.nil_prefix long
  | cons key further inductionHypothesis =>
    cases first with
    | nil => exact absurd List.nil_prefix short
    | cons other others =>
      rw [descend?_cons_ne_none] at there
      simp only [List.cons_append, insertPath_cons, find?_insert]
      by_cases same : other = key
      · subst same
        have shorter : ¬ others <+: further := fun leads => short (List.cons_prefix_cons.mpr ⟨rfl, leads⟩)
        have longer : ¬ further <+: others := fun leads => long (List.cons_prefix_cons.mpr ⟨rfl, leads⟩)
        have one : others ≠ [] := by
          rintro rfl
          exact shorter List.nil_prefix
        have two : further ++ rest ≠ [] := by
          intro none
          obtain ⟨rfl, _⟩ := List.append_eq_nil_iff.mp none
          exact longer List.nil_prefix
        rcases there with ⟨rfl, _⟩ | ⟨inner, found, deeper⟩
        · exact absurd List.nil_prefix longer
        · simp only [if_true, insert_insert, within, if_neg one, if_neg two, found, Option.getD_some, ofValue]
          rw [inductionHypothesis deeper shorter longer]
      · have found : mapping.find? key ≠ none := by
          rcases there with ⟨_, found⟩ | ⟨_, found, _⟩
          · exact found
          · simp [found]
        rw [if_neg same, if_neg (Ne.symm same)]
        exact (insert_comm (Ne.symm same) found _ _).symm

end DeployRecipe.Mapping
