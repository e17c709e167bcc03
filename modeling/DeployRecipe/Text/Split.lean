/-!
Splitting a text at a separator. Joining the parts gives the text back, and parts that do not hold the
separator are found again in their join.
-/

namespace DeployRecipe.Text

/-- The parts between the separators. There is always a first part. -/
def split (separator : Char) : List Char → List (List Char)
  | [] => [[]]
  | character :: rest =>
    if character = separator then [] :: split separator rest
    else
      match split separator rest with
      | [] => [[character]]
      | first :: others => (character :: first) :: others

/-- The parts with separators between them. -/
def join (separator : Char) : List (List Char) → List Char
  | [] => []
  | [last] => last
  | first :: rest => first ++ separator :: join separator rest

theorem split_ne_nil (separator : Char) (text : List Char) : split separator text ≠ [] := by
  fun_cases split separator text <;> simp_all

theorem join_split (separator : Char) (text : List Char) :
    join separator (split separator text) = text := by
  induction text with
  | nil => rfl
  | cons character rest inductionHypothesis =>
    cases parts : split separator rest with
    | nil => exact absurd parts (split_ne_nil separator rest)
    | cons first others =>
      rw [parts] at inductionHypothesis
      by_cases same : character = separator
      · simp [split, same, parts, join, inductionHypothesis]
      · cases others <;> simp_all [split, join]

theorem split_append_separator (separator : Char) (first rest : List Char)
    (plain : separator ∉ first) :
    split separator (first ++ separator :: rest) = first :: split separator rest := by
  induction first with
  | nil => simp [split]
  | cons character others inductionHypothesis =>
    simp only [List.mem_cons, not_or] at plain
    have differs : ¬ character = separator := fun same => plain.1 same.symm
    simp [split, differs, inductionHypothesis plain.2]

theorem split_of_not_mem (separator : Char) (text : List Char) (plain : separator ∉ text) :
    split separator text = [text] := by
  induction text with
  | nil => rfl
  | cons character rest inductionHypothesis =>
    simp only [List.mem_cons, not_or] at plain
    have differs : ¬ character = separator := fun same => plain.1 same.symm
    simp [split, differs, inductionHypothesis plain.2]

theorem split_join (separator : Char) (parts : List (List Char)) (some : parts ≠ [])
    (plain : ∀ part ∈ parts, separator ∉ part) : split separator (join separator parts) = parts := by
  induction parts with
  | nil => exact absurd rfl some
  | cons first rest inductionHypothesis =>
    cases rest with
    | nil => exact split_of_not_mem separator first (plain first (by simp))
    | cons second others =>
      rw [join, split_append_separator separator first _ (plain first (by simp)),
        inductionHypothesis (by simp) fun part member => plain part (by simp [member])]
      simp

end DeployRecipe.Text
