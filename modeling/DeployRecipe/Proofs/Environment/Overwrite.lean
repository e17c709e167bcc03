import DeployRecipe.Environment
import DeployRecipe.Proofs.DottedName
import DeployRecipe.Proofs.Entries

/-!
Overwriting a name in a table: the name has the new value, the names within it are gone, and every other
name keeps its value.
-/

namespace DeployRecipe.Table

theorem find?_overwrite (table : Table) (key other : String) (value : Value) :
    (table.overwrite key value).find? other =
      if key = other then some value
      else if DottedName.isWithin other key then none else table.find? other := by
  have kept := Entries.find?_filter table (fun name => !DottedName.isWithin name key) other
  rw [overwrite, Entries.find?_insert, kept]
  by_cases same : key = other <;> by_cases inside : DottedName.isWithin other key <;>
    simp [same, inside]

theorem mem_overwrite {table : Table} {key : String} {value : Value} {entry : String × Value}
    (member : entry ∈ table.overwrite key value) :
    entry = (key, value) ∨ entry ∈ table ∧ DottedName.isWithin entry.1 key = false := by
  rcases Entries.mem_insert member with equal | old
  · exact Or.inl equal
  · simpa using Or.inr (List.mem_filter.mp old)

/-- A name around an overwritten one keeps its value. -/
theorem find?_overwrite_of_around (table : Table) {key outer : String}
    (around : DottedName.isWithin key outer = true) (value : Value) :
    (table.overwrite key value).find? outer = table.find? outer := by
  have differs : key ≠ outer := by
    rintro rfl
    simp at around
  rw [find?_overwrite, if_neg differs, DottedName.isWithin_asymm around]
  simp

/-- The three ways in which a name is looked up, in their order. -/
theorem lookup?_eq (table : Table) (key : String) :
    table.lookup? key = (table.find? key).or
      ((((List.range ((DottedName.segments key).length - 1)).reverse.map (· + 1)).findSome?
        (table.descendAfter? (DottedName.segments key))).or (table.gather? key)) := by
  rw [lookup?]
  cases table.find? key with
  | some value => rfl
  | none =>
    dsimp only
    split
    · rename_i value found
      simp only [found, Option.none_or, Option.some_or]
    · rename_i missing
      simp only [missing, Option.none_or]

theorem overwriteAll_append (table first rest : Table) :
    table.overwriteAll (first ++ rest) = (table.overwriteAll first).overwriteAll rest := by
  simp [overwriteAll]

@[simp] theorem overwriteAll_nil (table : Table) : table.overwriteAll [] = table := rfl

@[simp] theorem overwriteAll_cons (table rest : Table) (entry : String × Value) :
    table.overwriteAll (entry :: rest) = (table.overwrite entry.1 entry.2).overwriteAll rest := rfl

end DeployRecipe.Table
