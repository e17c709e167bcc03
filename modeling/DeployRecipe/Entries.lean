/-!
Ordered entries: lists of keys with values in which an insertion at a key that is present keeps the
place of the key. Each operation is said through `find?`.
-/

namespace DeployRecipe

/-- Keys with values, in the order in which the keys came. -/
abbrev Entries (κ α : Type) := List (κ × α)

namespace Entries

variable {κ α : Type} [DecidableEq κ]

/-- The value of a key. -/
def find? (entries : Entries κ α) (key : κ) : Option α :=
  match entries with
  | [] => none
  | (present, value) :: rest => if present = key then some value else find? rest key

/-- Some entry has the key. -/
def has (entries : Entries κ α) (key : κ) : Bool :=
  (entries.find? key).isSome

/-- Gives the key a value; a key that is present keeps its place, a new one comes last. -/
def insert (entries : Entries κ α) (key : κ) (value : α) : Entries κ α :=
  match entries with
  | [] => [(key, value)]
  | (present, old) :: rest =>
    if present = key then (present, value) :: rest else (present, old) :: insert rest key value

/-- Inserts entries one after the other. -/
def insertAll (entries more : Entries κ α) : Entries κ α :=
  more.foldl (fun entries entry => entries.insert entry.1 entry.2) entries

/-- The entries of a list in which a later entry replaces an earlier one of the same key. -/
def ofList (list : List (κ × α)) : Entries κ α :=
  insertAll [] list

def keys (entries : Entries κ α) : List κ :=
  entries.map Prod.fst

@[simp] theorem find?_nil (key : κ) : find? ([] : Entries κ α) key = none := rfl

@[simp] theorem find?_insert_self (entries : Entries κ α) (key : κ) (value : α) :
    (entries.insert key value).find? key = some value := by
  induction entries with
  | nil => simp [insert, find?]
  | cons entry rest inductionHypothesis =>
    obtain ⟨present, old⟩ := entry
    by_cases same : present = key <;> simp [insert, find?, same, inductionHypothesis]

theorem find?_insert_of_ne (entries : Entries κ α) {key other : κ} (different : key ≠ other)
    (value : α) : (entries.insert key value).find? other = entries.find? other := by
  induction entries with
  | nil => simp [insert, find?, different]
  | cons entry rest inductionHypothesis =>
    obtain ⟨present, old⟩ := entry
    by_cases same : present = key
    · subst same
      simp [insert, find?, different]
    · simp only [insert, same, if_false, find?, inductionHypothesis]

theorem keys_insert (entries : Entries κ α) (key : κ) (value : α) :
    (entries.insert key value).keys =
      if key ∈ entries.keys then entries.keys else entries.keys ++ [key] := by
  induction entries with
  | nil => simp [insert, keys]
  | cons entry rest inductionHypothesis =>
    obtain ⟨present, old⟩ := entry
    by_cases same : present = key
    · simp [insert, keys, same]
    · have differs : ¬ key = present := fun equal => same equal.symm
      simp only [keys, insert, same, if_false, List.map_cons, List.mem_cons, differs, false_or]
      simp only [keys] at inductionHypothesis
      rw [inductionHypothesis]
      split <;> simp_all

end Entries

end DeployRecipe
