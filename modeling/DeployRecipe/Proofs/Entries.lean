import DeployRecipe.Entries
import Mathlib.Tactic

/-!
Ordered entries whose keys are distinct: there, an entry is in the list exactly when it is found under its
key.
-/

namespace DeployRecipe.Entries

variable {κ α : Type} [DecidableEq κ]

theorem find?_append (first rest : Entries κ α) (key : κ) :
    find? (first ++ rest) key = (find? first key).or (find? rest key) := by
  induction first with
  | nil => rfl
  | cons entry others inductionHypothesis =>
    by_cases same : entry.1 = key <;> simp [find?, same, inductionHypothesis]

theorem find?_eq_none_iff (entries : Entries κ α) (key : κ) :
    entries.find? key = none ↔ ∀ entry ∈ entries, entry.1 ≠ key := by
  induction entries with
  | nil => simp
  | cons entry rest inductionHypothesis =>
    by_cases same : entry.1 = key <;> simp [find?, same, inductionHypothesis]

theorem find?_eq_none_iff_not_mem_keys (entries : Entries κ α) (key : κ) :
    entries.find? key = none ↔ key ∉ entries.keys := by
  rw [find?_eq_none_iff]
  simp only [keys, List.mem_map, ne_eq, not_exists, not_and]

theorem mem_of_find? {entries : Entries κ α} {key : κ} {value : α}
    (found : entries.find? key = some value) : (key, value) ∈ entries := by
  induction entries with
  | nil => simp at found
  | cons entry rest inductionHypothesis =>
    obtain ⟨present, content⟩ := entry
    by_cases same : present = key
    · simp only [find?, same, if_true, Option.some.injEq] at found
      simp [same, found]
    · simp only [find?, same, if_false] at found
      exact List.mem_cons_of_mem _ (inductionHypothesis found)

/-- Distinct keys make the entry of a key the one that is found. -/
theorem find?_of_mem {entries : Entries κ α} (distinct : entries.keys.Nodup) {key : κ} {value : α}
    (member : (key, value) ∈ entries) : entries.find? key = some value := by
  induction entries with
  | nil => simp at member
  | cons entry rest inductionHypothesis =>
    obtain ⟨present, content⟩ := entry
    simp only [keys, List.map_cons, List.nodup_cons] at distinct
    rcases List.mem_cons.mp member with equal | later
    · obtain ⟨rfl, rfl⟩ := Prod.mk.inj equal
      simp [find?]
    · have differs : present ≠ key := by
        rintro rfl
        exact distinct.1 (List.mem_map_of_mem later)
      rw [find?, if_neg differs]
      exact inductionHypothesis distinct.2 later

/-- A test of keys alone decides which keys are found after filtering. -/
theorem find?_filter (entries : Entries κ α) (keep : κ → Bool) (key : κ) :
    find? (entries.filter fun entry => keep entry.1) key =
      if keep key then entries.find? key else none := by
  induction entries with
  | nil => simp
  | cons entry rest inductionHypothesis =>
    obtain ⟨present, content⟩ := entry
    by_cases kept : keep present <;> by_cases same : present = key
    · simp [find?, same ▸ kept, same]
    · simp [find?, kept, same, inductionHypothesis]
    · subst same
      simp [kept, inductionHypothesis]
    · simp [find?, kept, same, inductionHypothesis]

theorem find?_insert (entries : Entries κ α) (key other : κ) (value : α) :
    (entries.insert key value).find? other =
      if key = other then some value else entries.find? other := by
  by_cases same : key = other
  · subst same
    simp
  · simp [same, find?_insert_of_ne]

theorem mem_keys_insert (entries : Entries κ α) (key other : κ) (value : α) :
    other ∈ (entries.insert key value).keys ↔ other = key ∨ other ∈ entries.keys := by
  rw [keys_insert]
  split <;> simp_all [or_comm]

theorem mem_insert {entries : Entries κ α} {key : κ} {value : α} {entry : κ × α}
    (member : entry ∈ entries.insert key value) : entry = (key, value) ∨ entry ∈ entries := by
  induction entries with
  | nil => simpa [insert] using member
  | cons first rest inductionHypothesis =>
    obtain ⟨present, old⟩ := first
    by_cases same : present = key
    · simp only [insert, same, if_true, List.mem_cons] at member
      rcases member with equal | later
      · exact Or.inl equal
      · exact Or.inr (List.mem_cons_of_mem _ later)
    · simp only [insert, same, if_false, List.mem_cons] at member
      rcases member with equal | later
      · exact Or.inr (by simp [equal])
      · exact (inductionHypothesis later).imp id (List.mem_cons_of_mem _)

theorem insert_of_not_mem {entries : Entries κ α} {key : κ} (new : key ∉ entries.keys) (value : α) :
    entries.insert key value = entries ++ [(key, value)] := by
  induction entries with
  | nil => rfl
  | cons entry rest inductionHypothesis =>
    simp only [keys, List.map_cons, List.mem_cons, not_or] at new
    rw [insert, if_neg (Ne.symm new.1), inductionHypothesis new.2]
    rfl

theorem insert_append (entries rest : Entries κ α) (key : κ) (value : α) :
    Entries.insert (entries ++ rest) key value =
      if key ∈ entries.keys then entries.insert key value ++ rest
      else entries ++ Entries.insert rest key value := by
  induction entries with
  | nil => rfl
  | cons entry others inductionHypothesis =>
    obtain ⟨present, old⟩ := entry
    by_cases same : present = key
    · simp [insert, keys, same]
    · have differs : ¬ key = present := fun equal => same equal.symm
      rw [List.cons_append, insert, if_neg same, inductionHypothesis, insert, if_neg same]
      have members : key ∈ keys ((present, old) :: others) ↔ key ∈ keys others := by
        simp [keys, differs]
      by_cases member : key ∈ keys others
      · rw [if_pos member, if_pos (members.mpr member)]
        rfl
      · rw [if_neg member, if_neg (mt members.mp member)]
        rfl

/-- Two keys are set in either order if one of them is there. -/
theorem insert_comm {entries : Entries κ α} {key other : κ} (differs : key ≠ other)
    (there : key ∈ entries.keys) (value more : α) :
    (entries.insert key value).insert other more = (entries.insert other more).insert key value := by
  induction entries with
  | nil => exact absurd there List.not_mem_nil
  | cons entry rest inductionHypothesis =>
    obtain ⟨present, old⟩ := entry
    by_cases here : present = key
    · simp [insert, here, differs]
    · have later : key ∈ keys rest :=
        (List.mem_cons.mp there).resolve_left fun same => here same.symm
      by_cases last : present = other
      · simp [insert, last, differs.symm]
      · simp [insert, here, last, inductionHypothesis later]

omit [DecidableEq κ] in
theorem keys_filter (entries : Entries κ α) (keep : κ → Bool) :
    keys (entries.filter fun entry => keep entry.1) = entries.keys.filter keep := by
  rw [keys, keys, List.filter_map]
  rfl

theorem filter_insert (entries : Entries κ α) (keep : κ → Bool) {key : κ} (kept : keep key = true)
    (value : α) :
    (entries.insert key value).filter (fun entry => keep entry.1) =
      Entries.insert (entries.filter fun entry => keep entry.1) key value := by
  induction entries with
  | nil => simp [insert, kept]
  | cons entry rest inductionHypothesis =>
    obtain ⟨present, old⟩ := entry
    by_cases same : present = key
    · simp [insert, same, kept]
    · by_cases stays : keep present = true
      · simp [insert, same, stays, inductionHypothesis]
      · simp [insert, same, stays, inductionHypothesis]

theorem filter_insert_of_neg (entries : Entries κ α) (keep : κ → Bool) {key : κ} (dropped : keep key = false)
    (value : α) :
    (entries.insert key value).filter (fun entry => keep entry.1) =
      entries.filter fun entry => keep entry.1 := by
  induction entries with
  | nil => simp [insert, dropped]
  | cons entry rest inductionHypothesis =>
    obtain ⟨present, old⟩ := entry
    by_cases same : present = key
    · simp [insert, same, dropped]
    · simp only [insert, same, if_false, List.filter_cons, inductionHypothesis]

theorem insert_insert (entries : Entries κ α) (key : κ) (first second : α) :
    (entries.insert key first).insert key second = entries.insert key second := by
  induction entries with
  | nil => simp [insert]
  | cons entry rest inductionHypothesis =>
    by_cases same : entry.1 = key <;> simp [insert, same, inductionHypothesis]

theorem insert_of_find? {entries : Entries κ α} {key : κ} {value : α}
    (found : entries.find? key = some value) : entries.insert key value = entries := by
  induction entries with
  | nil => cases found
  | cons entry rest inductionHypothesis =>
    obtain ⟨present, old⟩ := entry
    by_cases same : present = key
    · simp only [find?, same, if_true, Option.some.injEq] at found
      simp [insert, same, found]
    · simp only [find?, same, if_false] at found
      simp [insert, same, inductionHypothesis found]

end DeployRecipe.Entries
