import DeployRecipe.Proofs.Entity.UsedNames
import DeployRecipe.Proofs.Environment.Replacement

/-!
What a name has in a table depends on the entries whose names overlap it, and these are overwritten as if they
were alone.
-/

namespace DeployRecipe

open DottedName

namespace Table

/-- The entries whose names overlap a name. -/
def around (table : Table) (key : String) : Table :=
  table.filter fun entry => Overlaps entry.1 key

section Around

variable (table : Table) (key : String)

theorem around_append (first rest : Table) : around (first ++ rest) key = first.around key ++ rest.around key :=
  List.filter_append ..

theorem around_eq_nil_iff : table.around key = [] ↔ ∀ name ∈ table.keys, ¬ Overlaps name key := by
  simp [around, Entries.keys]

theorem find?_around {name : String} (overlaps : Overlaps name key) :
    (table.around key).find? name = table.find? name := by
  have kept := Entries.find?_filter table (fun name => decide (Overlaps name key)) name
  rwa [if_pos (decide_eq_true overlaps)] at kept

theorem gather?_around : (table.around key).gather? key = table.gather? key := by
  have parts : ((table.around key).filterMap fun entry =>
      (remainder? key entry.1).map fun remainder => (remainder, entry.2)) =
      table.filterMap fun entry => (remainder? key entry.1).map fun remainder => (remainder, entry.2) := by
    rw [around, List.filterMap_filter]
    refine List.filterMap_congr fun entry _ => ?_
    split
    · rfl
    · rename_i apart
      cases found : remainder? key entry.1 with
      | none => rfl
      | some rest =>
        have inside : isWithin entry.1 key = true := by rw [isWithin, found, Option.isSome_some]
        exact absurd (decide_eq_true (Or.inr (Or.inl inside))) apart
  rw [gather?, gather?, parts]

theorem descendAfter?_around {count : Nat} (positive : 0 < count) (proper : count < (segments key).length) :
    (table.around key).descendAfter? (segments key) count = table.descendAfter? (segments key) count := by
  rw [descendAfter?, descendAfter?,
    find?_around table key (Or.inr (Or.inr (isWithin_beginning key positive proper)))]

/-- What a name has depends on the entries around it. -/
theorem lookup?_around : (table.around key).lookup? key = table.lookup? key := by
  have enclosed : ((List.range ((segments key).length - 1)).reverse.map (· + 1)).findSome?
      ((table.around key).descendAfter? (segments key)) =
      ((List.range ((segments key).length - 1)).reverse.map (· + 1)).findSome?
        (table.descendAfter? (segments key)) := by
    rw [← List.head?_filterMap, ← List.head?_filterMap]
    refine congrArg List.head? (List.filterMap_congr fun count member => ?_)
    obtain ⟨smaller, small, rfl⟩ := List.mem_map.mp member
    have proper : smaller + 1 < (segments key).length := by
      have := List.mem_range.mp (List.mem_reverse.mp small)
      omega
    exact descendAfter?_around table key (Nat.succ_pos smaller) proper
  rw [lookup?_eq, lookup?_eq, find?_around table key (Or.inl rfl), enclosed, gather?_around]

end Around

theorem lookup?_nil (key : String) : Table.lookup? [] key = none := by
  have nowhere : Table.descendAfter? [] (segments key) = fun _ => none := rfl
  rw [lookup?_eq, nowhere]
  simp [gather?]

/-- Nothing overlaps the name, so it is not looked up. -/
theorem lookup?_eq_none {table : Table} {key : String} (aside : ∀ name ∈ table.keys, ¬ Overlaps name key) :
    table.lookup? key = none := by
  rw [← lookup?_around, (around_eq_nil_iff table key).mpr aside, lookup?_nil]

theorem around_cons (entry : String × Value) (rest : Table) (key : String) :
    around (entry :: rest) key = if Overlaps entry.1 key then entry :: around rest key else around rest key := by
  rw [around, List.filter_cons]
  simp only [decide_eq_true_eq, around]

/-- To overwrite a name concerns the names that overlap it. -/
theorem around_overwrite (table : Table) (name key : String) (value : Value) :
    (table.overwrite name value).around key =
      if Overlaps name key then (table.around key).overwrite name value else table.around key := by
  have comm : around (table.filter fun entry => !isWithin entry.1 name) key =
      (table.around key).filter fun entry => !isWithin entry.1 name := List.filter_comm ..
  split
  · rename_i overlaps
    rw [overwrite, overwrite, ← comm]
    exact Entries.filter_insert _ (fun name => decide (Overlaps name key)) (decide_eq_true overlaps) value
  · rename_i apart
    have outside : (table.around key).filter (fun entry => !isWithin entry.1 name) = table.around key := by
      refine List.filter_eq_self.mpr fun entry member => ?_
      have overlaps : Overlaps entry.1 key := of_decide_eq_true (List.mem_filter.mp member).2
      by_contra inside
      exact apart (overlaps_comm.mp ((overlaps_comm.mp overlaps).around (by simpa using inside)))
    rw [overwrite, ← outside, ← comm]
    exact Entries.filter_insert_of_neg _ (fun name => decide (Overlaps name key)) (decide_eq_false apart) value

theorem around_overwriteAll (table entries : Table) (key : String) :
    (table.overwriteAll entries).around key = (table.around key).overwriteAll (entries.around key) := by
  induction entries generalizing table with
  | nil => rfl
  | cons entry rest inductionHypothesis =>
    rw [overwriteAll_cons, inductionHypothesis, around_overwrite, around_cons]
    split
    · rw [overwriteAll_cons]
    · rfl

end Table

end DeployRecipe
