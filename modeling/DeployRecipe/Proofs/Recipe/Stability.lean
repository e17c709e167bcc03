import DeployRecipe.Proofs.Recipe.Calls

/-!
What a higher bound changes: nothing, unless the lower one is reached.
-/

namespace DeployRecipe.Recipe.Call

/-- The first outcome is the second one unless the first reaches its bound. -/
def Settles {α : Type} (first second : Except Halt α) : Prop :=
  first = .error .outOfFuel ∨ first = second

namespace Settles

variable {α β : Type} {first second : Except Halt α}

theorem refl (outcome : Except Halt α) : Settles outcome outcome :=
  .inr rfl

theorem bind {next other : α → Except Halt β} (head : Settles first second)
    (rest : ∀ value, Settles (next value) (other value)) : Settles (first >>= next) (second >>= other) := by
  rcases head with exhausted | rfl
  · exact .inl (attempt_outOfFuel.mpr (.inl exhausted))
  · cases first with
    | error halt => exact refl _
    | ok value => exact rest value

theorem ok {value : α} (settles : Settles first second) (read : first = .ok value) : second = .ok value := by
  rcases settles with exhausted | rfl
  · rw [exhausted] at read
    cases read
  · exact read

end Settles

variable (feeds : Nat)

mutual

theorem declarations_settles {fuel more : Nat} (enough : fuel ≤ more) (text : List Char) :
    Settles (Recipe.declarations feeds fuel text) (Recipe.declarations feeds more text) := by
  match fuel, more, enough with
  | 0, _, _ => exact .inl rfl
  | fuel + 1, more + 1, enough =>
    rw [Recipe.declarations, Recipe.declarations]
    refine (declaration_settles (Nat.le_of_succ_le_succ enough) _).bind fun found => ?_
    cases found with
    | none => exact .refl _
    | some pair => exact (declarations_settles (Nat.le_of_succ_le_succ enough) _).bind fun _ => .refl _
termination_by fuel

theorem declaration_settles {fuel more : Nat} (enough : fuel ≤ more) (text : List Char) :
    Settles (Recipe.declaration feeds fuel text) (Recipe.declaration feeds more text) := by
  match fuel, more, enough with
  | 0, _, _ => exact .inl rfl
  | fuel + 1, more + 1, enough =>
    rw [Recipe.declaration, Recipe.declaration]
    cases dottedName? text with
    | none => exact .refl _
    | some pair => exact (body_settles (Nat.le_of_succ_le_succ enough) _).bind fun _ => .refl _
termination_by fuel

theorem body_settles {fuel more : Nat} (enough : fuel ≤ more) (text : List Char) :
    Settles (Recipe.body feeds fuel text) (Recipe.body feeds more text) := by
  match fuel, more, enough with
  | 0, _, _ => exact .inl rfl
  | fuel + 1, more + 1, enough =>
    have less := Nat.le_of_succ_le_succ enough
    by_cases brace : ∃ inside, text = '{' :: inside
    · obtain ⟨inside, rfl⟩ := brace
      exact (block_settles less _).bind fun _ => .refl _
    by_cases equals : ∃ right, text = '=' :: right
    · obtain ⟨right, rfl⟩ := equals
      exact (expression_settles less _).bind fun _ => .refl _
    rw [body_arguments (not_exists.mp brace) (not_exists.mp equals),
      body_arguments (not_exists.mp brace) (not_exists.mp equals)]
    refine (expression_settles less _).bind fun found => ?_
    cases found with
    | none => exact .refl _
    | some pair => exact (moreArguments_settles less _).bind fun _ => .refl _
termination_by fuel

theorem block_settles {fuel more : Nat} (enough : fuel ≤ more) (text : List Char) :
    Settles (Recipe.block feeds fuel text) (Recipe.block feeds more text) := by
  match fuel, more, enough with
  | 0, _, _ => exact .inl rfl
  | fuel + 1, more + 1, enough =>
    rw [Recipe.block, Recipe.block]
    exact (declarations_settles (Nat.le_of_succ_le_succ enough) _).bind fun _ => .refl _
termination_by fuel

theorem moreArguments_settles {fuel more : Nat} (enough : fuel ≤ more) (text : List Char) :
    Settles (Recipe.moreArguments feeds fuel text) (Recipe.moreArguments feeds more text) := by
  match fuel, more, enough with
  | 0, _, _ => exact .inl rfl
  | fuel + 1, more + 1, enough =>
    have less := Nat.le_of_succ_le_succ enough
    by_cases comma : ∃ rest, skipSpaces text = ',' :: rest
    · obtain ⟨rest, comma⟩ := comma
      rw [Recipe.moreArguments, Recipe.moreArguments, comma]
      refine (expression_settles less _).bind fun found => ?_
      cases found with
      | none => exact .refl _
      | some pair => exact (moreArguments_settles less _).bind fun _ => .refl _
    · rw [moreArguments_of_ends (not_exists.mp comma), moreArguments_of_ends (not_exists.mp comma)]
      exact .refl _
termination_by fuel

theorem expression_settles {fuel more : Nat} (enough : fuel ≤ more) (text : List Char) :
    Settles (Recipe.expression feeds fuel text) (Recipe.expression feeds more text) := by
  match fuel, more, enough with
  | 0, _, _ => exact .inl rfl
  | fuel + 1, more + 1, enough =>
    have less := Nat.le_of_succ_le_succ enough
    by_cases bracket : ∃ inside, text = '[' :: inside
    · obtain ⟨inside, rfl⟩ := bracket
      rw [Recipe.expression, Recipe.expression]
      split
      · exact .refl _
      · split
        · exact .refl _
        · split
          · exact (mapEntries_settles less _).bind fun _ => .refl _
          · exact (listItems_settles less _).bind fun _ => .refl _
    by_cases parenthesis : ∃ inside, text = '(' :: inside
    · obtain ⟨inside, rfl⟩ := parenthesis
      exact (expression_settles less _).bind fun _ => .refl _
    rw [expression_of_plain (not_exists.mp bracket) (not_exists.mp parenthesis),
      expression_of_plain (not_exists.mp bracket) (not_exists.mp parenthesis)]
    refine (Settles.refl _).bind fun found => ?_
    cases found with
    | some pair => exact .refl _
    | none =>
      cases number? text with
      | some pair => exact .refl _
      | none => exact word_settles less text
termination_by fuel

theorem word_settles {fuel more : Nat} (enough : fuel ≤ more) (text : List Char) :
    Settles (Recipe.word feeds fuel text) (Recipe.word feeds more text) := by
  match fuel, more, enough with
  | 0, _, _ => exact .inl rfl
  | fuel + 1, more + 1, enough =>
    cases named : dottedName? text with
    | none =>
      rw [Recipe.word, Recipe.word, named]
      exact .refl _
    | some pair =>
      obtain ⟨name, rest⟩ := pair
      by_cases known : String.ofList name ∈ keywords.map Prod.fst
      · obtain ⟨⟨word, value⟩, member, rfl⟩ := List.mem_map.mp known
        rw [word_of_keyword named member, word_of_keyword named member]
        exact .refl _
      cases load : startsLoad (String.ofList name) rest with
      | true =>
        obtain ⟨rfl, ⟨target, last⟩, found⟩ := startsLoad_eq_true.mp load
        rw [word_of_target named found, word_of_target named found]
        exact .refl _
      | false =>
        rw [word_of_name named known load, word_of_name named known load]
        split
        · exact (block_settles (Nat.le_of_succ_le_succ enough) _).bind fun _ => .refl _
        · exact .refl _
termination_by fuel

theorem listItems_settles {fuel more : Nat} (enough : fuel ≤ more) (text : List Char) :
    Settles (Recipe.listItems feeds fuel text) (Recipe.listItems feeds more text) := by
  match fuel, more, enough with
  | 0, _, _ => exact .inl rfl
  | fuel + 1, more + 1, enough =>
    have less := Nat.le_of_succ_le_succ enough
    rw [Recipe.listItems, Recipe.listItems]
    refine (expression_settles less _).bind fun found => ?_
    cases found with
    | none => exact .refl _
    | some pair =>
      refine (Settles.refl _).bind fun next => ?_
      cases next with
      | closed rest => exact .refl _
      | item rest => exact (listItems_settles less _).bind fun _ => .refl _
termination_by fuel

theorem mapEntries_settles {fuel more : Nat} (enough : fuel ≤ more) (text : List Char) :
    Settles (Recipe.mapEntries feeds fuel text) (Recipe.mapEntries feeds more text) := by
  match fuel, more, enough with
  | 0, _, _ => exact .inl rfl
  | fuel + 1, more + 1, enough =>
    have less := Nat.le_of_succ_le_succ enough
    rw [Recipe.mapEntries, Recipe.mapEntries]
    refine (Settles.refl _).bind fun found => ?_
    cases found with
    | none => exact .refl _
    | some pair =>
      dsimp only
      split
      · refine (expression_settles less _).bind fun found => ?_
        cases found with
        | none => exact .refl _
        | some pair =>
          refine (Settles.refl _).bind fun next => ?_
          cases next with
          | closed rest => exact .refl _
          | item rest => exact (mapEntries_settles less _).bind fun _ => .refl _
      · exact .refl _
termination_by fuel

end

/-- The call has the same outcome with either bound. -/
def Agrees (fuel more : Nat) : Call → Prop
  | ⟨.declarations, text⟩ => Recipe.declarations feeds fuel text = Recipe.declarations feeds more text
  | ⟨.declaration, text⟩ => Recipe.declaration feeds fuel text = Recipe.declaration feeds more text
  | ⟨.body, text⟩ => Recipe.body feeds fuel text = Recipe.body feeds more text
  | ⟨.block, text⟩ => Recipe.block feeds fuel text = Recipe.block feeds more text
  | ⟨.moreArguments, text⟩ => Recipe.moreArguments feeds fuel text = Recipe.moreArguments feeds more text
  | ⟨.expression, text⟩ => Recipe.expression feeds fuel text = Recipe.expression feeds more text
  | ⟨.word, text⟩ => Recipe.word feeds fuel text = Recipe.word feeds more text
  | ⟨.listItems, text⟩ => Recipe.listItems feeds fuel text = Recipe.listItems feeds more text
  | ⟨.mapEntries, text⟩ => Recipe.mapEntries feeds fuel text = Recipe.mapEntries feeds more text

variable {feeds}

/-- A call that does not reach its bound has the same outcome with every higher one. -/
theorem agrees {call : Call} {fuel more : Nat} (inTime : ¬call.RunsOut feeds fuel) (enough : fuel ≤ more) :
    call.Agrees feeds fuel more := by
  obtain ⟨production, text⟩ := call
  cases production with
  | declarations => exact (declarations_settles feeds enough text).resolve_left inTime
  | declaration => exact (declaration_settles feeds enough text).resolve_left inTime
  | body => exact (body_settles feeds enough text).resolve_left inTime
  | block => exact (block_settles feeds enough text).resolve_left inTime
  | moreArguments => exact (moreArguments_settles feeds enough text).resolve_left inTime
  | expression => exact (expression_settles feeds enough text).resolve_left inTime
  | word => exact (word_settles feeds enough text).resolve_left inTime
  | listItems => exact (listItems_settles feeds enough text).resolve_left inTime
  | mapEntries => exact (mapEntries_settles feeds enough text).resolve_left inTime

end DeployRecipe.Recipe.Call
