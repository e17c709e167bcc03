import DeployRecipe.Proofs.Recipe.LongerText

/-!
What a look ahead finds in a text that goes on with a line feed and trivia. A list is told from a map by what follows
its first item. Where a look ahead runs into a comment that does not end, the list is not read either, and so the
comment that the longer text might end does not matter.
-/

namespace DeployRecipe.Recipe

variable {feeds fuel : Nat} {text rest more : List Char}

/-- The text without the trivia at its start is at its end. -/
def IsSilent (text : List Char) : Prop :=
  skipTrivia text = []

theorem IsSilent.append (silent : IsSilent text) (trailing : IsSilent more) :
    skipTrivia (text ++ '\n' :: more) = [] := by
  rw [skipTrivia_append, silent, List.nil_append, skipTrivia_lineFeed]
  exact trailing

theorem skipTrivia_skipSpaces (text : List Char) : skipTrivia (skipSpaces text) = skipTrivia text := by
  induction text with
  | nil => rfl
  | cons first others inductionHypothesis =>
    by_cases blank : first = ' ' ∨ first = '\t'
    · have same : skipSpaces (first :: others) = skipSpaces others := by
        rcases blank with rfl | rfl <;> rfl
      have separator : isSeparator first = true := by
        rcases blank with rfl | rfl <;> rfl
      rw [same, inductionHypothesis, skipTrivia_of_after (afterTrivium?_of_separator separator others)]
    · have same : skipSpaces (first :: others) = first :: others := by
        rw [skipSpaces, List.dropWhile_cons_of_neg (by simpa using blank)]
      rw [same]

/-- What stands behind blanks stands behind trivia. -/
theorem skipTrivia_of_skipSpaces {character : Char} (start : skipSpaces text = character :: rest)
    (solid : isSolid character = true) : skipTrivia text = character :: rest := by
  rw [← skipTrivia_skipSpaces, start, skipTrivia_of_solid _ solid]

theorem isValueStart_of_isNameCharacter {character : Char} (plain : isNameCharacter character = true) :
    isValueStart character = true := by
  simp only [isNameCharacter, Char.isAlphanum, Bool.or_eq_true] at plain
  simp only [isValueStart, isNameStart, Bool.or_eq_true]
  tauto

section Stuck

/-- The text behind trivia goes on with a slash or a hash that starts no comment. -/
def Stuck (text : List Char) : Prop :=
  ∃ first others, skipTrivia text = first :: others ∧ isSolid first = false

namespace Stuck

theorem not_solid (stuck : Stuck text) {character : Char} (solid : isSolid character = true) (rest : List Char) :
    skipTrivia text ≠ character :: rest := by
  obtain ⟨first, others, start, notSolid⟩ := stuck
  rw [start]
  rintro ⟨⟩
  rw [solid] at notSolid
  cases notSolid

theorem head_not_solid (stuck : Stuck text) : ∀ character ∈ text.head?, isSolid character = false := by
  intro character start
  cases text with
  | nil => cases start
  | cons first others =>
    obtain rfl := Option.some.inj start
    by_contra solid
    exact stuck.not_solid (Bool.not_eq_false _ ▸ solid) others (skipTrivia_of_solid _ (Bool.not_eq_false _ ▸ solid) _)

theorem endsName (stuck : Stuck text) : EndsName text := by
  intro character start
  have notSolid := stuck.head_not_solid character start
  constructor
  · by_contra plain
    have start := isValueStart_of_isNameCharacter (Bool.not_eq_false _ ▸ plain)
    rw [isSolid_of_isValueStart start] at notSolid
    cases notSolid
  · rintro rfl
    cases notSolid

theorem afterItem_ne_ok (stuck : Stuck text) (next : AfterItem) : afterItem text ≠ .ok next := by
  intro read
  unfold afterItem at read
  split at read
  · rename_i closed
    exact stuck.not_solid rfl _ closed
  · rename_i comma
    exact stuck.not_solid rfl _ comma
  · cases read

end Stuck

/-- Behind trivia a text ends, goes on with something that is no comment, or is stuck. -/
theorem isSilent_or_solid_or_stuck (text : List Char) :
    IsSilent text ∨ (∃ first others, skipTrivia text = first :: others ∧ isSolid first = true) ∨ Stuck text := by
  cases start : skipTrivia text with
  | nil => exact .inl start
  | cons first others =>
    cases solid : isSolid first with
    | true => exact .inr (.inl ⟨first, others, rfl, solid⟩)
    | false => exact .inr (.inr ⟨first, others, start, solid⟩)

end Stuck

/-- Without a parenthesis behind the name there is no load expression in a longer text either. -/
theorem startsLoad_append (name : String) (noParenthesis : ∀ inside, skipSpaces text ≠ '(' :: inside)
    (more : List Char) : startsLoad name (text ++ '\n' :: more) = false := by
  rw [startsLoad, loadTarget?_append_none noParenthesis, Option.isSome_none, Bool.and_false]

section MapEntries

theorem dottedName?_of_name? {name : List Char} (found : name? text = some (name, rest)) (ends : EndsName rest) :
    dottedName? text = some (name, rest) := by
  unfold name? at found
  split at found
  · cases found
  · rename_i first others
    split at found
    · rename_i start
      obtain ⟨rfl, rfl⟩ := Prod.mk.inj (Option.some.inj found)
      have plain : ∀ character ∈ others.takeWhile isNameCharacter, isNameCharacter character = true :=
        fun _ member => List.mem_takeWhile_imp member
      have parts := dottedTail_append plain (others.dropWhile isNameCharacter)
      rw [List.takeWhile_append_dropWhile, dottedTail_of_endsName ends, List.append_nil] at parts
      rw [dottedName?, if_pos start, parts]
    · cases found

theorem isSolid_of_isNumberSuffix {character : Char} (letter : isNumberSuffix character = true) :
    isSolid character = true := by
  simp only [isNumberSuffix, isFloatSuffix, Bool.or_eq_true, decide_eq_true_eq] at letter
  rcases letter with (((((((rfl | rfl) | rfl) | rfl) | rfl) | rfl) | rfl) | rfl) <;> rfl

/-- Nothing that belongs to a number stands before a comment. -/
theorem number?_of_digits? {digits : List Char} (found : digits? text = some (digits, rest)) (stuck : Stuck rest) :
    ∃ value, number? text = some (value, rest) := by
  have head := stuck.head_not_solid
  have sign : afterSign text = (false, text) := by
    unfold afterSign
    split
    · cases found
    · rfl
  have fraction : fractionDigits rest = ([], rest) := by
    unfold fractionDigits
    split
    · cases head '.' rfl
    · rfl
  have exponent : afterExponent rest = (none, rest) := by
    have none : exponent? rest = none := by
      cases rest with
      | nil => rfl
      | cons mark after =>
        rw [exponent?_cons, if_neg]
        rintro (rfl | rfl) <;> cases head _ rfl
    rw [afterExponent, none]
  have suffix : afterNumberSuffix rest = (none, rest) := by
    unfold afterNumberSuffix
    split
    · rename_i character after
      rw [if_neg]
      intro letter
      have notSolid := head character rfl
      rw [isSolid_of_isNumberSuffix letter] at notSolid
      cases notSolid
    · rfl
  rw [number?_eq_map, sign]
  simp only [found, Option.map_some, fraction, exponent, suffix]
  exact ⟨_, rfl⟩

theorem rest_of_name {name : List Char} {value : Expression} {after : List Char}
    (named : name? text = some (name, rest)) (stuck : Stuck rest)
    (read : expression feeds (fuel + 1) text = .ok (some (value, after))) : after = rest := by
  have dotted := dottedName?_of_name? named stuck.endsName
  cases text with
  | nil => cases named
  | cons first others =>
    have start : isNameStart first = true := by
      by_contra noStart
      simp [name?, noStart] at named
    rw [expression_of_isNameStart start] at read
    cases fuel with
    | zero => cases read
    | succ fuel =>
      cases word_eq_some.mp read with
      | keyword found | reference found => exact (Prod.mk.inj (Option.some.inj (found.symm.trans dotted))).2
      | load found target =>
        obtain ⟨inside, last, parenthesis, -⟩ := loadTarget?_eq_some.mp target
        obtain ⟨-, rfl⟩ := Prod.mk.inj (Option.some.inj (found.symm.trans dotted))
        exact absurd (skipTrivia_of_skipSpaces parenthesis rfl) (stuck.not_solid rfl inside)
      | block found _ _ brace =>
        obtain ⟨-, rfl⟩ := Prod.mk.inj (Option.some.inj (found.symm.trans dotted))
        exact absurd (skipTrivia_of_skipSpaces brace rfl) (stuck.not_solid rfl _)

theorem rest_of_digits {digits : List Char} {value : Expression} {after : List Char}
    (found : digits? text = some (digits, rest)) (stuck : Stuck rest)
    (read : expression feeds (fuel + 1) text = .ok (some (value, after))) : after = rest := by
  obtain ⟨number, same⟩ := number?_of_digits? found stuck
  cases expression_eq_some.mp read with
  | emptyList | emptyMap | map | list | nested => cases found
  | quoted inside =>
    unfold quoted at inside
    split at inside
    · cases found
    · cases found
    · cases inside
  | number _ read => exact (Prod.mk.inj (Option.some.inj (read.symm.trans same))).2
  | word _ noNumber =>
    rw [same] at noNumber
    cases noNumber

/-- Behind a key that stands before a comment without an end, a value ends where the key does. -/
theorem rest_of_mapKey {key : String} {value : Expression} {after : List Char}
    (named : mapKey text = .ok (some (key, rest))) (stuck : Stuck rest)
    (read : expression feeds (fuel + 1) text = .ok (some (value, after))) : after = rest := by
  unfold mapKey at named
  split at named
  · rename_i found
    obtain ⟨-, rfl⟩ := Prod.mk.inj (Option.some.inj (Except.ok.inj named))
    exact rest_of_name found stuck read
  · split at named
    · rename_i found
      obtain ⟨-, rfl⟩ := Prod.mk.inj (Option.some.inj (Except.ok.inj named))
      exact rest_of_digits found stuck read
    · split at named
      · rename_i found
        obtain ⟨-, rfl⟩ := Prod.mk.inj (Option.some.inj (Except.ok.inj named))
        rw [expression_of_quoted found] at read
        exact (Prod.mk.inj (Option.some.inj (Except.ok.inj read))).2.symm
      · cases named
      · cases named

theorem startsMapEntry_append (entry : startsMapEntry text = true) (more : List Char) :
    startsMapEntry (text ++ '\n' :: more) = true := by
  unfold startsMapEntry at entry
  split at entry
  · rename_i named
    split at entry
    · rename_i colon
      simp only [startsMapEntry, mapKey_append named, skipTrivia_append_of_solid colon rfl]
    · cases entry
  · cases entry

theorem quoted_of_mapKey_error {halt : Halt} (fails : mapKey text = .error halt) : quoted text = .error halt := by
  unfold mapKey at fails
  split at fails
  · cases fails
  · split at fails
    · cases fails
    · split at fails
      · cases fails
      · cases fails
      · rename_i broken
        rw [broken, Except.error.inj fails]

/-- What is read as the items of a list is no map in the longer text either. -/
theorem startsMapEntry_append_of_list {items : List Expression} {after : List Char}
    (noEntry : startsMapEntry text = false) (read : listItems feeds fuel text = .ok (items, after))
    (trailing : IsSilent more) : startsMapEntry (text ++ '\n' :: more) = false := by
  obtain ⟨fuel, rfl⟩ : ∃ less, fuel = less + 1 := by
    cases fuel with
    | zero => cases read
    | succ less => exact ⟨less, rfl⟩
  obtain ⟨item, rest, next, head, separated⟩ : ∃ item rest next,
      expression feeds fuel text = .ok (some (item, rest)) ∧ afterItem rest = .ok next := by
    cases listItems_eq_ok.mp read with
    | last head closed => exact ⟨_, _, _, head, closed⟩
    | more head comma => exact ⟨_, _, _, head, comma⟩
  obtain ⟨fuel, rfl⟩ : ∃ less, fuel = less + 1 := by
    cases fuel with
    | zero => cases head
    | succ less => exact ⟨less, rfl⟩
  cases key : mapKey text with
  | error halt =>
    have broken := quoted_of_mapKey_error key
    cases expression_eq_some.mp head with
    | emptyList | emptyMap | map | list | nested => cases key
    | quoted inside => cases broken.symm.trans inside
    | number noText => cases broken.symm.trans noText
    | word noText => cases broken.symm.trans noText
  | ok found =>
    cases found with
    | none => simp only [startsMapEntry, mapKey_append_none key]
    | some pair =>
      obtain ⟨name, afterKey⟩ := pair
      have decided := mapKey_append key more
      simp only [startsMapEntry, key] at noEntry
      rcases isSilent_or_solid_or_stuck afterKey with silent | ⟨first, others, start, solid⟩ | stuck
      · simp only [startsMapEntry, decided, silent.append trailing]
      · simp only [startsMapEntry, decided, skipTrivia_append_of_solid start solid]
        rw [start] at noEntry
        split at noEntry
        · cases noEntry
        · split <;> simp_all
      · obtain rfl := rest_of_mapKey key stuck head
        exact absurd separated (stuck.afterItem_ne_ok next)

end MapEntries

end DeployRecipe.Recipe
