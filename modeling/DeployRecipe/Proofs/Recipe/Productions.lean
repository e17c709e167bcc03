import DeployRecipe.Proofs.Recipe.Readers

/-!
What each production of the grammar does at the start of a canonical text: the first character, or what is
found after a name or a bracket, decides which alternative is taken, and no earlier one takes the text.
-/

namespace DeployRecipe.Recipe

variable {feeds fuel : Nat}

theorem ok_bind {α β : Type} (value : α) (next : α → Except Halt β) :
    (Except.ok value >>= next) = next value := rfl

section Starts

theorem isValueStart_of_isNameStart {character : Char} (start : isNameStart character = true) :
    isValueStart character = true := by
  simp [isValueStart, start]

theorem isValueStart_of_isDigit {character : Char} (digit : character.isDigit = true) :
    isValueStart character = true := by
  simp [isValueStart, digit]

theorem Quotes.isValueStart_mark (quotes : Quotes) : isValueStart quotes.mark = true := by
  cases quotes <;> rfl

theorem isReferable_eq_true {name : String} (referable : isReferable name = true) :
    isDottedIdentifier name = true ∧ name ≠ "true" ∧ name ≠ "false" ∧ name ≠ "null" := by
  simpa [isReferable] using referable

/-- The text of an expression starts with a character with which a value starts. -/
theorem ofExpression_start (quoting : Quoting) {value : Expression}
    (printable : isPrintableExpression value = true) :
    ∃ first rest, Canonical.ofExpression quoting value = first :: rest ∧ isValueStart first = true := by
  cases value with
  | null => exact ⟨_, _, rfl, rfl⟩
  | bool value => cases value <;> exact ⟨_, _, rfl, rfl⟩
  | int value =>
    obtain ⟨first, rest, characters, digit | rfl⟩ := toString_int_start value
    · exact ⟨first, rest, characters, isValueStart_of_isDigit digit⟩
    · exact ⟨_, rest, characters, rfl⟩
  | float => cases printable
  | text value => exact ⟨_, _, rfl, Quotes.isValueStart_mark _⟩
  | interpolated parts => exact ⟨_, _, rfl, rfl⟩
  | list items => exact ⟨_, _, rfl, rfl⟩
  | map entries => exact ⟨_, _, rfl, rfl⟩
  | reference name =>
    obtain ⟨first, rest, characters, start⟩ := isDottedIdentifier_start (isReferable_eq_true printable).1
    exact ⟨first, rest, characters, isValueStart_of_isNameStart start⟩
  | block name line body =>
    rw [isPrintableExpression, Bool.and_eq_true] at printable
    obtain ⟨first, rest, characters, start⟩ := isDottedIdentifier_start (isReferable_eq_true printable.1).1
    exact ⟨first, _, by rw [Canonical.ofExpression, characters, List.cons_append],
      isValueStart_of_isNameStart start⟩
  | load path => exact ⟨_, _, rfl, rfl⟩

theorem isNameStart_of_isDigit {character : Char} (digit : character.isDigit = true) :
    isNameStart character = false := by
  have underscore : character ≠ '_' := by
    rintro rfl
    cases digit
  simp only [Char.isDigit, Bool.and_eq_true, decide_eq_true_eq, UInt32.le_iff_toNat_le] at digit
  have high : character.toNat ≤ 57 := digit.2
  have letter : character.isAlpha = (decide (65 ≤ character.val ∧ character.val ≤ 90) ||
      decide (97 ≤ character.val) && decide (character.val ≤ 122)) := rfl
  simp [isNameStart, letter, UInt32.le_iff_toNat_le, underscore]
  omega

/-- No colon stands at the start of the text, trivia aside. -/
def NoColon (text : List Char) : Prop :=
  ∀ rest, skipTrivia text ≠ ':' :: rest

theorem NoColon.of_solid (character : Char) (solid : isSolid character = true) (differs : character ≠ ':')
    (text : List Char) : NoColon (character :: text) := by
  intro rest same
  rw [skipTrivia_of_solid _ solid] at same
  exact differs (List.cons.inj same).1

theorem startsMapEntry_of_mapKey {text rest : List Char} (key : String)
    (found : mapKey text = .ok (some (key, rest))) (noColon : NoColon rest) :
    startsMapEntry text = false := by
  simp only [startsMapEntry, found]
  split
  · rename_i colon
    exact absurd colon (noColon _)
  · rfl

/-- A dotted name is no key of a map, nor is its first segment if there are others. -/
theorem startsMapEntry_name {name : String} (dotted : isDottedIdentifier name = true) {text : List Char}
    (ends : EndsName text) (noColon : NoColon text) : startsMapEntry (name.toList ++ text) = false := by
  obtain ⟨first, tail, others, characters, start, plain, -⟩ := isDottedIdentifier_eq_true dotted
  have front : ∀ {after : List Char}, (∀ character ∈ after.head?, isNameCharacter character = false) →
      mapKey (first :: (tail ++ after)) = .ok (some (String.ofList (first :: tail), after)) := by
    intro after stops
    have none : after.takeWhile isNameCharacter = [] ∧ after.dropWhile isNameCharacter = after := by
      cases after with
      | nil => exact ⟨rfl, rfl⟩
      | cons character rest => simp [stops character rfl]
    simp only [mapKey, name?, start, if_true, List.takeWhile_append_of_pos plain,
      List.dropWhile_append_of_pos plain, none, List.append_nil]
  rw [characters, List.cons_append, List.append_assoc]
  cases others with
  | nil => exact startsMapEntry_of_mapKey _ (front fun character found => (ends character found).1) noColon
  | cons segment more =>
    refine startsMapEntry_of_mapKey _ (front ?_) (NoColon.of_solid '.' rfl (by decide) _)
    rintro _ ⟨⟩
    rfl

theorem startsMapEntry_ofExpression (quoting : Quoting) {value : Expression}
    (printable : isPrintableExpression value = true) {after : List Char} (ends : EndsValue after)
    (noColon : NoColon after) :
    startsMapEntry (Canonical.ofExpression quoting value ++ after) = false := by
  have keyword (name : String) (dotted : isDottedIdentifier name = true) :
      startsMapEntry (name.toList ++ after) = false :=
    startsMapEntry_name dotted ends.endsName noColon
  have inner (name : String) (dotted : isDottedIdentifier name = true) (character : Char)
      (plain : isNameCharacter character = false) (dot : character ≠ '.') {text : List Char}
      (none : NoColon (character :: text)) :
      startsMapEntry (name.toList ++ character :: text) = false :=
    startsMapEntry_name dotted (.cons plain dot _) none
  cases value with
  | null => exact keyword "null" (by decide)
  | bool value => cases value <;> exact keyword (ite _ _ _) (by decide)
  | int value =>
    rw [Canonical.ofExpression, toString_int]
    split
    · refine startsMapEntry_of_mapKey (String.ofList (Nat.toDigits 10 value.toNat)) ?_ noColon
      have digits := digits?_toDigits value.toNat ends
      obtain ⟨first, rest, characters, digit⟩ := toDigits_start value.toNat
      rw [characters, List.cons_append] at digits ⊢
      simp only [mapKey, name?, isNameStart_of_isDigit digit, Bool.false_eq_true, if_false, digits]
    · rfl
  | float => cases printable
  | text value => exact startsMapEntry_of_mapKey _ (mapKey_write _ _ _) noColon
  | interpolated parts =>
    have noName : name? (Canonical.ofExpression quoting (.interpolated parts) ++ after) = none := rfl
    have noDigits : digits? (Canonical.ofExpression quoting (.interpolated parts) ++ after) = none := rfl
    have read : quoted (Canonical.ofExpression quoting (.interpolated parts) ++ after) =
        .ok (some (.interpolated parts, after)) := by
      rw [Canonical.ofExpression, List.cons_append, List.append_assoc, List.singleton_append]
      exact quoted_interpolated printable after
    simp only [startsMapEntry, mapKey, noName, noDigits, read]
  | list items => rfl
  | map entries => rfl
  | reference name => exact keyword _ (isReferable_eq_true printable).1
  | block name line body =>
    rw [isPrintableExpression, Bool.and_eq_true] at printable
    rw [Canonical.ofExpression, List.append_assoc]
    have brace : NoColon (' ' :: (Canonical.inBraces (Canonical.ofDeclarations quoting body) ++ after)) := by
      rw [NoColon, skipTrivia_space]
      exact NoColon.of_solid '{' rfl (by decide) _
    exact inner _ (isReferable_eq_true printable.1).1 ' ' rfl (by decide) brace
  | load path =>
    rw [Canonical.ofExpression, List.append_assoc]
    exact inner "load" (by decide) '(' rfl (by decide)
      (.of_solid _ rfl (by decide) _)

end Starts

section Productions

theorem number?_of_isNameStart {character : Char} (start : isNameStart character = true)
    (text : List Char) : number? (character :: text) = none := by
  have noSign : character ≠ '-' := by
    rintro rfl
    cases start
  have noDigit : character.isDigit = false := by
    by_contra digit
    rw [isNameStart_of_isDigit (Bool.not_eq_false _ ▸ digit)] at start
    cases start
  have noDigits : digits? (character :: text) = none := by simp [digits?, noDigit]
  unfold number?
  split
  rename_i sign
  split at sign
  · rename_i same
    exact absurd (List.cons.inj same).1 noSign
  obtain ⟨rfl, rfl⟩ := Prod.mk.inj sign
  rw [noDigits]
  rfl

/-- A text that starts neither with a bracket nor with a parenthesis is no list, no map and no nested value. -/
theorem expression_plain {character : Char} (bracket : character ≠ '[') (parenthesis : character ≠ '(')
    (text : List Char) :
    expression feeds (fuel + 1) (character :: text) = (do
      match ← quoted (character :: text) with
      | some found => pure (some found)
      | none =>
        match number? (character :: text) with
        | some found => pure (some found)
        | none => word feeds fuel (character :: text)) :=
  expression_of_plain (fun _ same => bracket (List.cons.inj same).1)
    fun _ same => parenthesis (List.cons.inj same).1

theorem expression_of_quoted {text after : List Char} {value : Expression}
    (read : quoted text = .ok (some (value, after))) :
    expression feeds (fuel + 1) text = .ok (some (value, after)) := by
  cases text with
  | nil => cases read
  | cons character rest =>
    have bracket : character ≠ '[' := by
      rintro rfl
      cases read
    have parenthesis : character ≠ '(' := by
      rintro rfl
      cases read
    rw [expression_plain bracket parenthesis, read]
    rfl

theorem expression_int {value : Int} (fits : isWordInt value = true) {after : List Char}
    (ends : EndsValue after) :
    expression feeds (fuel + 1) ((toString value).toList ++ after) = .ok (some (.int value, after)) := by
  have number := number?_int fits ends
  obtain ⟨first, rest, characters, start⟩ := toString_int_start value
  have differs {other : Char} (noDigit : other.isDigit = false) (noSign : other ≠ '-') : first ≠ other := by
    rintro rfl
    rcases start with digit | sign
    · rw [noDigit] at digit
      cases digit
    · exact noSign sign
  rw [characters, List.cons_append] at number ⊢
  rw [expression_plain (differs rfl (by decide)) (differs rfl (by decide)),
    quoted_of_ne (differs rfl (by decide)) (differs rfl (by decide))]
  simp only [number]
  rfl

theorem expression_of_isNameStart {character : Char} (start : isNameStart character = true)
    (text : List Char) :
    expression feeds (fuel + 1) (character :: text) = word feeds fuel (character :: text) := by
  have differs {other : Char} (none : isNameStart other = false) : character ≠ other := by
    rintro rfl
    rw [none] at start
    cases start
  rw [expression_plain (differs rfl) (differs rfl), quoted_of_ne (differs rfl) (differs rfl)]
  simp only [number?_of_isNameStart start]
  rfl

section Words

variable {name : String} {after : List Char}

theorem word_true (ends : EndsName after) :
    word feeds (fuel + 1) ("true".toList ++ after) = .ok (some (.bool true, after)) := by
  rw [word, dottedName?_append (by decide) ends]
  rfl

theorem word_false (ends : EndsName after) :
    word feeds (fuel + 1) ("false".toList ++ after) = .ok (some (.bool false, after)) := by
  rw [word, dottedName?_append (by decide) ends]
  rfl

theorem word_null (ends : EndsName after) :
    word feeds (fuel + 1) ("null".toList ++ after) = .ok (some (.null, after)) := by
  rw [word, dottedName?_append (by decide) ends]
  rfl

theorem loadTarget?_write (quotes : Quotes) (path : String) (after : List Char) :
    loadTarget? ('(' :: (quotes.write path ++ ')' :: after)) = some (.text path, after) := by
  have start : skipTrivia (quotes.write path ++ ')' :: after) = quotes.write path ++ ')' :: after := by
    cases quotes <;> exact skipTrivia_of_solid _ rfl _
  have open_ : skipSpaces ('(' :: (quotes.write path ++ ')' :: after)) =
      '(' :: (quotes.write path ++ ')' :: after) := skipSpaces_of_solid _ rfl _
  have close : skipTrivia (')' :: after) = ')' :: after := skipTrivia_of_solid _ rfl _
  simp only [loadTarget?, open_, start, quoted_write, close]

theorem word_load (quotes : Quotes) (path : String) (after : List Char) :
    word feeds (fuel + 1) ("load".toList ++ '(' :: (quotes.write path ++ ')' :: after)) =
      .ok (some (.load path, after)) := by
  rw [word, dottedName?_append (by decide) (.cons rfl (by decide) _)]
  simp only [loadTarget?_write]
  rfl

theorem loadTarget?_of_ne {character : Char} {text rest : List Char}
    (start : skipSpaces text = character :: rest) (differs : character ≠ '(') : loadTarget? text = none := by
  unfold loadTarget?
  split
  · rename_i same
    rw [start] at same
    exact absurd (List.cons.inj same).1 differs
  · rfl

theorem word_reference (referable : isReferable name = true) (ends : EndsValue after) :
    word feeds (fuel + 1) (name.toList ++ after) = .ok (some (.reference name, after)) := by
  obtain ⟨dotted, noTrue, noFalse, noNull⟩ := isReferable_eq_true referable
  have start : ∃ character rest, skipSpaces after = character :: rest ∧ character ≠ '(' ∧
      character ≠ '{' := by
    cases ends <;> exact ⟨_, _, rfl, by decide, by decide⟩
  obtain ⟨character, rest, start, parenthesis, brace⟩ := start
  rw [word, dottedName?_append dotted ends.endsName]
  simp only [String.ofList_toList, noTrue, noFalse, noNull, if_false,
    loadTarget?_of_ne start parenthesis, ite_self, start]
  split
  · rename_i same
    exact absurd (List.cons.inj same).1 brace
  · rfl

theorem word_block (referable : isReferable name = true) (inside : List Char) :
    word feeds (fuel + 1) (name.toList ++ ' ' :: '{' :: inside) = (do
      let (inner, after) ← block feeds fuel inside
      pure (some (.block name (lineOf feeds (name.toList ++ ' ' :: '{' :: inside)) inner, after))) := by
  obtain ⟨dotted, noTrue, noFalse, noNull⟩ := isReferable_eq_true referable
  have start : skipSpaces (' ' :: '{' :: inside) = '{' :: inside :=
    (skipSpaces_space _).trans (skipSpaces_of_solid _ rfl inside)
  rw [word, dottedName?_append dotted (.cons rfl (by decide) _)]
  simp only [String.ofList_toList, noTrue, noFalse, noNull, if_false,
    loadTarget?_of_ne start (by decide), ite_self, start]

end Words

section Brackets

theorem afterItem_closed (rest : List Char) : afterItem (']' :: rest) = .ok (.closed rest) := by
  simp only [afterItem, skipTrivia_of_solid ']' rfl]

theorem afterItem_item {character : Char} (start : isValueStart character = true) (rest : List Char) :
    afterItem (',' :: ' ' :: character :: rest) = .ok (.item (character :: rest)) := by
  have bracket : character ≠ ']' := ne_of_isValueStart start rfl
  rw [afterItem, skipTrivia_of_solid ',' rfl]
  simp only [skipTrivia_space, skipTrivia_of_solid _ (isSolid_of_isValueStart start)]
  split
  · rename_i same
    exact absurd (List.cons.inj same).1 bracket
  · rfl

theorem emptyMap?_of_ne {character : Char} (colon : character ≠ ':') (text : List Char) :
    emptyMap? (character :: text) = none := by
  unfold emptyMap?
  split
  · rename_i same
    exact absurd (List.cons.inj same).1 colon
  · rfl

theorem expression_emptyList (after : List Char) :
    expression feeds (fuel + 1) ('[' :: ']' :: after) = .ok (some (.list [], after)) :=
  expression_emptyList_of (skipTrivia_of_solid ']' rfl after)

theorem expression_emptyMap (after : List Char) :
    expression feeds (fuel + 1) ('[' :: ':' :: ']' :: after) = .ok (some (.map [], after)) := by
  have empty : emptyMap? (':' :: ']' :: after) = some after := by
    simp only [emptyMap?, skipTrivia_of_solid ']' rfl]
  exact expression_emptyMap_of ((skipTrivia_of_solid ':' rfl _).symm ▸ empty)

/-- What stands after an opening bracket is a map or a list, by what its first value is followed by. -/
theorem expression_bracket {character : Char} (start : isValueStart character = true) (text : List Char) :
    expression feeds (fuel + 1) ('[' :: character :: text) =
      (if startsMapEntry (character :: text) then do
        let (entries, rest) ← mapEntries feeds fuel (character :: text)
        pure (some (.map entries, rest))
      else do
        let (items, rest) ← listItems feeds fuel (character :: text)
        pure (some (.list items, rest))) := by
  have bracket : character ≠ ']' := ne_of_isValueStart start rfl
  have colon : character ≠ ':' := ne_of_isValueStart start rfl
  have solid : skipTrivia (character :: text) = character :: text :=
    skipTrivia_of_solid _ (isSolid_of_isValueStart start) text
  have filled (rest : List Char) : skipTrivia (character :: text) ≠ ']' :: rest := fun same =>
    bracket (List.cons.inj (solid.symm.trans same)).1
  rw [expression_of_filled filled (solid.symm ▸ emptyMap?_of_ne colon text), solid]

theorem startsMapEntry_write (quotes : Quotes) (key : String) (text : List Char) :
    startsMapEntry (quotes.write key ++ ':' :: text) = true := by
  simp only [startsMapEntry, mapKey_write, skipTrivia_of_solid ':' rfl]

end Brackets

end Productions

end DeployRecipe.Recipe
