import DeployRecipe.Proofs.DottedName
import DeployRecipe.Proofs.Recipe.Canonical
import DeployRecipe.Recipe.Grammar

/-!
Lexemes are read back from their canonical text, whatever follows that is no part of them.
-/

namespace DeployRecipe

theorem Text.join_cons (separator : Char) (first : List Char) (rest : List (List Char)) :
    Text.join separator (first :: rest) = first ++ rest.flatMap fun part => separator :: part := by
  induction rest generalizing first with
  | nil => simp [Text.join]
  | cons second others inductionHypothesis =>
    rw [Text.join, inductionHypothesis, List.flatMap_cons, List.cons_append]
    simp

namespace Recipe

section Trivia

/-- A character with which no trivia start. -/
def isSolid (character : Char) : Bool :=
  !isSeparator character && character ≠ '/' && character ≠ '#'

theorem afterTrivium?_of_solid {character : Char} (solid : isSolid character = true) (text : List Char) :
    afterTrivium? (character :: text) = none := by
  simp only [isSolid, Bool.and_eq_true, Bool.not_eq_true', decide_eq_true_eq] at solid
  obtain ⟨⟨separator, slash⟩, hash⟩ := solid
  unfold afterTrivium?
  split <;> simp_all

@[simp]
theorem skipTrivia_nil : skipTrivia [] = [] := by
  rw [skipTrivia]
  rfl

theorem skipTrivia_of_solid (character : Char) (solid : isSolid character = true) (text : List Char) :
    skipTrivia (character :: text) = character :: text := by
  rw [skipTrivia]
  split
  · rename_i found
    rw [afterTrivium?_of_solid solid] at found
    cases found
  · rfl

theorem skipTrivia_of_after {text rest : List Char} (after : afterTrivium? text = some rest) :
    skipTrivia text = skipTrivia rest := by
  rw [skipTrivia]
  split
  · rename_i found
    rw [after] at found
    rw [Option.some.inj found]
  · rename_i found
    rw [after] at found
    cases found

@[simp]
theorem skipTrivia_space (text : List Char) : skipTrivia (' ' :: text) = skipTrivia text :=
  skipTrivia_of_after rfl

@[simp]
theorem skipTrivia_lineFeed (text : List Char) : skipTrivia ('\n' :: text) = skipTrivia text :=
  skipTrivia_of_after rfl

@[simp]
theorem skipSpaces_space (text : List Char) : skipSpaces (' ' :: text) = skipSpaces text := rfl

@[simp]
theorem skipSpaces_lineFeed (text : List Char) : skipSpaces ('\n' :: text) = '\n' :: text := rfl

theorem skipSpaces_of_solid (character : Char) (solid : isSolid character = true) (text : List Char) :
    skipSpaces (character :: text) = character :: text := by
  have space : character ≠ ' ' := by
    rintro rfl
    cases solid
  have tab : character ≠ '\t' := by
    rintro rfl
    cases solid
  simp [skipSpaces, space, tab]

end Trivia

section Names

/-- No name goes on at the start of the text. -/
def EndsName (text : List Char) : Prop :=
  ∀ character ∈ text.head?, isNameCharacter character = false ∧ character ≠ '.'

theorem EndsName.cons {character : Char} (plain : isNameCharacter character = false)
    (dot : character ≠ '.') (text : List Char) : EndsName (character :: text) := by
  rintro _ ⟨⟩
  exact ⟨plain, dot⟩

theorem dottedTail_of_endsName {text : List Char} (ends : EndsName text) :
    dottedTail text = ([], text) := by
  cases text with
  | nil => rfl
  | cons character rest =>
    obtain ⟨plain, dot⟩ := ends character rfl
    rw [dottedTail, if_neg (by simp [plain])]
    rintro _ _ rfl
    exact absurd rfl dot

theorem dottedTail_append {word : List Char} (plain : ∀ character ∈ word, isNameCharacter character = true)
    (text : List Char) :
    dottedTail (word ++ text) = (word ++ (dottedTail text).1, (dottedTail text).2) := by
  induction word with
  | nil => rfl
  | cons character rest inductionHypothesis =>
    obtain ⟨here, others⟩ := List.forall_mem_cons.mp plain
    have dot : character ≠ '.' := by
      rintro rfl
      cases here
    rw [List.cons_append, dottedTail, inductionHypothesis others, if_pos here]
    · rfl
    · rintro _ _ rfl
      exact absurd rfl dot

/-- The characters of an identifier. -/
theorem isIdentifier_eq_true {text : String} (identifier : isIdentifier text = true) :
    ∃ first rest, text.toList = first :: rest ∧ isNameStart first = true ∧
      ∀ character ∈ rest, isNameCharacter character = true := by
  unfold isIdentifier at identifier
  split at identifier
  · cases identifier
  · rename_i first rest characters
    rw [Bool.and_eq_true, List.all_eq_true] at identifier
    exact ⟨first, rest, characters, identifier⟩

theorem dottedTail_segments {segments : List String}
    (identifiers : ∀ segment ∈ segments, isIdentifier segment = true) {text : List Char}
    (ends : EndsName text) :
    dottedTail ((segments.map String.toList).flatMap (fun part => '.' :: part) ++ text) =
      ((segments.map String.toList).flatMap (fun part => '.' :: part), text) := by
  induction segments with
  | nil => exact dottedTail_of_endsName ends
  | cons segment others inductionHypothesis =>
    obtain ⟨here, rest⟩ := List.forall_mem_cons.mp identifiers
    obtain ⟨first, tail, characters, start, plain⟩ := isIdentifier_eq_true here
    simp only [List.map_cons, List.flatMap_cons, characters, List.cons_append, List.append_assoc]
    rw [dottedTail, if_pos start, dottedTail_append plain, inductionHypothesis rest]

/-- The characters of a dotted identifier: the first segment, and the others with a dot before each. -/
theorem isDottedIdentifier_eq_true {name : String} (dotted : isDottedIdentifier name = true) :
    ∃ first tail, ∃ others : List String, name.toList =
        first :: (tail ++ (others.map String.toList).flatMap fun part => '.' :: part) ∧
      isNameStart first = true ∧ (∀ character ∈ tail, isNameCharacter character = true) ∧
      ∀ segment ∈ others, isIdentifier segment = true := by
  rw [isDottedIdentifier, List.all_eq_true] at dotted
  obtain ⟨segment, others, segments⟩ := List.exists_cons_of_ne_nil (DottedName.segments_ne_nil name)
  rw [segments] at dotted
  obtain ⟨here, rest⟩ := List.forall_mem_cons.mp dotted
  obtain ⟨first, tail, characters, start, plain⟩ := isIdentifier_eq_true here
  refine ⟨first, tail, others, ?_, start, plain, rest⟩
  rw [← DottedName.ofSegments_segments name, segments, DottedName.ofSegments, String.toList_ofList,
    List.map_cons, Text.join_cons, characters, List.cons_append]

theorem dottedName?_append {name : String} (dotted : isDottedIdentifier name = true) {text : List Char}
    (ends : EndsName text) : dottedName? (name.toList ++ text) = some (name.toList, text) := by
  obtain ⟨first, tail, others, characters, start, plain, identifiers⟩ := isDottedIdentifier_eq_true dotted
  rw [characters, List.cons_append, List.append_assoc, dottedName?, if_pos start,
    dottedTail_append plain, dottedTail_segments identifiers ends]

theorem isDottedIdentifier_start {name : String} (dotted : isDottedIdentifier name = true) :
    ∃ first rest, name.toList = first :: rest ∧ isNameStart first = true := by
  obtain ⟨first, _, _, characters, start, _, _⟩ := isDottedIdentifier_eq_true dotted
  exact ⟨first, _, characters, start⟩

end Names

section Values

/-- What may follow a value: a comma, a closing bracket or the end of the line. -/
inductive EndsValue : List Char → Prop where
  | comma (rest : List Char) : EndsValue (',' :: rest)
  | bracket (rest : List Char) : EndsValue (']' :: rest)
  | line (rest : List Char) : EndsValue ('\n' :: rest)

theorem EndsValue.endsName {text : List Char} (ends : EndsValue text) : EndsName text := by
  cases ends <;> exact EndsName.cons (by decide) (by decide) _

/-- A character with which a value starts. -/
def isValueStart (character : Char) : Bool :=
  isNameStart character || character.isDigit || character = '-' || character = '[' || character = '"' ||
    character = '\''

theorem ne_of_isValueStart {character other : Char} (start : isValueStart character = true)
    (none : isValueStart other = false) : character ≠ other := by
  rintro rfl
  rw [start] at none
  cases none

theorem isSolid_of_isValueStart {character : Char} (start : isValueStart character = true) :
    isSolid character = true := by
  have differs : ∀ {other : Char}, isValueStart other = false → character ≠ other :=
    ne_of_isValueStart start
  simp only [isSolid, isSeparator, ne_eq, Bool.and_eq_true, Bool.not_eq_true', Bool.or_eq_false_iff,
    decide_eq_false_iff_not, decide_eq_true_eq]
  exact ⟨⟨⟨⟨⟨⟨differs rfl, differs rfl⟩, differs rfl⟩, differs rfl⟩, differs rfl⟩, differs rfl⟩,
    differs rfl⟩

end Values

section Numbers

theorem digits?_append {digits text : List Char} (some : digits ≠ [])
    (plain : ∀ digit ∈ digits, digit.isDigit = true)
    (ends : ∀ character ∈ text.head?, character.isDigit = false) :
    digits? (digits ++ text) = Option.some (digits, text) := by
  have front : text.takeWhile Char.isDigit = [] ∧ text.dropWhile Char.isDigit = text := by
    cases text with
    | nil => exact ⟨rfl, rfl⟩
    | cons character rest => simp [ends character rfl]
  obtain ⟨first, rest, rfl⟩ := List.exists_cons_of_ne_nil some
  rw [digits?, List.takeWhile_append_of_pos plain, List.dropWhile_append_of_pos plain, front.1, front.2,
    List.append_nil]

theorem digitsValue_toDigits (number : Nat) : digitsValue (Nat.toDigits 10 number) = number :=
  Nat.ofDigitChars_ten_toDigits

theorem toDigits_start (number : Nat) :
    ∃ first rest, Nat.toDigits 10 number = first :: rest ∧ first.isDigit = true := by
  obtain ⟨first, rest, characters⟩ :=
    List.exists_cons_of_ne_nil (Nat.toDigits_ne_nil (n := number) (b := 10))
  exact ⟨first, rest, characters,
    Nat.isDigit_of_mem_toDigits (by decide) (by decide) (characters ▸ List.mem_cons_self)⟩

/-- The decimal digits of a number, with a sign before them if it is negative. -/
theorem toString_int (value : Int) :
    (toString value).toList =
      if 0 ≤ value then Nat.toDigits 10 value.toNat else '-' :: Nat.toDigits 10 (-value).toNat := by
  rw [Int.toString_eq_repr, Int.repr_eq_if]
  split
  · exact Nat.toList_repr
  · simp [String.toList_append, Nat.toList_repr]

theorem toString_int_start (value : Int) :
    ∃ first rest, (toString value).toList = first :: rest ∧ (first.isDigit = true ∨ first = '-') := by
  rw [toString_int]
  split
  · obtain ⟨first, rest, characters, digit⟩ := toDigits_start value.toNat
    exact ⟨first, rest, characters, .inl digit⟩
  · exact ⟨_, _, rfl, .inr rfl⟩

theorem digits?_toDigits (size : Nat) {text : List Char} (ends : EndsValue text) :
    digits? (Nat.toDigits 10 size ++ text) = some (Nat.toDigits 10 size, text) := by
  refine digits?_append Nat.toDigits_ne_nil
    (fun digit member => Nat.isDigit_of_mem_toDigits (by decide) (by decide) member) ?_
  rintro character found
  cases ends <;> cases found <;> rfl

theorem fractionDigits_of_endsValue {text : List Char} (ends : EndsValue text) :
    fractionDigits text = ([], text) := by
  cases ends <;> rfl

theorem exponent?_of_endsValue {text : List Char} (ends : EndsValue text) : exponent? text = none := by
  cases ends <;> rfl

theorem isNumberSuffix_of_endsValue {text : List Char} (ends : EndsValue text) :
    ∃ first rest, text = first :: rest ∧ isNumberSuffix first = false := by
  cases ends <;> exact ⟨_, _, rfl, rfl⟩

theorem number?_unsigned {size : Nat} {text : List Char} (ends : EndsValue text)
    (fits : isWordInt size = true) :
    number? (Nat.toDigits 10 size ++ text) = some (.int size, text) := by
  have digits := digits?_toDigits size ends
  have value := digitsValue_toDigits size
  obtain ⟨first, rest, characters, digit⟩ := toDigits_start size
  have noSign : first ≠ '-' := by
    rintro rfl
    cases digit
  rw [characters] at digits value ⊢
  rw [List.cons_append] at digits ⊢
  unfold number?
  split
  rename_i sign
  split at sign
  · rename_i same
    exact absurd (List.cons.inj same).1 noSign
  obtain ⟨rfl, rfl⟩ := Prod.mk.inj sign
  obtain ⟨mark, after, rfl, noSuffix⟩ := isNumberSuffix_of_endsValue ends
  simp [digits, fractionDigits_of_endsValue ends, exponent?_of_endsValue ends, noSuffix, value, fits]

theorem number?_negative {size : Nat} {text : List Char} (ends : EndsValue text)
    (fits : isWordInt (-size) = true) :
    number? ('-' :: Nat.toDigits 10 size ++ text) = some (.int (-size), text) := by
  have digits := digits?_toDigits size ends
  obtain ⟨mark, after, rfl, noSuffix⟩ := isNumberSuffix_of_endsValue ends
  unfold number?
  simp only [List.cons_append, digits, Option.bind_eq_bind, Option.bind_some,
    fractionDigits_of_endsValue ends, exponent?_of_endsValue ends, noSuffix, digitsValue_toDigits]
  simpa using fits

theorem number?_int {value : Int} (fits : isWordInt value = true) {text : List Char}
    (ends : EndsValue text) : number? ((toString value).toList ++ text) = some (.int value, text) := by
  rw [toString_int]
  by_cases sign : 0 ≤ value
  · rw [if_pos sign]
    have same : ((value.toNat : Nat) : Int) = value := Int.toNat_of_nonneg sign
    rw [number?_unsigned ends (same.symm ▸ fits), same]
  · rw [if_neg sign]
    have same : (-((-value).toNat : Nat) : Int) = value := by omega
    rw [number?_negative ends (same.symm ▸ fits), same]

end Numbers

section Quotes

theorem Quotes.content_cons (quotes : Quotes) (character : Char) (rest : List Char) :
    quotes.content (character :: rest) =
      (if quotes.isSpecial character then ['\\', character] else [character]) ++ quotes.content rest :=
  List.flatMap_cons

theorem unescape_of_isSpecial {character : Char} (special : Quotes.double.isSpecial character = true) :
    unescape character = character := by
  simp only [Quotes.isSpecial, Bool.or_eq_true, decide_eq_true_eq] at special
  rcases special with (rfl | rfl) | rfl <;> rfl

theorem doubleQuotedParts_of_not_isSpecial {character : Char}
    (plain : ¬Quotes.double.isSpecial character = true) (opening pending rest : List Char) :
    doubleQuotedParts opening pending (character :: rest) =
      doubleQuotedParts opening (character :: pending) rest := by
  simp only [Quotes.isSpecial, Bool.or_eq_true, decide_eq_true_eq, not_or] at plain
  obtain ⟨⟨mark, backslash⟩, dollar⟩ := plain
  rw [doubleQuotedParts.eq_def]
  split <;> simp_all

theorem doubleQuotedParts_content (opening pending text after : List Char) :
    doubleQuotedParts opening pending (Quotes.double.content text ++ after) =
      doubleQuotedParts opening (text.reverse ++ pending) after := by
  induction text generalizing pending with
  | nil => rfl
  | cons character rest inductionHypothesis =>
    rw [Quotes.content_cons, List.append_assoc, List.reverse_cons, List.append_assoc]
    by_cases special : Quotes.double.isSpecial character = true
    · rw [if_pos special, List.cons_append, List.cons_append, doubleQuotedParts,
        unescape_of_isSpecial special]
      exact inductionHypothesis _
    · rw [if_neg special, List.cons_append, doubleQuotedParts_of_not_isSpecial special]
      exact inductionHypothesis _

theorem splitAtBrace?_append {name : List Char} (plain : '}' ∉ name) (after : List Char) :
    splitAtBrace? (name ++ '}' :: after) = some (name, after) := by
  induction name with
  | nil => rfl
  | cons character rest inductionHypothesis =>
    rw [List.mem_cons, not_or] at plain
    rw [List.cons_append, splitAtBrace?, inductionHypothesis plain.2]
    · rfl
    · rintro rfl
      exact plain.1 rfl

/-- The name of a reference is found up to its closing brace, and the text before it becomes a part. -/
theorem doubleQuotedParts_reference {name : String} (plain : arePlainParts.isPlain (.reference name) = true)
    (opening pending after : List Char) :
    doubleQuotedParts opening pending (Canonical.ofPart (.reference name) ++ after) =
      (doubleQuotedParts opening [] after).map fun (parts, rest) =>
        (flush pending (.reference name :: parts), rest) := by
  simp only [arePlainParts.isPlain, Bool.and_eq_true, decide_eq_true_eq, Bool.not_eq_true',
    List.contains_eq_mem, decide_eq_false_iff_not] at plain
  obtain ⟨⟨some, trimmed⟩, brace⟩ := plain
  have inside := splitAtBrace?_append brace after
  rw [Canonical.ofPart, List.cons_append, List.cons_append, List.append_assoc, List.singleton_append,
    doubleQuotedParts]
  split
  · rename_i missing
    rw [inside] at missing
    cases missing
  rename_i found
  rw [inside] at found
  obtain ⟨rfl, rfl⟩ := Prod.mk.inj (Option.some.inj found)
  split
  · rename_i empty
    rw [trimmed] at empty
    exact absurd (String.toList_eq_nil_iff.mp empty) some
  · rw [trimmed, String.ofList_toList]
    cases doubleQuotedParts opening [] after <;> rfl

/-- Parts are read back, the first of them together with the characters that are pending before it. -/
theorem doubleQuotedParts_parts {parts : List TextPart}
    (plain : ∀ part ∈ parts, arePlainParts.isPlain part = true)
    (apart : arePlainParts.apart parts = true) (opening pending after : List Char)
    (alone : pending ≠ [] → ∀ text, parts.head? ≠ some (.literal text)) :
    doubleQuotedParts opening pending (parts.flatMap Canonical.ofPart ++ '"' :: after) =
      .ok (flush pending parts, after) := by
  induction parts generalizing pending with
  | nil => rw [List.flatMap_nil, List.nil_append, doubleQuotedParts]
  | cons part rest inductionHypothesis =>
    obtain ⟨here, others⟩ := List.forall_mem_cons.mp plain
    rw [List.flatMap_cons, List.append_assoc]
    cases part with
    | literal text =>
      have noPending : pending = [] := by
        by_contra some
        exact alone some text rfl
      have next : ∀ text, rest.head? ≠ some (.literal text) := by
        rintro other found
        cases rest with
        | nil => cases found
        | cons second others =>
          obtain rfl := Option.some.inj found
          cases apart
      have othersApart : arePlainParts.apart rest = true := by
        cases rest with
        | nil => rfl
        | cons second others =>
          cases second with
          | literal other => exact absurd rfl (next other)
          | reference name => exact apart
      have some : text ≠ "" := of_decide_eq_true here
      rw [noPending, Canonical.ofPart, doubleQuotedParts_content, List.append_nil,
        inductionHypothesis others othersApart _ fun _ => next]
      simp [flush, some]
    | reference name =>
      rw [doubleQuotedParts_reference here,
        inductionHypothesis others (by simpa [arePlainParts.apart] using apart) [] (absurd rfl)]
      rfl

theorem singleQuotedText_of_not_isSpecial {character : Char}
    (plain : ¬Quotes.single.isSpecial character = true) (opening rest : List Char) :
    singleQuotedText opening (character :: rest) =
      (singleQuotedText opening rest).map fun (text, after) => (character :: text, after) := by
  simp only [Quotes.isSpecial, Bool.or_eq_true, decide_eq_true_eq, not_or] at plain
  rw [singleQuotedText.eq_def]
  split <;> simp_all

theorem singleQuotedText_content (opening text after : List Char) :
    singleQuotedText opening (Quotes.single.content text ++ '\'' :: after) = .ok (text, after) := by
  induction text with
  | nil => rfl
  | cons character rest inductionHypothesis =>
    rw [Quotes.content_cons, List.append_assoc]
    by_cases special : Quotes.single.isSpecial character = true
    · rw [if_pos special]
      simp only [Quotes.isSpecial, Bool.or_eq_true, decide_eq_true_eq] at special
      rcases special with rfl | rfl <;>
        rw [List.cons_append, List.cons_append, singleQuotedText, List.nil_append, inductionHypothesis] <;> rfl
    · rw [if_neg special, List.singleton_append, singleQuotedText_of_not_isSpecial special,
        inductionHypothesis]
      rfl

theorem quoted_write (quotes : Quotes) (text : String) (after : List Char) :
    quoted (quotes.write text ++ after) = .ok (some (.text text, after)) := by
  rw [Quotes.write, List.cons_append, List.append_assoc, List.singleton_append]
  cases quotes with
  | double =>
    have one : Expression.ofParts (flush text.toList.reverse []) = .text text := by
      unfold flush
      split
      · rename_i empty
        rw [List.isEmpty_reverse, List.isEmpty_iff, String.toList_eq_nil_iff] at empty
        rw [empty]
        rfl
      · simp [Expression.ofParts]
    simp only [Quotes.mark, quoted]
    rw [doubleQuotedParts_content, List.append_nil, doubleQuotedParts]
    simp only [Except.map, one]
  | single =>
    simp only [Quotes.mark, quoted]
    rw [singleQuotedText_content]
    simp only [Except.map, String.ofList_toList]

theorem quoted_interpolated {parts : List TextPart} (plain : arePlainParts parts = true)
    (after : List Char) :
    quoted ('"' :: (parts.flatMap Canonical.ofPart ++ '"' :: after)) =
      .ok (some (.interpolated parts, after)) := by
  simp only [arePlainParts, Bool.and_eq_true, List.any_eq_true, List.all_eq_true] at plain
  obtain ⟨⟨⟨reference, member, isReference⟩, each⟩, apart⟩ := plain
  have kept : Expression.ofParts parts = .interpolated parts := by
    unfold Expression.ofParts
    split
    · cases member
    · rw [List.mem_singleton] at member
      rw [member] at isReference
      cases isReference
    · rfl
  simp only [quoted]
  rw [doubleQuotedParts_parts each apart _ _ _ (absurd rfl)]
  simp only [Except.map, flush, List.isEmpty_nil, if_true, kept]

theorem mapKey_write (quotes : Quotes) (key : String) (after : List Char) :
    mapKey (quotes.write key ++ after) = .ok (some (key, after)) := by
  have noName : name? (quotes.write key ++ after) = none := by cases quotes <;> rfl
  have noDigits : digits? (quotes.write key ++ after) = none := by cases quotes <;> rfl
  simp only [mapKey, noName, noDigits, quoted_write]

theorem quoted_of_ne {character : Char} (double : character ≠ '"') (single : character ≠ '\'')
    (text : List Char) : quoted (character :: text) = .ok none := by
  unfold quoted
  split <;> simp_all

end Quotes

end Recipe

end DeployRecipe
