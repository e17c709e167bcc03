import DeployRecipe.Proofs.Recipe.Productions
import DeployRecipe.Proofs.Recipe.Rests

/-!
Lexemes of a text that goes on with a line feed. No name, number or blank goes on over a line feed, so that they end
where they ended; what was read between quotes or as trivia is read as before, whatever goes on.
-/

namespace DeployRecipe.Recipe

variable {text rest tail more : List Char}

/-- What was read is followed by a text that goes on. -/
def goesOn {α : Type} (tail : List Char) : α × List Char → α × List Char :=
  Prod.map id (· ++ tail)

@[simp]
theorem goesOn_mk {α : Type} (tail : List Char) (value : α) (rest : List Char) :
    goesOn tail (value, rest) = (value, rest ++ tail) := rfl

section Words

theorem takeWhile_lineFeed {check : Char → Bool} (stops : check '\n' = false) (text more : List Char) :
    (text ++ '\n' :: more).takeWhile check = text.takeWhile check := by
  induction text with
  | nil => simp [stops]
  | cons first others inductionHypothesis =>
    rw [List.cons_append, List.takeWhile_cons, List.takeWhile_cons, inductionHypothesis]

theorem dropWhile_lineFeed {check : Char → Bool} (stops : check '\n' = false) (text more : List Char) :
    (text ++ '\n' :: more).dropWhile check = text.dropWhile check ++ '\n' :: more := by
  induction text with
  | nil => simp [stops]
  | cons first others inductionHypothesis =>
    rw [List.cons_append, List.dropWhile_cons, List.dropWhile_cons, inductionHypothesis]
    split <;> rfl

theorem skipSpaces_append (text more : List Char) :
    skipSpaces (text ++ '\n' :: more) = skipSpaces text ++ '\n' :: more :=
  dropWhile_lineFeed (by decide) text more

theorem name?_lineFeed (text more : List Char) :
    name? (text ++ '\n' :: more) = (name? text).map (goesOn ('\n' :: more)) := by
  cases text with
  | nil => rfl
  | cons first others =>
    rw [List.cons_append, name?, name?, takeWhile_lineFeed (by decide), dropWhile_lineFeed (by decide)]
    split <;> rfl

theorem dottedTail_lineFeed (text more : List Char) :
    dottedTail (text ++ '\n' :: more) = goesOn ('\n' :: more) (dottedTail text) := by
  fun_induction dottedTail text with
  | case1 => rfl
  | case2 first rest start tail after same inductionHypothesis =>
    rw [List.cons_append, List.cons_append, dottedTail, if_pos start, inductionHypothesis]
    simp [same]
  | case3 first rest noStart =>
    rw [List.cons_append, List.cons_append, dottedTail, if_neg noStart]
    rfl
  | case4 character rest noDot plain tail after same inductionHypothesis =>
    rw [List.cons_append, dottedTail, if_pos plain, inductionHypothesis]
    · simp [same]
    · rintro first others rfl
      cases plain
  | case5 character rest noDot noPlain =>
    by_cases last : character = '.' ∧ rest = []
    · obtain ⟨rfl, rfl⟩ := last
      rfl
    · rw [List.cons_append, dottedTail, if_neg noPlain]
      · rfl
      · rintro first others rfl same
        cases rest with
        | nil => exact last ⟨rfl, rfl⟩
        | cons next further => exact noDot _ _ rfl rfl

theorem dottedName?_lineFeed (text more : List Char) :
    dottedName? (text ++ '\n' :: more) = (dottedName? text).map (goesOn ('\n' :: more)) := by
  cases text with
  | nil => rfl
  | cons first others =>
    rw [List.cons_append, dottedName?, dottedName?, dottedTail_lineFeed]
    split <;> rfl

end Words

section Numbers

theorem digits?_lineFeed (text more : List Char) :
    digits? (text ++ '\n' :: more) = (digits? text).map (goesOn ('\n' :: more)) := by
  rw [digits?, digits?, takeWhile_lineFeed (by decide), dropWhile_lineFeed (by decide)]
  split <;> rfl

theorem fractionDigits_lineFeed (text more : List Char) :
    fractionDigits (text ++ '\n' :: more) = goesOn ('\n' :: more) (fractionDigits text) := by
  by_cases point : ∃ after, text = '.' :: after
  · obtain ⟨after, rfl⟩ := point
    rw [List.cons_append, fractionDigits, fractionDigits, digits?_lineFeed]
    cases digits? after <;> rfl
  · have plain := not_exists.mp point
    cases text with
    | nil => rfl
    | cons first others =>
      rw [List.cons_append]
      unfold fractionDigits
      split <;> simp_all

/-- Whether a minus sign stands before an exponent, and the text after its sign. -/
def afterExponentSign (text : List Char) : Bool × List Char :=
  match text with
  | '-' :: after => (true, after)
  | '+' :: after => (false, after)
  | _ => (false, text)

theorem exponent?_cons (mark : Char) (text : List Char) :
    exponent? (mark :: text) =
      if mark = 'e' ∨ mark = 'E' then
        (digits? (afterExponentSign text).2).map fun (digits, after) =>
          let size : Int := digitsValue digits
          (if (afterExponentSign text).1 then -size else size, after)
      else none := by
  rfl

theorem afterExponentSign_lineFeed (text more : List Char) :
    afterExponentSign (text ++ '\n' :: more) = goesOn ('\n' :: more) (afterExponentSign text) := by
  cases text with
  | nil => rfl
  | cons first others =>
    rw [List.cons_append]
    unfold afterExponentSign
    split <;> simp_all

theorem exponent?_lineFeed (text more : List Char) :
    exponent? (text ++ '\n' :: more) = (exponent? text).map (goesOn ('\n' :: more)) := by
  cases text with
  | nil => rfl
  | cons mark after =>
    rw [List.cons_append, exponent?_cons, exponent?_cons, afterExponentSign_lineFeed]
    split
    · simp only [goesOn, Prod.map_snd, Prod.map_fst, digits?_lineFeed]
      cases digits? (afterExponentSign after).2 <;> rfl
    · rfl

theorem afterSign_lineFeed (text more : List Char) :
    afterSign (text ++ '\n' :: more) = goesOn ('\n' :: more) (afterSign text) := by
  cases text with
  | nil => rfl
  | cons first others =>
    rw [List.cons_append]
    unfold afterSign
    split <;> simp_all

theorem afterExponent_lineFeed (text more : List Char) :
    afterExponent (text ++ '\n' :: more) = goesOn ('\n' :: more) (afterExponent text) := by
  rw [afterExponent, afterExponent, exponent?_lineFeed]
  cases exponent? text <;> rfl

theorem afterNumberSuffix_lineFeed (text more : List Char) :
    afterNumberSuffix (text ++ '\n' :: more) = goesOn ('\n' :: more) (afterNumberSuffix text) := by
  cases text with
  | nil => rfl
  | cons first others =>
    rw [List.cons_append, afterNumberSuffix, afterNumberSuffix]
    split <;> rfl

theorem number?_lineFeed (text more : List Char) :
    number? (text ++ '\n' :: more) = (number? text).map (goesOn ('\n' :: more)) := by
  rw [number?_eq_map, number?_eq_map, afterSign_lineFeed]
  simp only [goesOn, Prod.map_fst, Prod.map_snd, digits?_lineFeed, id_eq]
  cases digits? (afterSign text).2 with
  | none => rfl
  | some whole =>
    simp only [goesOn, Option.map_some, Prod.map_fst, Prod.map_snd, fractionDigits_lineFeed, afterExponent_lineFeed,
      afterNumberSuffix_lineFeed, id_eq]
    rfl

end Numbers

section Trivia

theorem afterLine?_append (found : afterLine? text = some rest) (more : List Char) :
    afterLine? (text ++ '\n' :: more) = some (rest ++ '\n' :: more) := by
  fun_induction afterLine? text with
  | case1 | case2 | case3 =>
    obtain rfl := Option.some.inj found
    rfl
  | case4 => cases found
  | case5 character others noFeed noReturnFeed noReturn inductionHypothesis =>
    rw [List.cons_append, afterLine?, inductionHypothesis found]
    all_goals simp_all

theorem afterComment?_append (found : afterComment? text = some rest) (tail : List Char) :
    afterComment? (text ++ tail) = some (rest ++ tail) := by
  fun_induction afterComment? text with
  | case1 => cases found
  | case2 =>
    obtain rfl := Option.some.inj found
    rfl
  | case3 character others noEnd inductionHypothesis =>
    rw [List.cons_append, afterComment?, inductionHypothesis found]
    rintro after rfl same
    cases others with
    | nil => cases found
    | cons next further =>
      obtain ⟨rfl, -⟩ := List.cons.inj same
      exact noEnd _ rfl rfl

theorem afterTrivium?_of_separator {character : Char} (separator : isSeparator character = true) (text : List Char) :
    afterTrivium? (character :: text) = some text := by
  have noSlash : character ≠ '/' := by
    rintro rfl
    cases separator
  have noHash : character ≠ '#' := by
    rintro rfl
    cases separator
  unfold afterTrivium?
  split <;> simp_all

theorem afterTrivium?_append (found : afterTrivium? text = some rest) (more : List Char) :
    afterTrivium? (text ++ '\n' :: more) = some (rest ++ '\n' :: more) := by
  unfold afterTrivium? at found
  split at found
  · exact afterLine?_append found more
  · exact afterComment?_append found _
  · exact afterLine?_append found more
  · rename_i character others noLine noComment noHash
    split at found
    · rename_i separator
      obtain rfl := Option.some.inj found
      exact afterTrivium?_of_separator separator _
    · cases found
  · cases found

/-- Trivia at the start of a text are skipped first, whatever goes on. -/
theorem skipTrivia_append (text more : List Char) :
    skipTrivia (text ++ '\n' :: more) = skipTrivia (skipTrivia text ++ '\n' :: more) := by
  fun_induction skipTrivia text with
  | case1 text rest found inductionHypothesis =>
    rw [skipTrivia_of_after (afterTrivium?_append found more), inductionHypothesis]
  | case2 text => rfl

/-- A text that something other than trivia starts stays as it is. -/
theorem skipTrivia_append_of_solid {character : Char} (start : skipTrivia text = character :: rest)
    (solid : isSolid character = true) (more : List Char) :
    skipTrivia (text ++ '\n' :: more) = character :: (rest ++ '\n' :: more) := by
  rw [skipTrivia_append, start, List.cons_append, skipTrivia_of_solid _ solid]

end Trivia

section Quotes

theorem splitAtBrace?_goesOn {inside : List Char} (found : splitAtBrace? text = some (inside, rest))
    (tail : List Char) :
    splitAtBrace? (text ++ tail) = some (inside, rest ++ tail) := by
  fun_induction splitAtBrace? text generalizing inside with
  | case1 => cases found
  | case2 =>
    obtain ⟨rfl, rfl⟩ := Prod.mk.inj (Option.some.inj found)
    rfl
  | case3 character others noBrace inductionHypothesis =>
    obtain ⟨⟨start, stop⟩, inner, same⟩ := Option.map_eq_some_iff.mp found
    obtain ⟨rfl, rfl⟩ := Prod.mk.inj same
    rw [List.cons_append, splitAtBrace?, inductionHypothesis inner]
    · rfl
    · exact noBrace

/-- A name to look up becomes a part, with the characters that are pending before it as another one. -/
theorem doubleQuotedParts_of_brace {inside after : List Char} (brace : splitAtBrace? text = some (inside, after))
    (named : Text.trim inside ≠ []) (opening pending : List Char) :
    doubleQuotedParts opening pending ('$' :: '{' :: text) =
      match doubleQuotedParts opening [] after with
      | .error halt => .error halt
      | .ok (parts, rest) => .ok (flush pending (.reference (String.ofList (Text.trim inside)) :: parts), rest) := by
  rw [doubleQuotedParts]
  split
  · rename_i missing
    rw [brace] at missing
    cases missing
  rename_i found
  rw [brace] at found
  obtain ⟨rfl, rfl⟩ := Prod.mk.inj (Option.some.inj found)
  split
  · contradiction
  · rfl

theorem doubleQuotedParts_append {opening pending : List Char} {parts : List TextPart}
    (read : doubleQuotedParts opening pending text = .ok (parts, rest)) (other tail : List Char) :
    doubleQuotedParts other pending (text ++ tail) = .ok (parts, rest ++ tail) := by
  fun_induction doubleQuotedParts opening pending text generalizing parts with
  | case1 | case3 | case5 | case6 | case7 => cases read
  | case2 pending others =>
    obtain ⟨rfl, rfl⟩ := Prod.mk.inj (Except.ok.inj read)
    rw [List.cons_append, doubleQuotedParts]
  | case4 pending escaped others inductionHypothesis =>
    rw [List.cons_append, List.cons_append, doubleQuotedParts, inductionHypothesis read]
  | case8 pending others inside after brace parts' rest' reads named inductionHypothesis =>
    obtain ⟨rfl, rfl⟩ := Prod.mk.inj (Except.ok.inj read)
    rw [List.cons_append, List.cons_append, doubleQuotedParts_of_brace (splitAtBrace?_goesOn brace tail) named,
      inductionHypothesis reads]
  | case9 pending character others noQuote noEnd noEscape noReference inductionHypothesis =>
    cases others with
    | nil =>
      rw [doubleQuotedParts] at read
      cases read
    | cons next further =>
      rw [List.cons_append, doubleQuotedParts, inductionHypothesis read]
      all_goals simp_all

theorem singleQuotedText_append {opening content : List Char}
    (read : singleQuotedText opening text = .ok (content, rest)) (other tail : List Char) :
    singleQuotedText other (text ++ tail) = .ok (content, rest ++ tail) := by
  fun_induction singleQuotedText opening text generalizing content with
  | case1 => cases read
  | case2 others =>
    obtain ⟨rfl, rfl⟩ := Prod.mk.inj (Except.ok.inj read)
    rfl
  | case3 others inductionHypothesis | case4 others inductionHypothesis =>
    obtain ⟨⟨inner, last⟩, inside, same⟩ := (Running.map_eq_ok _ _ _).mp read
    obtain ⟨rfl, rfl⟩ := Prod.mk.inj same
    rw [List.cons_append, List.cons_append, singleQuotedText, inductionHypothesis inside]
    rfl
  | case5 character others noQuote noEscapedQuote noEscapedBackslash inductionHypothesis =>
    obtain ⟨⟨inner, last⟩, inside, same⟩ := (Running.map_eq_ok _ _ _).mp read
    obtain ⟨rfl, rfl⟩ := Prod.mk.inj same
    cases others with
    | nil => cases inside
    | cons next further =>
      rw [List.cons_append, singleQuotedText, inductionHypothesis inside]
      · rfl
      all_goals simp_all

theorem quoted_append {value : Expression} (read : quoted text = .ok (some (value, rest))) (tail : List Char) :
    quoted (text ++ tail) = .ok (some (value, rest ++ tail)) := by
  unfold quoted at read
  split at read
  · obtain ⟨⟨parts, last⟩, inside, same⟩ := (Running.map_eq_ok _ _ _).mp read
    obtain ⟨rfl, rfl⟩ := Prod.mk.inj (Option.some.inj same)
    rw [List.cons_append, quoted, doubleQuotedParts_append inside]
    rfl
  · obtain ⟨⟨content, last⟩, inside, same⟩ := (Running.map_eq_ok _ _ _).mp read
    obtain ⟨rfl, rfl⟩ := Prod.mk.inj (Option.some.inj same)
    rw [List.cons_append, quoted, singleQuotedText_append inside]
    rfl
  · cases read

theorem quoted_append_none (read : quoted text = .ok none) (more : List Char) :
    quoted (text ++ '\n' :: more) = .ok none := by
  cases text with
  | nil => rfl
  | cons first others =>
    have noQuote : first ≠ '"' ∧ first ≠ '\'' := by
      constructor <;> rintro rfl <;> obtain ⟨_, _, same⟩ := (Running.map_eq_ok _ _ _).mp read <;> cases same
    exact quoted_of_ne noQuote.1 noQuote.2 _

end Quotes

section Starts

/-- A value or the key of a map may start the text. -/
def StartsValue (text : List Char) : Prop :=
  ∃ first others, text = first :: others ∧ (isValueStart first = true ∨ first = '(')

namespace StartsValue

theorem of_first {first : Char} (start : isValueStart first = true) (others : List Char) :
    StartsValue (first :: others) :=
  ⟨first, others, rfl, .inl start⟩

theorem isSolid (starts : StartsValue text) : ∃ first others, text = first :: others ∧ isSolid first = true := by
  obtain ⟨first, others, rfl, start | rfl⟩ := starts
  · exact ⟨first, others, rfl, isSolid_of_isValueStart start⟩
  · exact ⟨_, others, rfl, rfl⟩

/-- No value starts with a character that is none of those with which values start. -/
theorem ne (starts : StartsValue text) {other : Char} (none : isValueStart other = false) (parenthesis : other ≠ '(')
    (rest : List Char) : text ≠ other :: rest := by
  obtain ⟨first, others, rfl, start | rfl⟩ := starts
  · rintro ⟨⟩
    exact ne_of_isValueStart start none rfl
  · rintro ⟨⟩
    exact parenthesis rfl

theorem append (starts : StartsValue text) (tail : List Char) : StartsValue (text ++ tail) := by
  obtain ⟨first, others, rfl, start⟩ := starts
  exact ⟨first, others ++ tail, rfl, start⟩

theorem skipTrivia_append (starts : StartsValue (skipTrivia text)) (more : List Char) :
    skipTrivia (text ++ '\n' :: more) = skipTrivia text ++ '\n' :: more := by
  obtain ⟨first, others, start, solid⟩ := starts.isSolid
  rw [skipTrivia_append_of_solid start solid, start, List.cons_append]

theorem of_quoted {value : Expression} (read : quoted text = .ok (some (value, rest))) : StartsValue text := by
  unfold quoted at read
  split at read
  · exact .of_first rfl _
  · exact .of_first rfl _
  · cases read

theorem of_dottedName? {name : List Char} (found : dottedName? text = some (name, rest)) : StartsValue text := by
  unfold dottedName? at found
  split at found
  · cases found
  · split at found
    · rename_i start
      exact .of_first (isValueStart_of_isNameStart start) _
    · cases found

theorem of_name? {name : List Char} (found : name? text = some (name, rest)) : StartsValue text := by
  unfold name? at found
  split at found
  · cases found
  · split at found
    · rename_i start
      exact .of_first (isValueStart_of_isNameStart start) _
    · cases found

theorem of_digits? {digits : List Char} (found : digits? text = some (digits, rest)) : StartsValue text := by
  cases text with
  | nil => cases found
  | cons first others =>
    by_cases digit : first.isDigit = true
    · exact .of_first (isValueStart_of_isDigit digit) others
    · simp [digits?, digit] at found

theorem of_number? {value : Expression} (found : number? text = some (value, rest)) : StartsValue text := by
  rw [number?_eq_map] at found
  obtain ⟨⟨digits, last⟩, read, -⟩ := Option.map_eq_some_iff.mp found
  unfold afterSign at read
  split at read
  · exact .of_first rfl _
  · exact .of_digits? read

theorem of_mapKey {key : String} (read : mapKey text = .ok (some (key, rest))) : StartsValue text := by
  unfold mapKey at read
  split at read
  · rename_i named
    exact .of_name? named
  · split at read
    · rename_i digits
      exact .of_digits? digits
    · split at read
      · rename_i inside
        exact .of_quoted inside
      · cases read
      · cases read

theorem of_word {feeds fuel : Nat} {value : Expression} (read : word feeds fuel text = .ok (some (value, rest))) :
    StartsValue text := by
  cases fuel with
  | zero => cases read
  | succ fuel =>
    cases word_eq_some.mp read with
    | keyword named | load named | block named | reference named => exact .of_dottedName? named

theorem of_expression {feeds fuel : Nat} {value : Expression}
    (read : expression feeds fuel text = .ok (some (value, rest))) : StartsValue text := by
  cases fuel with
  | zero => cases read
  | succ fuel =>
    cases expression_eq_some.mp read with
    | emptyList | emptyMap | map | list => exact .of_first rfl _
    | nested => exact ⟨_, _, rfl, .inr rfl⟩
    | quoted found => exact .of_quoted found
    | number _ found => exact .of_number? found
    | word _ _ found => exact .of_word found

theorem of_listItems {feeds fuel : Nat} {items : List Expression}
    (read : listItems feeds fuel text = .ok (items, rest)) : StartsValue text := by
  cases fuel with
  | zero => cases read
  | succ fuel =>
    cases listItems_eq_ok.mp read with
    | last head | more head => exact .of_expression head

theorem of_mapEntries {feeds fuel : Nat} {entries : List (String × Expression)}
    (read : mapEntries feeds fuel text = .ok (entries, rest)) : StartsValue text := by
  cases fuel with
  | zero => cases read
  | succ fuel =>
    cases mapEntries_eq_ok.mp read with
    | last named | more named => exact .of_mapKey named

end StartsValue

end Starts

section Brackets

theorem mapKey_append {key : String} (read : mapKey text = .ok (some (key, rest))) (more : List Char) :
    mapKey (text ++ '\n' :: more) = .ok (some (key, rest ++ '\n' :: more)) := by
  unfold mapKey at read ⊢
  rw [name?_lineFeed, digits?_lineFeed]
  split at read
  · rename_i named
    obtain ⟨rfl, rfl⟩ := Prod.mk.inj (Option.some.inj (Except.ok.inj read))
    simp only [named, Option.map_some, goesOn_mk]
  · rename_i unnamed
    split at read
    · rename_i digits
      obtain ⟨rfl, rfl⟩ := Prod.mk.inj (Option.some.inj (Except.ok.inj read))
      simp only [unnamed, digits, Option.map_none, Option.map_some, goesOn_mk]
    · rename_i noDigits
      split at read
      · rename_i inside
        obtain ⟨rfl, rfl⟩ := Prod.mk.inj (Option.some.inj (Except.ok.inj read))
        simp only [unnamed, noDigits, Option.map_none, quoted_append inside]
      · cases read
      · cases read

theorem mapKey_append_none (read : mapKey text = .ok none) (more : List Char) :
    mapKey (text ++ '\n' :: more) = .ok none := by
  unfold mapKey at read ⊢
  rw [name?_lineFeed, digits?_lineFeed]
  split at read
  · cases read
  · rename_i unnamed
    split at read
    · cases read
    · rename_i noDigits
      simp only [unnamed, noDigits, Option.map_none]
      split at read
      · cases read
      · rename_i found noText inside
        cases found with
        | none => rw [quoted_append_none inside]
        | some pair =>
          obtain ⟨value, rest⟩ := pair
          rw [quoted_append inside]
          cases value with
          | text key => exact absurd rfl (noText key rest)
          | _ => rfl
      · cases read

theorem emptyMap?_append (found : emptyMap? (skipTrivia text) = some rest) (more : List Char) :
    emptyMap? (skipTrivia (text ++ '\n' :: more)) = some (rest ++ '\n' :: more) := by
  generalize colon : skipTrivia text = start at found
  unfold emptyMap? at found
  split at found
  · split at found
    · rename_i closed
      obtain rfl := Option.some.inj found
      simp only [skipTrivia_append_of_solid colon rfl, emptyMap?, skipTrivia_append_of_solid closed rfl]
    · cases found
  · cases found

/-- What stands between brackets and starts a value is no map without entries. -/
theorem emptyMap?_of_startsValue (starts : StartsValue text) : emptyMap? text = none := by
  unfold emptyMap?
  split
  · rename_i right
    exact absurd rfl (starts.ne rfl (by decide) right)
  · rfl

theorem afterItem_append_closed (closed : afterItem text = .ok (.closed rest)) (more : List Char) :
    afterItem (text ++ '\n' :: more) = .ok (.closed (rest ++ '\n' :: more)) := by
  unfold afterItem at closed
  split at closed
  · rename_i bracket
    obtain rfl := AfterItem.closed.inj (Except.ok.inj closed)
    simp only [afterItem, skipTrivia_append_of_solid bracket rfl]
  · rename_i comma
    split at closed
    · rename_i bracket
      obtain rfl := AfterItem.closed.inj (Except.ok.inj closed)
      simp only [afterItem, skipTrivia_append_of_solid comma rfl, skipTrivia_append_of_solid bracket rfl]
    · cases closed
  · cases closed

theorem afterItem_append_item (item : afterItem text = .ok (.item rest)) (starts : StartsValue rest)
    (more : List Char) : afterItem (text ++ '\n' :: more) = .ok (.item (rest ++ '\n' :: more)) := by
  unfold afterItem at item
  split at item
  · cases item
  · rename_i right comma
    split at item
    · cases item
    · obtain rfl := AfterItem.item.inj (Except.ok.inj item)
      obtain ⟨first, others, same, solid⟩ := starts.isSolid
      have bracket : first ≠ ']' := by
        rintro rfl
        exact starts.ne rfl (by decide) others same
      simp only [afterItem, skipTrivia_append_of_solid comma rfl, starts.skipTrivia_append, same, List.cons_append]
      split
      · rename_i closed
        exact absurd (List.cons.inj closed).1 bracket
      · rfl
  · cases item

theorem loadTarget?_append {target : Expression} (found : loadTarget? text = some (target, rest)) (more : List Char) :
    loadTarget? (text ++ '\n' :: more) = some (target, rest ++ '\n' :: more) := by
  obtain ⟨inside, last, parenthesis, read, closed⟩ := loadTarget?_eq_some.mp found
  refine loadTarget?_eq_some.mpr ⟨inside ++ '\n' :: more, last ++ '\n' :: more, ?_, ?_, ?_⟩
  · rw [skipSpaces_append, parenthesis, List.cons_append]
  · rw [(StartsValue.of_quoted read).skipTrivia_append]
    exact quoted_append read _
  · exact skipTrivia_append_of_solid closed rfl more

theorem loadTarget?_append_none (noParenthesis : ∀ inside, skipSpaces text ≠ '(' :: inside) (more : List Char) :
    loadTarget? (text ++ '\n' :: more) = none := by
  rw [Option.eq_none_iff_forall_ne_some]
  rintro ⟨target, rest⟩ found
  obtain ⟨inside, last, parenthesis, -⟩ := loadTarget?_eq_some.mp found
  rw [skipSpaces_append] at parenthesis
  cases start : skipSpaces text with
  | nil =>
    rw [start] at parenthesis
    cases parenthesis
  | cons first others =>
    rw [start] at parenthesis
    exact noParenthesis others (start.trans (by rw [(List.cons.inj parenthesis).1]))

end Brackets

end DeployRecipe.Recipe
