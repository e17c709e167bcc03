import DeployRecipe.Proofs.Recipe.Readers

/-!
What a reader leaves of a text. It is always an end of the text, and a reader that reads something other than trivia
leaves a shorter one.
-/

namespace DeployRecipe.Recipe

/-- A shorter end of a text. -/
structure Shortens (text rest : List Char) : Prop where
  suffix : rest <:+ text
  shorter : rest.length < text.length

namespace Shortens

variable {text middle rest : List Char}

theorem cons (character : Char) (suffix : rest <:+ text) : Shortens (character :: text) rest :=
  ⟨suffix.trans (List.suffix_cons character text), Nat.lt_succ_of_le suffix.length_le⟩

theorem before (shortens : Shortens middle rest) (suffix : middle <:+ text) : Shortens text rest :=
  ⟨shortens.suffix.trans suffix, Nat.lt_of_lt_of_le shortens.shorter suffix.length_le⟩

theorem after (shortens : Shortens text middle) (suffix : rest <:+ middle) : Shortens text rest :=
  ⟨suffix.trans shortens.suffix, Nat.lt_of_le_of_lt suffix.length_le shortens.shorter⟩

theorem trans (first : Shortens text middle) (second : Shortens middle rest) : Shortens text rest :=
  first.after second.suffix

/-- What stands at the start of an end of a text is taken off. -/
theorem of_cons {character : Char} (suffix : (character :: rest) <:+ text) : Shortens text rest :=
  (cons character (List.suffix_refl rest)).before suffix

end Shortens

/-- The text after an item of a list or a map and what closes or goes on with it. -/
def AfterItem.rest : AfterItem → List Char
  | item rest => rest
  | closed rest => rest

section Lexemes

variable {text rest : List Char}

theorem afterLine?_suffix (found : afterLine? text = some rest) : rest <:+ text := by
  fun_induction afterLine? text with
  | case1 | case2 | case3 => simp_all
  | case4 => cases found
  | case5 character others _ _ _ inductionHypothesis =>
    exact (inductionHypothesis found).trans (List.suffix_cons character others)

theorem afterComment?_suffix (found : afterComment? text = some rest) : rest <:+ text := by
  fun_induction afterComment? text with
  | case1 => cases found
  | case2 others =>
    obtain rfl := Option.some.inj found
    exact (Shortens.of_cons (List.suffix_cons '*' _)).suffix
  | case3 character others _ inductionHypothesis =>
    exact (inductionHypothesis found).trans (List.suffix_cons character others)

theorem afterTrivium?_shortens (found : afterTrivium? text = some rest) : Shortens text rest := by
  refine ⟨?_, afterTrivium?_length found⟩
  unfold afterTrivium? at found
  split at found
  · exact (afterLine?_suffix found).trans (Shortens.of_cons (List.suffix_cons '/' _)).suffix
  · exact (afterComment?_suffix found).trans (Shortens.of_cons (List.suffix_cons '/' _)).suffix
  · exact (Shortens.cons '#' (afterLine?_suffix found)).suffix
  · split at found
    · obtain rfl := Option.some.inj found
      exact List.suffix_cons _ _
    · cases found
  · cases found

theorem skipTrivia_suffix (text : List Char) : skipTrivia text <:+ text := by
  fun_induction skipTrivia text with
  | case1 text rest found inductionHypothesis => exact inductionHypothesis.trans (afterTrivium?_shortens found).suffix
  | case2 text => exact List.suffix_refl text

theorem skipSpaces_suffix (text : List Char) : skipSpaces text <:+ text :=
  List.dropWhile_suffix _

theorem dottedTail_suffix (text : List Char) : (dottedTail text).2 <:+ text := by
  fun_induction dottedTail text with
  | case1 => exact List.suffix_refl _
  | case2 first rest start tail after same inductionHypothesis =>
    rw [same] at inductionHypothesis
    exact (Shortens.cons '.' (inductionHypothesis.trans (List.suffix_cons first rest))).suffix
  | case3 => exact List.suffix_refl _
  | case4 character rest _ plain tail after same inductionHypothesis =>
    rw [same] at inductionHypothesis
    exact inductionHypothesis.trans (List.suffix_cons character rest)
  | case5 => exact List.suffix_refl _

theorem dottedName?_shortens {name : List Char} (found : dottedName? text = some (name, rest)) :
    Shortens text rest := by
  unfold dottedName? at found
  split at found
  · cases found
  · split at found
    · obtain ⟨rfl, rfl⟩ := Prod.mk.inj (Option.some.inj found)
      exact .cons _ (dottedTail_suffix _)
    · cases found

theorem name?_shortens {name : List Char} (found : name? text = some (name, rest)) : Shortens text rest := by
  unfold name? at found
  split at found
  · cases found
  · split at found
    · obtain ⟨rfl, rfl⟩ := Prod.mk.inj (Option.some.inj found)
      exact .cons _ (List.dropWhile_suffix _)
    · cases found

theorem digits?_shortens {digits : List Char} (found : digits? text = some (digits, rest)) : Shortens text rest := by
  cases text with
  | nil => cases found
  | cons first others =>
    by_cases digit : first.isDigit = true
    · simp only [digits?, List.takeWhile_cons_of_pos digit, List.dropWhile_cons_of_pos digit] at found
      obtain ⟨rfl, rfl⟩ := Prod.mk.inj (Option.some.inj found)
      exact .cons _ (List.dropWhile_suffix _)
    · simp [digits?, digit] at found

theorem fractionDigits_suffix (text : List Char) : (fractionDigits text).2 <:+ text := by
  unfold fractionDigits
  split
  · rename_i after
    cases digits : digits? after with
    | none => exact List.suffix_refl _
    | some pair => exact ((digits?_shortens digits).suffix).trans (List.suffix_cons '.' after)
  · exact List.suffix_refl _

theorem exponent?_suffix {exponent : Int} (found : exponent? text = some (exponent, rest)) : rest <:+ text := by
  unfold exponent? at found
  split at found
  · rename_i mark after
    split at found
    · obtain ⟨⟨digits, last⟩, read, same⟩ := Option.map_eq_some_iff.mp found
      obtain ⟨-, rfl⟩ := Prod.mk.inj same
      refine List.IsSuffix.trans ?_ (List.suffix_cons mark after)
      have shortens := (digits?_shortens read).suffix
      split at shortens
      · exact shortens.trans (List.suffix_cons '-' _)
      · exact shortens.trans (List.suffix_cons '+' _)
      · exact shortens
    · cases found
  · cases found

/-- Whether a minus sign stands before a number, and the text after it. -/
def afterSign : List Char → Bool × List Char
  | '-' :: rest => (true, rest)
  | text => (false, text)

/-- The exponent of a number, if there is one, and the text after it. -/
def afterExponent (text : List Char) : Option Int × List Char :=
  match exponent? text with
  | some (exponent, after) => (some exponent, after)
  | none => (none, text)

/-- The suffix of a number, if there is one, and the text after it. -/
def afterNumberSuffix (text : List Char) : Option Char × List Char :=
  match text with
  | character :: after => if isNumberSuffix character then (some character, after) else (none, text)
  | [] => (none, text)

/-- The number that its parts make up. -/
def numberOf (negative : Bool) (whole fraction : List Char) (exponent : Option Int) (suffix : Option Char) :
    Expression :=
  let size : Int := digitsValue whole
  let int := if negative then -size else size
  if fraction.isEmpty && exponent.isNone && !suffix.any isFloatSuffix && isWordInt int then .int int
  else .float (Double.ofDecimal negative (digitsValue (whole ++ fraction)) (exponent.getD 0 - fraction.length))

/-- A number is a sign, digits, digits after a point, an exponent and a suffix, each read where the one before it
ends. Only the digits must be there. -/
theorem number?_eq_map (text : List Char) :
    number? text = (digits? (afterSign text).2).map fun whole =>
      let fraction := fractionDigits whole.2
      let exponent := afterExponent fraction.2
      let suffix := afterNumberSuffix exponent.2
      (numberOf (afterSign text).1 whole.1 fraction.1 exponent.1 suffix.1, suffix.2) := by
  unfold number?
  split
  rename_i negative unsigned sign
  have same : afterSign text = (negative, unsigned) := by
    rw [← sign]
    unfold afterSign
    split <;> simp_all
  rw [same]
  cases digits? unsigned with
  | none => rfl
  | some whole =>
    have choice {condition : Prop} [Decidable condition] (int float : Expression) (rest : List Char) :
        (if condition then some (int, rest) else some (float, rest)) =
          some (if condition then int else float, rest) := by
      split <;> rfl
    exact choice _ _ _

theorem afterSign_suffix (text : List Char) : (afterSign text).2 <:+ text := by
  unfold afterSign
  split
  · exact List.suffix_cons _ _
  · exact List.suffix_refl _

theorem afterExponent_suffix (text : List Char) : (afterExponent text).2 <:+ text := by
  unfold afterExponent
  split
  · rename_i found
    exact exponent?_suffix found
  · exact List.suffix_refl _

theorem afterNumberSuffix_suffix (text : List Char) : (afterNumberSuffix text).2 <:+ text := by
  unfold afterNumberSuffix
  split
  · split
    · exact List.suffix_cons _ _
    · exact List.suffix_refl _
  · exact List.suffix_refl _

theorem number?_shortens {value : Expression} (found : number? text = some (value, rest)) : Shortens text rest := by
  rw [number?_eq_map] at found
  obtain ⟨⟨digits, last⟩, read, same⟩ := Option.map_eq_some_iff.mp found
  obtain ⟨-, rfl⟩ := Prod.mk.inj same
  exact ((digits?_shortens read).before (afterSign_suffix text)).after
    ((afterNumberSuffix_suffix _).trans ((afterExponent_suffix _).trans (fractionDigits_suffix last)))

theorem splitAtBrace?_suffix {inside : List Char} (found : splitAtBrace? text = some (inside, rest)) :
    rest <:+ text := by
  fun_induction splitAtBrace? text generalizing inside with
  | case1 => cases found
  | case2 others =>
    obtain ⟨-, rfl⟩ := Prod.mk.inj (Option.some.inj found)
    exact List.suffix_cons _ _
  | case3 character others _ inductionHypothesis =>
    obtain ⟨⟨start, stop⟩, inner, same⟩ := Option.map_eq_some_iff.mp found
    obtain ⟨-, rfl⟩ := Prod.mk.inj same
    exact (inductionHypothesis inner).trans (List.suffix_cons character others)

theorem doubleQuotedParts_suffix {opening pending : List Char} {parts : List TextPart}
    (found : doubleQuotedParts opening pending text = .ok (parts, rest)) : rest <:+ text := by
  fun_induction doubleQuotedParts opening pending text generalizing parts with
  | case1 | case3 | case5 | case6 | case7 => cases found
  | case2 pending others =>
    obtain ⟨-, rfl⟩ := Prod.mk.inj (Except.ok.inj found)
    exact List.suffix_cons _ _
  | case4 pending escaped others inductionHypothesis =>
    exact (Shortens.cons '\\' ((inductionHypothesis found).trans (List.suffix_cons escaped others))).suffix
  | case8 pending others inside after brace parts' rest' tail _ inductionHypothesis =>
    obtain ⟨-, rfl⟩ := Prod.mk.inj (Except.ok.inj found)
    exact (Shortens.cons '$' (((inductionHypothesis tail).trans (splitAtBrace?_suffix brace)).trans
      (List.suffix_cons '{' others))).suffix
  | case9 pending character others _ _ _ _ inductionHypothesis =>
    exact (inductionHypothesis found).trans (List.suffix_cons character others)

theorem singleQuotedText_suffix {opening content : List Char}
    (found : singleQuotedText opening text = .ok (content, rest)) : rest <:+ text := by
  fun_induction singleQuotedText opening text generalizing content with
  | case1 => cases found
  | case2 others =>
    obtain ⟨-, rfl⟩ := Prod.mk.inj (Except.ok.inj found)
    exact List.suffix_cons _ _
  | case3 others inductionHypothesis | case4 others inductionHypothesis =>
    obtain ⟨⟨more, last⟩, read, same⟩ := (Running.map_eq_ok _ _ _).mp found
    obtain ⟨-, rfl⟩ := Prod.mk.inj same
    exact (Shortens.cons _ ((inductionHypothesis read).trans (List.suffix_cons _ others))).suffix
  | case5 character others _ _ _ inductionHypothesis =>
    obtain ⟨⟨more, last⟩, read, same⟩ := (Running.map_eq_ok _ _ _).mp found
    obtain ⟨-, rfl⟩ := Prod.mk.inj same
    exact (inductionHypothesis read).trans (List.suffix_cons character others)

theorem quoted_shortens {value : Expression} (found : quoted text = .ok (some (value, rest))) : Shortens text rest := by
  unfold quoted at found
  split at found
  · obtain ⟨⟨parts, last⟩, read, same⟩ := (Running.map_eq_ok _ _ _).mp found
    obtain ⟨-, rfl⟩ := Prod.mk.inj (Option.some.inj same)
    exact .cons '"' (doubleQuotedParts_suffix read)
  · obtain ⟨⟨parts, last⟩, read, same⟩ := (Running.map_eq_ok _ _ _).mp found
    obtain ⟨-, rfl⟩ := Prod.mk.inj (Option.some.inj same)
    exact .cons '\'' (singleQuotedText_suffix read)
  · cases found

theorem mapKey_shortens {key : String} (found : mapKey text = .ok (some (key, rest))) : Shortens text rest := by
  unfold mapKey at found
  split at found
  · rename_i named
    obtain ⟨-, rfl⟩ := Prod.mk.inj (Option.some.inj (Except.ok.inj found))
    exact name?_shortens named
  · split at found
    · rename_i digits
      obtain ⟨-, rfl⟩ := Prod.mk.inj (Option.some.inj (Except.ok.inj found))
      exact digits?_shortens digits
    · split at found
      · rename_i read
        obtain ⟨-, rfl⟩ := Prod.mk.inj (Option.some.inj (Except.ok.inj found))
        exact quoted_shortens read
      · cases found
      · cases found

/-- The value of an entry stands behind its key and a colon. -/
theorem valueOfKey_shortens {afterKey right : List Char} {key : String}
    (named : mapKey text = .ok (some (key, afterKey))) (colon : skipTrivia afterKey = ':' :: right) :
    Shortens text (skipTrivia right) :=
  (mapKey_shortens named).trans
    ((Shortens.of_cons (colon ▸ skipTrivia_suffix afterKey)).after (skipTrivia_suffix right))

theorem emptyMap?_shortens (found : emptyMap? text = some rest) : Shortens text rest := by
  unfold emptyMap? at found
  split at found
  · rename_i right
    split at found
    · rename_i closed
      obtain rfl := Option.some.inj found
      exact ((Shortens.of_cons (closed ▸ skipTrivia_suffix right)).before (List.suffix_cons ':' right))
    · cases found
  · cases found

theorem loadTarget?_shortens {target : Expression} (found : loadTarget? text = some (target, rest)) :
    Shortens text rest := by
  obtain ⟨inside, last, parenthesis, read, closed⟩ := loadTarget?_eq_some.mp found
  have opened : Shortens text inside := .of_cons (parenthesis ▸ skipSpaces_suffix text)
  exact (opened.after (skipTrivia_suffix inside)).trans
    ((quoted_shortens read).trans (.of_cons (closed ▸ skipTrivia_suffix last)))

theorem afterItem_shortens {next : AfterItem} (found : afterItem text = .ok next) : Shortens text next.rest := by
  unfold afterItem at found
  split at found
  · rename_i closed
    obtain rfl := Except.ok.inj found
    exact .of_cons (closed ▸ skipTrivia_suffix text)
  · rename_i right comma
    have passed : Shortens text right := .of_cons (comma ▸ skipTrivia_suffix text)
    split at found
    · rename_i closed
      obtain rfl := Except.ok.inj found
      exact passed.trans (.of_cons (closed ▸ skipTrivia_suffix right))
    · obtain rfl := Except.ok.inj found
      exact passed.after (skipTrivia_suffix right)
  · cases found

end Lexemes

section Readers

variable {feeds : Nat}

mutual

theorem declarations_suffix (fuel : Nat) {text after : List Char} {list : List Declaration}
    (read : declarations feeds fuel text = .ok (list, after)) : after <:+ text := by
  cases fuel with
  | zero => cases read
  | succ fuel =>
    cases declarations_eq_ok.mp read with
    | none => exact skipTrivia_suffix text
    | more head tail =>
      exact (declarations_suffix fuel tail).trans
        ((declaration_shortens fuel head).suffix.trans (skipTrivia_suffix text))
termination_by fuel

theorem declaration_shortens (fuel : Nat) {text after : List Char} {found : Declaration}
    (read : declaration feeds fuel text = .ok (some (found, after))) : Shortens text after := by
  cases fuel with
  | zero => cases read
  | succ fuel =>
    obtain ⟨name, rest, value, named, inner, -⟩ := declaration_eq_some.mp read
    exact ((dottedName?_shortens named).after (skipSpaces_suffix rest)).trans (body_shortens fuel inner)
termination_by fuel

theorem body_shortens (fuel : Nat) {text after : List Char} {value : Body}
    (read : body feeds fuel text = .ok (value, after)) : Shortens text after := by
  cases fuel with
  | zero => cases read
  | succ fuel =>
    cases body_eq_ok.mp read with
    | block inner => exact (block_shortens fuel inner).before (List.suffix_cons _ _)
    | assignment inner =>
      exact (expression_shortens fuel inner).before ((skipTrivia_suffix _).trans (List.suffix_cons _ _))
    | arguments _ _ head tail => exact (expression_shortens fuel head).after (moreArguments_suffix fuel tail)
termination_by fuel

theorem block_shortens (fuel : Nat) {text after : List Char} {list : List Declaration}
    (read : block feeds fuel text = .ok (list, after)) : Shortens text after := by
  cases fuel with
  | zero => cases read
  | succ fuel => exact .of_cons (declarations_suffix fuel (block_eq_ok.mp read))
termination_by fuel

theorem moreArguments_suffix (fuel : Nat) {text after : List Char} {list : List Expression}
    (read : moreArguments feeds fuel text = .ok (list, after)) : after <:+ text := by
  cases fuel with
  | zero => cases read
  | succ fuel =>
    cases moreArguments_eq_ok.mp read with
    | none => exact List.suffix_refl text
    | more comma head tail =>
      have passed := Shortens.of_cons (comma ▸ skipSpaces_suffix text)
      exact (moreArguments_suffix fuel tail).trans
        ((expression_shortens fuel head).suffix.trans ((skipTrivia_suffix _).trans passed.suffix))
termination_by fuel

theorem expression_shortens (fuel : Nat) {text after : List Char} {value : Expression}
    (read : expression feeds fuel text = .ok (some (value, after))) : Shortens text after := by
  cases fuel with
  | zero => cases read
  | succ fuel =>
    cases expression_eq_some.mp read with
    | emptyList closed => exact (Shortens.of_cons (closed ▸ skipTrivia_suffix _)).before (List.suffix_cons _ _)
    | emptyMap empty =>
      exact (emptyMap?_shortens empty).before ((skipTrivia_suffix _).trans (List.suffix_cons _ _))
    | map _ inner =>
      exact (mapEntries_shortens fuel inner).before ((skipTrivia_suffix _).trans (List.suffix_cons _ _))
    | list _ _ _ inner =>
      exact (listItems_shortens fuel inner).before ((skipTrivia_suffix _).trans (List.suffix_cons _ _))
    | nested inner closed =>
      exact ((expression_shortens fuel inner).trans (.of_cons (closed ▸ skipTrivia_suffix _))).before
        ((skipTrivia_suffix _).trans (List.suffix_cons _ _))
    | quoted found => exact quoted_shortens found
    | number _ found => exact number?_shortens found
    | word _ _ found => exact word_shortens fuel found
termination_by fuel

theorem word_shortens (fuel : Nat) {text after : List Char} {value : Expression}
    (read : word feeds fuel text = .ok (some (value, after))) : Shortens text after := by
  cases fuel with
  | zero => cases read
  | succ fuel =>
    cases word_eq_some.mp read with
    | keyword named => exact dottedName?_shortens named
    | load named target => exact (dottedName?_shortens named).trans (loadTarget?_shortens target)
    | block named _ _ brace inner =>
      exact (dottedName?_shortens named).trans
        ((block_shortens fuel inner).before (Shortens.of_cons (brace ▸ skipSpaces_suffix _)).suffix)
    | reference named => exact dottedName?_shortens named
termination_by fuel

theorem listItems_shortens (fuel : Nat) {text after : List Char} {list : List Expression}
    (read : listItems feeds fuel text = .ok (list, after)) : Shortens text after := by
  cases fuel with
  | zero => cases read
  | succ fuel =>
    cases listItems_eq_ok.mp read with
    | last head closed => exact (expression_shortens fuel head).trans (afterItem_shortens closed)
    | more head comma tail =>
      exact ((expression_shortens fuel head).trans (afterItem_shortens comma)).trans (listItems_shortens fuel tail)
termination_by fuel

theorem mapEntries_shortens (fuel : Nat) {text after : List Char} {list : List (String × Expression)}
    (read : mapEntries feeds fuel text = .ok (list, after)) : Shortens text after := by
  cases fuel with
  | zero => cases read
  | succ fuel =>
    cases mapEntries_eq_ok.mp read with
    | last named colon head closed =>
      exact (valueOfKey_shortens named colon).trans ((expression_shortens fuel head).trans (afterItem_shortens closed))
    | more named colon head comma tail =>
      have entry := (expression_shortens fuel head).trans (afterItem_shortens comma)
      exact ((valueOfKey_shortens named colon).trans entry).trans (mapEntries_shortens fuel tail)
termination_by fuel

end

end Readers

end DeployRecipe.Recipe
