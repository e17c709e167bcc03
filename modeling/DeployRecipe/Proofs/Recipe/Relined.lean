import DeployRecipe.Proofs.Recipe.Calls
import DeployRecipe.Proofs.Recipe.Lookahead
import DeployRecipe.Proofs.Recipe.RoundTrip

/-!
A text that goes on with a line feed and trivia is read as before, with lines that grow by what stands before the text.
Only a look ahead past the name of a load expression could see what goes on; it does so where a parenthesis follows,
and then the text is not read as declarations.
-/

namespace DeployRecipe.Recipe

mutual

/-- The expression with other lines. -/
def relinedExpression (change : Nat → Nat) : Expression → Expression
  | .list items => .list (relinedValues change items)
  | .map entries => .map (relinedEntries change entries)
  | .block name line body => .block name (change line) (relined change body)
  | other => other

def relinedValues (change : Nat → Nat) : List Expression → List Expression
  | [] => []
  | first :: rest => relinedExpression change first :: relinedValues change rest

def relinedEntries (change : Nat → Nat) : List (String × Expression) → List (String × Expression)
  | [] => []
  | (key, value) :: rest => (key, relinedExpression change value) :: relinedEntries change rest

/-- The declarations with other lines. -/
def relined (change : Nat → Nat) : List Declaration → List Declaration
  | [] => []
  | first :: rest => relinedDeclaration change first :: relined change rest

def relinedDeclaration (change : Nat → Nat) : Declaration → Declaration
  | .mk name line body => .mk name (change line) (relinedBody change body)

def relinedBody (change : Nat → Nat) : Body → Body
  | .block declarations => .block (relined change declarations)
  | .arguments values => .arguments (relinedValues change values)
  | .assignment value => .assignment (relinedExpression change value)

end

section Lines

theorem lineFeeds_append (text rest : List Char) : lineFeeds (text ++ rest) = lineFeeds text + lineFeeds rest :=
  List.count_append

theorem lineFeeds_le_of_suffix {text rest : List Char} (suffix : rest <:+ text) : lineFeeds rest ≤ lineFeeds text :=
  suffix.sublist.count_le _

/-- The line of a place does not depend on what goes on behind the text, and grows by what stands before it. -/
theorem lineOf_append {feeds : Nat} {text : List Char} (within : lineFeeds text ≤ feeds) (lines : Nat)
    (tail : List Char) : lineOf (lines + feeds + lineFeeds tail) (text ++ tail) = lines + lineOf feeds text := by
  rw [lineOf, lineOf, lineFeeds_append]
  omega

theorem lineFeeds_of_makes (feeds fuel : Nat) {outer inner : Call} (makes : outer.Makes feeds fuel inner) {limit : Nat}
    (within : lineFeeds outer.text ≤ limit) : lineFeeds inner.text ≤ limit :=
  (lineFeeds_le_of_suffix makes.descends.suffix).trans within

end Lines

section Leaves

/-- A value that holds no other one. -/
inductive IsLeaf : Expression → Prop
  | null : IsLeaf .null
  | bool (value : Bool) : IsLeaf (.bool value)
  | int (value : Int) : IsLeaf (.int value)
  | float (value : Double) : IsLeaf (.float value)
  | text (value : String) : IsLeaf (.text value)
  | interpolated (parts : List TextPart) : IsLeaf (.interpolated parts)

variable {text rest : List Char} {value : Expression}

theorem isLeaf_of_quoted (read : quoted text = .ok (some (value, rest))) : IsLeaf value := by
  unfold quoted at read
  split at read
  · obtain ⟨⟨parts, last⟩, -, same⟩ := (Running.map_eq_ok _ _ _).mp read
    obtain ⟨rfl, -⟩ := Prod.mk.inj (Option.some.inj same)
    unfold Expression.ofParts
    split
    · exact .text _
    · exact .text _
    · exact .interpolated _
  · obtain ⟨⟨content, last⟩, -, same⟩ := (Running.map_eq_ok _ _ _).mp read
    obtain ⟨rfl, -⟩ := Prod.mk.inj (Option.some.inj same)
    exact .text _
  · cases read

theorem isLeaf_of_number? (found : number? text = some (value, rest)) : IsLeaf value := by
  rw [number?_eq_map] at found
  obtain ⟨whole, -, same⟩ := Option.map_eq_some_iff.mp found
  obtain ⟨rfl, -⟩ := Prod.mk.inj same
  unfold numberOf
  extract_lets size int
  split
  · exact .int _
  · exact .float _

theorem isLeaf_of_keyword {name : String} (known : (name, value) ∈ keywords) : IsLeaf value := by
  rcases mem_keywords.mp known with ⟨-, rfl⟩ | ⟨-, rfl⟩ | ⟨-, rfl⟩
  · exact .bool true
  · exact .bool false
  · exact .null

theorem relinedExpression_of_isLeaf (change : Nat → Nat) (leaf : IsLeaf value) :
    relinedExpression change value = value := by
  cases leaf <;> rfl

end Leaves

section Parentheses

variable {feeds fuel : Nat} {text after : List Char}

/-- No opening parenthesis stands at the start of the text, trivia aside. -/
def NoParenthesis (text : List Char) : Prop :=
  ∀ inside, skipTrivia text ≠ '(' :: inside

theorem NoParenthesis.of_start {character : Char} {rest : List Char} (start : skipTrivia text = character :: rest)
    (differs : character ≠ '(') : NoParenthesis text := by
  intro inside same
  rw [start] at same
  exact differs (List.cons.inj same).1

theorem NoParenthesis.skipSpaces_ne (plain : NoParenthesis text) (inside : List Char) :
    skipSpaces text ≠ '(' :: inside :=
  fun start => plain inside (skipTrivia_of_skipSpaces start rfl)

theorem noParenthesis_of_afterItem {next : AfterItem} (read : afterItem text = .ok next) : NoParenthesis text := by
  unfold afterItem at read
  split at read
  · rename_i closed
    exact .of_start closed (by decide)
  · rename_i comma
    exact .of_start comma (by decide)
  · cases read

theorem noParenthesis_of_dottedName? {name : List Char} (named : dottedName? (skipTrivia text) = some (name, after)) :
    NoParenthesis text := by
  intro inside start
  rw [start] at named
  cases named

theorem noParenthesis_of_declarations {list : List Declaration} (ends : EndsBlock after)
    (read : declarations feeds fuel text = .ok (list, after)) : NoParenthesis text := by
  cases fuel with
  | zero => cases read
  | succ fuel =>
    cases declarations_eq_ok.mp read with
    | none =>
      intro inside start
      rw [start] at ends
      cases ends
    | more head =>
      cases fuel with
      | zero => cases head
      | succ fuel =>
        obtain ⟨name, rest, value, named, -⟩ := declaration_eq_some.mp head
        exact noParenthesis_of_dottedName? named

theorem noParenthesis_of_moreArguments {list : List Expression} (plain : NoParenthesis after)
    (read : moreArguments feeds fuel text = .ok (list, after)) : NoParenthesis text := by
  cases fuel with
  | zero => cases read
  | succ fuel =>
    cases moreArguments_eq_ok.mp read with
    | none => exact plain
    | more comma => exact .of_start (skipTrivia_of_skipSpaces comma rfl) (by decide)

end Parentheses

section Readers

variable (lines feeds : Nat) {more : List Char}

mutual

theorem declarations_longer (trailing : IsSilent more) (fuel : Nat) {text after : List Char} {list : List Declaration}
    (within : lineFeeds text ≤ feeds) (ends : EndsBlock after)
    (read : declarations feeds fuel text = .ok (list, after)) :
    declarations (lines + feeds + lineFeeds ('\n' :: more)) fuel (text ++ '\n' :: more) =
      .ok (relined (lines + ·) list, skipTrivia (after ++ '\n' :: more)) := by
  cases fuel with
  | zero => cases read
  | succ fuel =>
    apply declarations_eq_ok.mpr
    cases declarations_eq_ok.mp read with
    | none done =>
      rw [← skipTrivia_append]
      refine .none ?_
      cases fuel with
      | zero => cases done
      | succ fuel =>
        refine declaration_eq_none.mpr ?_
        generalize behind : skipTrivia text = start at ends
        cases ends with
        | text =>
          rw [IsSilent.append behind trailing]
          rfl
        | brace rest =>
          rw [skipTrivia_append_of_solid behind rfl]
          rfl
    | more head tail =>
      have start := lineFeeds_of_makes feeds fuel (.firstDeclaration text) within
      have next := lineFeeds_of_makes feeds fuel (.otherDeclarations head) within
      refine .more ?_ (declarations_longer trailing fuel next ends tail)
      have starts : StartsValue (skipTrivia text) := by
        cases fuel with
        | zero => cases head
        | succ fuel =>
          obtain ⟨_, _, _, named, -⟩ := declaration_eq_some.mp head
          exact .of_dottedName? named
      rw [starts.skipTrivia_append]
      exact declaration_longer trailing fuel start (noParenthesis_of_declarations ends tail) head
termination_by fuel

theorem declaration_longer (trailing : IsSilent more) (fuel : Nat) {text after : List Char} {found : Declaration}
    (within : lineFeeds text ≤ feeds) (plain : NoParenthesis after)
    (read : declaration feeds fuel text = .ok (some (found, after))) :
    declaration (lines + feeds + lineFeeds ('\n' :: more)) fuel (text ++ '\n' :: more) =
      .ok (some (relinedDeclaration (lines + ·) found, after ++ '\n' :: more)) := by
  cases fuel with
  | zero => cases read
  | succ fuel =>
    obtain ⟨name, rest, value, named, inner, rfl⟩ := declaration_eq_some.mp read
    have start := lineFeeds_of_makes feeds fuel (.bodyOfName named) within
    apply declaration_eq_some.mpr
    refine ⟨name, rest ++ '\n' :: more, relinedBody (lines + ·) value, ?_, ?_, ?_⟩
    · rw [dottedName?_lineFeed, named]
      rfl
    · rw [skipSpaces_append]
      exact body_longer trailing fuel start plain inner
    · rw [lineOf_append within]
      rfl
termination_by fuel

theorem body_longer (trailing : IsSilent more) (fuel : Nat) {text after : List Char} {value : Body}
    (within : lineFeeds text ≤ feeds) (plain : NoParenthesis after)
    (read : body feeds fuel text = .ok (value, after)) :
    body (lines + feeds + lineFeeds ('\n' :: more)) fuel (text ++ '\n' :: more) =
      .ok (relinedBody (lines + ·) value, after ++ '\n' :: more) := by
  cases fuel with
  | zero => cases read
  | succ fuel =>
    apply body_eq_ok.mpr
    cases body_eq_ok.mp read with
    | block inner =>
      have start := lineFeeds_of_makes feeds fuel (.blockOfBody _) within
      exact .block (block_longer trailing fuel start inner)
    | assignment inner =>
      have start := lineFeeds_of_makes feeds fuel (.assigned _) within
      have longer := expression_longer trailing fuel start plain inner
      rw [← (StartsValue.of_expression inner).skipTrivia_append] at longer
      exact .assignment longer
    | arguments noBlock noAssignment head tail =>
      have start := lineFeeds_of_makes feeds fuel (.firstArgument noBlock noAssignment) within
      have next := lineFeeds_of_makes feeds fuel (.otherArguments noBlock noAssignment head) within
      have starts := (StartsValue.of_expression head).append ('\n' :: more)
      exact .arguments (starts.ne rfl (by decide)) (starts.ne rfl (by decide))
        (expression_longer trailing fuel start (noParenthesis_of_moreArguments plain tail) head)
        (moreArguments_longer trailing fuel next plain tail)
termination_by fuel

theorem block_longer (trailing : IsSilent more) (fuel : Nat) {text after : List Char} {list : List Declaration}
    (within : lineFeeds text ≤ feeds) (read : block feeds fuel text = .ok (list, after)) :
    block (lines + feeds + lineFeeds ('\n' :: more)) fuel (text ++ '\n' :: more) =
      .ok (relined (lines + ·) list, after ++ '\n' :: more) := by
  cases fuel with
  | zero => cases read
  | succ fuel =>
    have longer := declarations_longer trailing fuel within (.brace after) (block_eq_ok.mp read)
    rw [List.cons_append, skipTrivia_of_solid '}' rfl] at longer
    exact block_eq_ok.mpr longer
termination_by fuel

theorem moreArguments_longer (trailing : IsSilent more) (fuel : Nat) {text after : List Char} {list : List Expression}
    (within : lineFeeds text ≤ feeds) (plain : NoParenthesis after)
    (read : moreArguments feeds fuel text = .ok (list, after)) :
    moreArguments (lines + feeds + lineFeeds ('\n' :: more)) fuel (text ++ '\n' :: more) =
      .ok (relinedValues (lines + ·) list, after ++ '\n' :: more) := by
  cases fuel with
  | zero => cases read
  | succ fuel =>
    apply moreArguments_eq_ok.mpr
    cases moreArguments_eq_ok.mp read with
    | none ends =>
      refine .none ?_
      rw [skipSpaces_append]
      cases start : skipSpaces text with
      | nil => simp
      | cons first others =>
        rintro rest ⟨⟩
        exact ends others start
    | more comma head tail =>
      have start := lineFeeds_of_makes feeds fuel (.nextArgument comma) within
      have next := lineFeeds_of_makes feeds fuel (.furtherArguments comma head) within
      have longer := expression_longer trailing fuel start (noParenthesis_of_moreArguments plain tail) head
      rw [← (StartsValue.of_expression head).skipTrivia_append] at longer
      refine .more ?_ longer (moreArguments_longer trailing fuel next plain tail)
      rw [skipSpaces_append, comma, List.cons_append]
termination_by fuel

theorem expression_longer (trailing : IsSilent more) (fuel : Nat) {text after : List Char} {value : Expression}
    (within : lineFeeds text ≤ feeds) (plain : NoParenthesis after)
    (read : expression feeds fuel text = .ok (some (value, after))) :
    expression (lines + feeds + lineFeeds ('\n' :: more)) fuel (text ++ '\n' :: more) =
      .ok (some (relinedExpression (lines + ·) value, after ++ '\n' :: more)) := by
  cases fuel with
  | zero => cases read
  | succ fuel =>
    apply expression_eq_some.mpr
    cases expression_eq_some.mp read with
    | emptyList closed => exact .emptyList (skipTrivia_append_of_solid closed rfl more)
    | emptyMap empty => exact .emptyMap (emptyMap?_append empty more)
    | map entry inner =>
      have start := lineFeeds_of_makes feeds fuel (.entriesOfMap entry) within
      have same := (StartsValue.of_mapEntries inner).skipTrivia_append more
      have longer := mapEntries_longer trailing fuel start inner
      have longerEntry := startsMapEntry_append entry more
      rw [← same] at longer longerEntry
      exact .map longerEntry longer
    | list filled noMap noEntry inner =>
      have start := lineFeeds_of_makes feeds fuel (.itemsOfList filled noMap noEntry) within
      have starts := StartsValue.of_listItems inner
      have same := starts.skipTrivia_append more
      have longer := listItems_longer trailing fuel start inner
      have others := starts.append ('\n' :: more)
      have noLongerEntry := startsMapEntry_append_of_list noEntry inner trailing
      rw [← same] at longer others noLongerEntry
      exact .list (others.ne rfl (by decide)) (emptyMap?_of_startsValue others) noLongerEntry longer
    | nested inner closed =>
      have start := lineFeeds_of_makes feeds fuel (.inParentheses _) within
      have longer := expression_longer trailing fuel start (.of_start closed (by decide)) inner
      rw [← (StartsValue.of_expression inner).skipTrivia_append] at longer
      exact .nested longer (skipTrivia_append_of_solid closed rfl more)
    | quoted found =>
      rw [relinedExpression_of_isLeaf _ (isLeaf_of_quoted found)]
      exact .quoted (quoted_append found _)
    | number noText found =>
      rw [relinedExpression_of_isLeaf _ (isLeaf_of_number? found)]
      refine .number (quoted_append_none noText more) ?_
      rw [number?_lineFeed, found]
      rfl
    | word noText noNumber found =>
      refine .word (quoted_append_none noText more) ?_ (word_longer trailing fuel within plain found)
      rw [number?_lineFeed, noNumber]
      rfl
termination_by fuel

theorem word_longer (trailing : IsSilent more) (fuel : Nat) {text after : List Char} {value : Expression}
    (within : lineFeeds text ≤ feeds) (plain : NoParenthesis after)
    (read : word feeds fuel text = .ok (some (value, after))) :
    word (lines + feeds + lineFeeds ('\n' :: more)) fuel (text ++ '\n' :: more) =
      .ok (some (relinedExpression (lines + ·) value, after ++ '\n' :: more)) := by
  cases fuel with
  | zero => cases read
  | succ fuel =>
    apply word_eq_some.mpr
    have name {characters rest : List Char} (named : dottedName? text = some (characters, rest)) :
        dottedName? (text ++ '\n' :: more) = some (characters, rest ++ '\n' :: more) := by
      rw [dottedName?_lineFeed, named]
      rfl
    cases word_eq_some.mp read with
    | keyword named known =>
      rw [relinedExpression_of_isLeaf _ (isLeaf_of_keyword known)]
      exact .keyword (name named) known
    | load named target => exact .load (name named) (loadTarget?_append target more)
    | block named unknown noLoad brace inner =>
      have start := lineFeeds_of_makes feeds fuel (.blockOfWord named unknown noLoad brace) within
      rw [relinedExpression, ← lineOf_append within]
      refine .block (name named) unknown ?_ ?_ (block_longer trailing fuel start inner)
      · refine startsLoad_append _ ?_ more
        intro parenthesis
        rw [brace]
        simp
      · rw [skipSpaces_append, brace, List.cons_append]
    | reference named unknown noLoad noBlock =>
      refine .reference (name named) unknown (startsLoad_append _ plain.skipSpaces_ne more) ?_
      rw [skipSpaces_append]
      cases start : skipSpaces after with
      | nil => simp
      | cons first others =>
        rintro rest ⟨⟩
        exact noBlock others start
termination_by fuel

theorem listItems_longer (trailing : IsSilent more) (fuel : Nat) {text after : List Char} {list : List Expression}
    (within : lineFeeds text ≤ feeds) (read : listItems feeds fuel text = .ok (list, after)) :
    listItems (lines + feeds + lineFeeds ('\n' :: more)) fuel (text ++ '\n' :: more) =
      .ok (relinedValues (lines + ·) list, after ++ '\n' :: more) := by
  cases fuel with
  | zero => cases read
  | succ fuel =>
    have start := lineFeeds_of_makes feeds fuel (.firstItem text) within
    apply listItems_eq_ok.mpr
    cases listItems_eq_ok.mp read with
    | last head closed =>
      exact .last (expression_longer trailing fuel start (noParenthesis_of_afterItem closed) head)
        (afterItem_append_closed closed more)
    | more head comma tail =>
      have next := lineFeeds_of_makes feeds fuel (.otherItems head comma) within
      exact .more (expression_longer trailing fuel start (noParenthesis_of_afterItem comma) head)
        (afterItem_append_item comma (StartsValue.of_listItems tail) more) (listItems_longer trailing fuel next tail)
termination_by fuel

theorem mapEntries_longer (trailing : IsSilent more) (fuel : Nat) {text after : List Char}
    {list : List (String × Expression)} (within : lineFeeds text ≤ feeds)
    (read : mapEntries feeds fuel text = .ok (list, after)) :
    mapEntries (lines + feeds + lineFeeds ('\n' :: more)) fuel (text ++ '\n' :: more) =
      .ok (relinedEntries (lines + ·) list, after ++ '\n' :: more) := by
  cases fuel with
  | zero => cases read
  | succ fuel =>
    apply mapEntries_eq_ok.mpr
    cases mapEntries_eq_ok.mp read with
    | last named colon head closed =>
      have start := lineFeeds_of_makes feeds fuel (.valueOfKey named colon) within
      have longer := expression_longer trailing fuel start (noParenthesis_of_afterItem closed) head
      rw [← (StartsValue.of_expression head).skipTrivia_append] at longer
      exact .last (mapKey_append named more) (skipTrivia_append_of_solid colon rfl more) longer
        (afterItem_append_closed closed more)
    | more named colon head comma tail =>
      have start := lineFeeds_of_makes feeds fuel (.valueOfKey named colon) within
      have next := lineFeeds_of_makes feeds fuel (.otherEntries named colon head comma) within
      have longer := expression_longer trailing fuel start (noParenthesis_of_afterItem comma) head
      rw [← (StartsValue.of_expression head).skipTrivia_append] at longer
      exact .more (mapKey_append named more) (skipTrivia_append_of_solid colon rfl more) longer
        (afterItem_append_item comma (StartsValue.of_mapEntries tail) more) (mapEntries_longer trailing fuel next tail)
termination_by fuel

end

end Readers

end DeployRecipe.Recipe
