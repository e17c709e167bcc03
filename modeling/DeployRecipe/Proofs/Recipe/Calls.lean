import DeployRecipe.Proofs.Recipe.Rests

/-!
The calls that readers make of each other. A call reaches its bound if and only if a call that it makes does, and along
calls the text gets shorter: between two calls of the same reader something has been read. So a bound in proportion to
the length of a text is never reached.
-/

namespace DeployRecipe.Recipe

/-- The readers that call each other. -/
inductive Production where
  | declarations
  | declaration
  | body
  | block
  | moreArguments
  | expression
  | word
  | listItems
  | mapEntries
deriving DecidableEq, Repr

/-- The place of a reader among those that call each other before anything is read. -/
def Production.rank : Production → Nat
  | .declaration | .moreArguments | .word | .mapEntries => 1
  | .declarations | .expression => 2
  | .body | .block | .listItems => 3

/-- A reader and the text that it is given. -/
structure Call where
  production : Production
  text : List Char
deriving DecidableEq, Repr

namespace Call

/-- The call makes more nested calls than its bound allows. -/
def RunsOut (feeds fuel : Nat) : Call → Prop
  | ⟨.declarations, text⟩ => Recipe.declarations feeds fuel text = .error .outOfFuel
  | ⟨.declaration, text⟩ => Recipe.declaration feeds fuel text = .error .outOfFuel
  | ⟨.body, text⟩ => Recipe.body feeds fuel text = .error .outOfFuel
  | ⟨.block, text⟩ => Recipe.block feeds fuel text = .error .outOfFuel
  | ⟨.moreArguments, text⟩ => Recipe.moreArguments feeds fuel text = .error .outOfFuel
  | ⟨.expression, text⟩ => Recipe.expression feeds fuel text = .error .outOfFuel
  | ⟨.word, text⟩ => Recipe.word feeds fuel text = .error .outOfFuel
  | ⟨.listItems, text⟩ => Recipe.listItems feeds fuel text = .error .outOfFuel
  | ⟨.mapEntries, text⟩ => Recipe.mapEntries feeds fuel text = .error .outOfFuel

/-- The calls that a call makes, each with the given bound: a call is made where the calls before it have read
something and the text goes on as that call needs it. -/
inductive Makes (feeds fuel : Nat) : Call → Call → Prop
  | firstDeclaration (text : List Char) : Makes feeds fuel ⟨.declarations, text⟩ ⟨.declaration, skipTrivia text⟩
  | otherDeclarations {text rest : List Char} {first : Declaration}
    (head : Recipe.declaration feeds fuel (skipTrivia text) = .ok (some (first, rest))) :
    Makes feeds fuel ⟨.declarations, text⟩ ⟨.declarations, rest⟩
  | bodyOfName {text name rest : List Char} (named : dottedName? text = some (name, rest)) :
    Makes feeds fuel ⟨.declaration, text⟩ ⟨.body, skipSpaces rest⟩
  | blockOfBody (inside : List Char) : Makes feeds fuel ⟨.body, '{' :: inside⟩ ⟨.block, inside⟩
  | assigned (right : List Char) : Makes feeds fuel ⟨.body, '=' :: right⟩ ⟨.expression, skipTrivia right⟩
  | firstArgument {text : List Char} (noBlock : ∀ inside, text ≠ '{' :: inside)
    (noAssignment : ∀ right, text ≠ '=' :: right) : Makes feeds fuel ⟨.body, text⟩ ⟨.expression, text⟩
  | otherArguments {text rest : List Char} {first : Expression} (noBlock : ∀ inside, text ≠ '{' :: inside)
    (noAssignment : ∀ right, text ≠ '=' :: right)
    (head : Recipe.expression feeds fuel text = .ok (some (first, rest))) :
    Makes feeds fuel ⟨.body, text⟩ ⟨.moreArguments, rest⟩
  | inBlock (text : List Char) : Makes feeds fuel ⟨.block, text⟩ ⟨.declarations, text⟩
  | nextArgument {text rest : List Char} (comma : skipSpaces text = ',' :: rest) :
    Makes feeds fuel ⟨.moreArguments, text⟩ ⟨.expression, skipTrivia rest⟩
  | furtherArguments {text rest next : List Char} {value : Expression} (comma : skipSpaces text = ',' :: rest)
    (head : Recipe.expression feeds fuel (skipTrivia rest) = .ok (some (value, next))) :
    Makes feeds fuel ⟨.moreArguments, text⟩ ⟨.moreArguments, next⟩
  | entriesOfMap {inside : List Char} (entry : startsMapEntry (skipTrivia inside) = true) :
    Makes feeds fuel ⟨.expression, '[' :: inside⟩ ⟨.mapEntries, skipTrivia inside⟩
  | itemsOfList {inside : List Char} (filled : ∀ rest, skipTrivia inside ≠ ']' :: rest)
    (noMap : emptyMap? (skipTrivia inside) = none) (noEntry : startsMapEntry (skipTrivia inside) = false) :
    Makes feeds fuel ⟨.expression, '[' :: inside⟩ ⟨.listItems, skipTrivia inside⟩
  | inParentheses (inside : List Char) :
    Makes feeds fuel ⟨.expression, '(' :: inside⟩ ⟨.expression, skipTrivia inside⟩
  | wordOfExpression {text : List Char} (noList : ∀ inside, text ≠ '[' :: inside)
    (noNested : ∀ inside, text ≠ '(' :: inside) (noText : quoted text = .ok none) (noNumber : number? text = none) :
    Makes feeds fuel ⟨.expression, text⟩ ⟨.word, text⟩
  | blockOfWord {text name rest inside : List Char} (named : dottedName? text = some (name, rest))
    (unknown : String.ofList name ∉ keywords.map Prod.fst) (noLoad : startsLoad (String.ofList name) rest = false)
    (brace : skipSpaces rest = '{' :: inside) : Makes feeds fuel ⟨.word, text⟩ ⟨.block, inside⟩
  | firstItem (text : List Char) : Makes feeds fuel ⟨.listItems, text⟩ ⟨.expression, text⟩
  | otherItems {text rest next : List Char} {item : Expression}
    (head : Recipe.expression feeds fuel text = .ok (some (item, rest))) (comma : afterItem rest = .ok (.item next)) :
    Makes feeds fuel ⟨.listItems, text⟩ ⟨.listItems, next⟩
  | valueOfKey {text afterKey right : List Char} {key : String} (named : mapKey text = .ok (some (key, afterKey)))
    (colon : skipTrivia afterKey = ':' :: right) :
    Makes feeds fuel ⟨.mapEntries, text⟩ ⟨.expression, skipTrivia right⟩
  | otherEntries {text afterKey right rest next : List Char} {key : String} {value : Expression}
    (named : mapKey text = .ok (some (key, afterKey))) (colon : skipTrivia afterKey = ':' :: right)
    (head : Recipe.expression feeds fuel (skipTrivia right) = .ok (some (value, rest)))
    (comma : afterItem rest = .ok (.item next)) : Makes feeds fuel ⟨.mapEntries, text⟩ ⟨.mapEntries, next⟩

section Descent

/-- A measure that gets less from a call to a call that it makes. -/
def weight (call : Call) : Nat :=
  4 * call.text.length + call.production.rank

variable {feeds fuel : Nat} {outer inner : Call}

theorem weight_le (call : Call) : call.weight ≤ 4 * call.text.length + 3 := by
  have high : call.production.rank ≤ 3 := by cases call.production <;> decide
  unfold weight
  omega

/-- A call goes on with a shorter text, or with the same text and a reader of a lower rank. -/
def Descends (outer inner : Call) : Prop :=
  Shortens outer.text inner.text ∨ inner.text <:+ outer.text ∧ inner.production.rank < outer.production.rank

theorem Descends.of_rank {one other : Production} {text rest : List Char} (suffix : rest <:+ text)
    (lower : other.rank < one.rank) : Descends ⟨one, text⟩ ⟨other, rest⟩ :=
  .inr ⟨suffix, lower⟩

theorem Descends.suffix (descends : outer.Descends inner) : inner.text <:+ outer.text :=
  descends.elim Shortens.suffix And.left

theorem Descends.weight_lt (descends : outer.Descends inner) : inner.weight < outer.weight := by
  unfold weight
  rcases descends with shortens | ⟨suffix, lower⟩
  · have shorter := shortens.shorter
    have low : 1 ≤ outer.production.rank := by cases outer.production <;> decide
    have high := inner.weight_le
    unfold weight at high
    omega
  · have length := suffix.length_le
    omega

theorem Makes.descends (makes : outer.Makes feeds fuel inner) : outer.Descends inner := by
  cases makes with
  | firstDeclaration text => exact .of_rank (skipTrivia_suffix text) (by decide)
  | otherDeclarations head => exact .inl ((declaration_shortens fuel head).before (skipTrivia_suffix _))
  | bodyOfName named => exact .inl ((dottedName?_shortens named).after (skipSpaces_suffix _))
  | blockOfBody inside => exact .inl (.cons _ (List.suffix_refl inside))
  | assigned right => exact .inl (.cons _ (skipTrivia_suffix right))
  | firstArgument => exact .of_rank (List.suffix_refl _) (by decide)
  | otherArguments _ _ head => exact .inl (expression_shortens fuel head)
  | inBlock text => exact .of_rank (List.suffix_refl text) (by decide)
  | nextArgument comma =>
    exact .inl ((Shortens.of_cons (comma ▸ skipSpaces_suffix _)).after (skipTrivia_suffix _))
  | furtherArguments comma head =>
    exact .inl (((Shortens.of_cons (comma ▸ skipSpaces_suffix _)).after (skipTrivia_suffix _)).trans
      (expression_shortens fuel head))
  | entriesOfMap => exact .inl (.cons _ (skipTrivia_suffix _))
  | itemsOfList => exact .inl (.cons _ (skipTrivia_suffix _))
  | inParentheses inside => exact .inl (.cons _ (skipTrivia_suffix inside))
  | wordOfExpression => exact .of_rank (List.suffix_refl _) (by decide)
  | blockOfWord named _ _ brace =>
    exact .inl ((dottedName?_shortens named).trans (.of_cons (brace ▸ skipSpaces_suffix _)))
  | firstItem text => exact .of_rank (List.suffix_refl text) (by decide)
  | otherItems head comma => exact .inl ((expression_shortens fuel head).trans (afterItem_shortens comma))
  | valueOfKey named colon => exact .inl (valueOfKey_shortens named colon)
  | otherEntries named colon head comma =>
    exact .inl ((valueOfKey_shortens named colon).trans
      ((expression_shortens fuel head).trans (afterItem_shortens comma)))

/-- A call leads to another one through calls that it makes, whatever their bounds. -/
def Leads (feeds : Nat) : Call → Call → Prop :=
  Relation.TransGen fun outer inner => ∃ fuel, outer.Makes feeds fuel inner

theorem Leads.descends (leads : outer.Leads feeds inner) :
    inner.text <:+ outer.text ∧ inner.weight < outer.weight := by
  induction leads with
  | single makes =>
    obtain ⟨fuel, makes⟩ := makes
    exact ⟨makes.descends.suffix, makes.descends.weight_lt⟩
  | tail _ makes inductionHypothesis =>
    obtain ⟨fuel, makes⟩ := makes
    exact ⟨makes.descends.suffix.trans inductionHypothesis.1, makes.descends.weight_lt.trans inductionHypothesis.2⟩

/-- A reader that is called again while it reads is given a shorter text. -/
theorem Leads.shortens (leads : outer.Leads feeds inner) (again : inner.production = outer.production) :
    Shortens outer.text inner.text := by
  obtain ⟨suffix, less⟩ := leads.descends
  refine ⟨suffix, ?_⟩
  unfold weight at less
  rw [again] at less
  omega

end Descent

section Exhaustion

variable {feeds fuel : Nat} {text : List Char}

theorem attempt_outOfFuel {α β : Type} {first : Except Halt α} {next : α → Except Halt β} :
    (first >>= next) = .error .outOfFuel ↔
      first = .error .outOfFuel ∨ ∃ value, first = .ok value ∧ next value = .error .outOfFuel := by
  cases first with
  | error halt => simp [bind, Except.bind]
  | ok value => simp [bind, Except.bind]

theorem map_ne_outOfFuel {α β : Type} {first : Except Halt α} (inTime : first ≠ .error .outOfFuel) (change : α → β) :
    first.map change ≠ .error .outOfFuel := by
  cases first with
  | error halt =>
    rintro ⟨⟩
    exact inTime rfl
  | ok value => rintro ⟨⟩

theorem doubleQuotedParts_ne_outOfFuel (opening pending text : List Char) :
    doubleQuotedParts opening pending text ≠ .error .outOfFuel := by
  fun_induction doubleQuotedParts opening pending text <;> simp_all

theorem singleQuotedText_ne_outOfFuel (opening text : List Char) :
    singleQuotedText opening text ≠ .error .outOfFuel := by
  fun_induction singleQuotedText opening text with
  | case1 | case2 => simp
  | case3 _ inductionHypothesis | case4 _ inductionHypothesis => exact map_ne_outOfFuel inductionHypothesis _
  | case5 _ _ _ _ _ inductionHypothesis => exact map_ne_outOfFuel inductionHypothesis _

theorem quoted_ne_outOfFuel (text : List Char) : quoted text ≠ .error .outOfFuel := by
  unfold quoted
  split
  · exact map_ne_outOfFuel (doubleQuotedParts_ne_outOfFuel _ _ _) _
  · exact map_ne_outOfFuel (singleQuotedText_ne_outOfFuel _ _) _
  · simp

theorem mapKey_ne_outOfFuel (text : List Char) : mapKey text ≠ .error .outOfFuel := by
  have inTime := quoted_ne_outOfFuel text
  unfold mapKey
  split
  · simp
  · split
    · simp
    · split <;> simp_all

theorem afterItem_ne_outOfFuel (text : List Char) : afterItem text ≠ .error .outOfFuel := by
  unfold afterItem
  split
  · simp
  · split <;> simp
  · simp

theorem declarations_runsOut : RunsOut feeds (fuel + 1) ⟨.declarations, text⟩ ↔
    ∃ inner, Makes feeds fuel ⟨.declarations, text⟩ inner ∧ inner.RunsOut feeds fuel := by
  rw [RunsOut, Recipe.declarations, attempt_outOfFuel]
  constructor
  · rintro (head | ⟨found, head, run⟩)
    · exact ⟨_, .firstDeclaration text, head⟩
    · cases found with
      | none => cases run
      | some pair =>
        rcases attempt_outOfFuel.mp run with tail | ⟨_, _, same⟩
        · exact ⟨_, .otherDeclarations head, tail⟩
        · cases same
  · rintro ⟨inner, makes, runsOut⟩
    cases makes with
    | firstDeclaration => exact .inl runsOut
    | otherDeclarations head => exact .inr ⟨_, head, attempt_outOfFuel.mpr (.inl runsOut)⟩

theorem declaration_runsOut : RunsOut feeds (fuel + 1) ⟨.declaration, text⟩ ↔
    ∃ inner, Makes feeds fuel ⟨.declaration, text⟩ inner ∧ inner.RunsOut feeds fuel := by
  rw [RunsOut, Recipe.declaration]
  constructor
  · intro run
    split at run
    · cases run
    · rename_i named
      rcases attempt_outOfFuel.mp run with inner | ⟨_, _, same⟩
      · exact ⟨_, .bodyOfName named, inner⟩
      · cases same
  · rintro ⟨inner, makes, runsOut⟩
    cases makes with
    | bodyOfName named =>
      rw [named]
      exact attempt_outOfFuel.mpr (.inl runsOut)

/-- The arguments of a name run out of fuel in the first one or in those behind it. -/
theorem arguments_runOut (noBlock : ∀ inside, text ≠ '{' :: inside) (noAssignment : ∀ right, text ≠ '=' :: right) :
    RunsOut feeds (fuel + 1) ⟨.body, text⟩ ↔
      RunsOut feeds fuel ⟨.expression, text⟩ ∨ ∃ first rest,
        Recipe.expression feeds fuel text = .ok (some (first, rest)) ∧ RunsOut feeds fuel ⟨.moreArguments, rest⟩ := by
  rw [RunsOut, body_arguments noBlock noAssignment, attempt_outOfFuel]
  refine or_congr_right ⟨?_, ?_⟩
  · rintro ⟨found, head, run⟩
    cases found with
    | none => cases run
    | some pair =>
      rcases attempt_outOfFuel.mp run with tail | ⟨_, _, same⟩
      · exact ⟨_, _, head, tail⟩
      · cases same
  · rintro ⟨first, rest, head, tail⟩
    exact ⟨_, head, attempt_outOfFuel.mpr (.inl tail)⟩

theorem body_runsOut : RunsOut feeds (fuel + 1) ⟨.body, text⟩ ↔
    ∃ inner, Makes feeds fuel ⟨.body, text⟩ inner ∧ inner.RunsOut feeds fuel := by
  constructor
  · intro run
    by_cases brace : ∃ inside, text = '{' :: inside
    · obtain ⟨inside, rfl⟩ := brace
      rcases attempt_outOfFuel.mp run with inner | ⟨_, _, same⟩
      · exact ⟨_, .blockOfBody inside, inner⟩
      · cases same
    by_cases equals : ∃ right, text = '=' :: right
    · obtain ⟨right, rfl⟩ := equals
      rcases attempt_outOfFuel.mp run with inner | ⟨found, _, same⟩
      · exact ⟨_, .assigned right, inner⟩
      · cases found <;> cases same
    have noBlock := not_exists.mp brace
    have noAssignment := not_exists.mp equals
    rcases (arguments_runOut noBlock noAssignment).mp run with head | ⟨first, rest, head, tail⟩
    · exact ⟨_, .firstArgument noBlock noAssignment, head⟩
    · exact ⟨_, .otherArguments noBlock noAssignment head, tail⟩
  · rintro ⟨inner, makes, runsOut⟩
    cases makes with
    | blockOfBody => exact attempt_outOfFuel.mpr (.inl runsOut)
    | assigned => exact attempt_outOfFuel.mpr (.inl runsOut)
    | firstArgument noBlock noAssignment => exact (arguments_runOut noBlock noAssignment).mpr (.inl runsOut)
    | otherArguments noBlock noAssignment head =>
      exact (arguments_runOut noBlock noAssignment).mpr (.inr ⟨_, _, head, runsOut⟩)

theorem block_runsOut : RunsOut feeds (fuel + 1) ⟨.block, text⟩ ↔
    ∃ inner, Makes feeds fuel ⟨.block, text⟩ inner ∧ inner.RunsOut feeds fuel := by
  rw [RunsOut, Recipe.block, attempt_outOfFuel]
  constructor
  · rintro (inner | ⟨found, _, run⟩)
    · exact ⟨_, .inBlock text, inner⟩
    · split at run <;> cases run
  · rintro ⟨inner, makes, runsOut⟩
    cases makes with
    | inBlock => exact .inl runsOut

theorem moreArguments_runsOut : RunsOut feeds (fuel + 1) ⟨.moreArguments, text⟩ ↔
    ∃ inner, Makes feeds fuel ⟨.moreArguments, text⟩ inner ∧ inner.RunsOut feeds fuel := by
  rw [RunsOut, Recipe.moreArguments]
  constructor
  · intro run
    split at run
    · rename_i rest comma
      rcases attempt_outOfFuel.mp run with head | ⟨found, head, run⟩
      · exact ⟨_, .nextArgument comma, head⟩
      · cases found with
        | none => cases run
        | some pair =>
          rcases attempt_outOfFuel.mp run with tail | ⟨_, _, same⟩
          · exact ⟨_, .furtherArguments comma head, tail⟩
          · cases same
    · cases run
  · rintro ⟨inner, makes, runsOut⟩
    cases makes with
    | nextArgument comma =>
      rw [comma]
      exact attempt_outOfFuel.mpr (.inl runsOut)
    | furtherArguments comma head =>
      rw [comma]
      exact attempt_outOfFuel.mpr (.inr ⟨_, head, attempt_outOfFuel.mpr (.inl runsOut)⟩)

theorem makes_of_brackets {inside : List Char} (run : RunsOut feeds (fuel + 1) ⟨.expression, '[' :: inside⟩) :
    ∃ inner, Makes feeds fuel ⟨.expression, '[' :: inside⟩ inner ∧ inner.RunsOut feeds fuel := by
  rw [RunsOut] at run
  by_cases closed : ∃ rest, skipTrivia inside = ']' :: rest
  · obtain ⟨rest, closed⟩ := closed
    rw [expression_emptyList_of closed] at run
    cases run
  have filled := not_exists.mp closed
  cases empty : emptyMap? (skipTrivia inside) with
  | some rest =>
    rw [expression_emptyMap_of empty] at run
    cases run
  | none =>
    rw [expression_of_filled filled empty] at run
    split at run
    · rename_i entry
      rcases attempt_outOfFuel.mp run with inner | ⟨_, _, same⟩
      · exact ⟨_, .entriesOfMap entry, inner⟩
      · cases same
    · rename_i noEntry
      rcases attempt_outOfFuel.mp run with inner | ⟨_, _, same⟩
      · exact ⟨_, .itemsOfList filled empty (Bool.not_eq_true _ ▸ noEntry), inner⟩
      · cases same

theorem makes_of_parentheses {inside : List Char} (run : RunsOut feeds (fuel + 1) ⟨.expression, '(' :: inside⟩) :
    ∃ inner, Makes feeds fuel ⟨.expression, '(' :: inside⟩ inner ∧ inner.RunsOut feeds fuel := by
  rcases attempt_outOfFuel.mp run with inner | ⟨found, _, run⟩
  · exact ⟨_, .inParentheses inside, inner⟩
  · cases found with
    | none => cases run
    | some pair =>
      dsimp only at run
      split at run <;> cases run

theorem makes_of_plain (noList : ∀ inside, text ≠ '[' :: inside) (noNested : ∀ inside, text ≠ '(' :: inside)
    (run : RunsOut feeds (fuel + 1) ⟨.expression, text⟩) :
    ∃ inner, Makes feeds fuel ⟨.expression, text⟩ inner ∧ inner.RunsOut feeds fuel := by
  rw [RunsOut, expression_of_plain noList noNested] at run
  rcases attempt_outOfFuel.mp run with exhausted | ⟨found, read, run⟩
  · exact absurd exhausted (quoted_ne_outOfFuel text)
  · cases found with
    | some pair => cases run
    | none =>
      cases number : number? text with
      | some pair =>
        simp only [number] at run
        cases run
      | none =>
        simp only [number] at run
        exact ⟨_, .wordOfExpression noList noNested read number, run⟩

theorem expression_runsOut : RunsOut feeds (fuel + 1) ⟨.expression, text⟩ ↔
    ∃ inner, Makes feeds fuel ⟨.expression, text⟩ inner ∧ inner.RunsOut feeds fuel := by
  constructor
  · intro run
    by_cases bracket : ∃ inside, text = '[' :: inside
    · obtain ⟨inside, rfl⟩ := bracket
      exact makes_of_brackets run
    by_cases parenthesis : ∃ inside, text = '(' :: inside
    · obtain ⟨inside, rfl⟩ := parenthesis
      exact makes_of_parentheses run
    exact makes_of_plain (not_exists.mp bracket) (not_exists.mp parenthesis) run
  · rintro ⟨inner, makes, runsOut⟩
    rw [RunsOut]
    cases makes with
    | entriesOfMap entry =>
      obtain ⟨filled, noMap⟩ := filled_of_startsMapEntry entry
      rw [expression_of_filled filled noMap, if_pos entry]
      exact attempt_outOfFuel.mpr (.inl runsOut)
    | itemsOfList filled noMap noEntry =>
      rw [expression_of_filled filled noMap, if_neg (Bool.not_eq_true _ ▸ noEntry)]
      exact attempt_outOfFuel.mpr (.inl runsOut)
    | inParentheses => exact attempt_outOfFuel.mpr (.inl runsOut)
    | wordOfExpression noList noNested noText noNumber =>
      rw [expression_of_plain noList noNested]
      refine attempt_outOfFuel.mpr (.inr ⟨_, noText, ?_⟩)
      simp only [noNumber]
      exact runsOut

theorem word_runsOut : RunsOut feeds (fuel + 1) ⟨.word, text⟩ ↔
    ∃ inner, Makes feeds fuel ⟨.word, text⟩ inner ∧ inner.RunsOut feeds fuel := by
  rw [RunsOut]
  constructor
  · intro run
    cases named : dottedName? text with
    | none =>
      rw [Recipe.word, named] at run
      cases run
    | some pair =>
      obtain ⟨name, rest⟩ := pair
      by_cases known : String.ofList name ∈ keywords.map Prod.fst
      · obtain ⟨⟨word, value⟩, member, rfl⟩ := List.mem_map.mp known
        rw [word_of_keyword named member] at run
        cases run
      cases load : startsLoad (String.ofList name) rest with
      | true =>
        obtain ⟨rfl, ⟨target, last⟩, found⟩ := startsLoad_eq_true.mp load
        rw [word_of_target named found] at run
        cases target <;> cases run
      | false =>
        rw [word_of_name named known load] at run
        split at run
        · rename_i inside brace
          rcases attempt_outOfFuel.mp run with inner | ⟨_, _, same⟩
          · exact ⟨_, .blockOfWord named known load brace, inner⟩
          · cases same
        · cases run
  · rintro ⟨inner, makes, runsOut⟩
    cases makes with
    | blockOfWord named unknown noLoad brace =>
      rw [word_of_name named unknown noLoad, brace]
      exact attempt_outOfFuel.mpr (.inl runsOut)

theorem listItems_runsOut : RunsOut feeds (fuel + 1) ⟨.listItems, text⟩ ↔
    ∃ inner, Makes feeds fuel ⟨.listItems, text⟩ inner ∧ inner.RunsOut feeds fuel := by
  rw [RunsOut, Recipe.listItems, attempt_outOfFuel]
  constructor
  · rintro (head | ⟨found, head, run⟩)
    · exact ⟨_, .firstItem text, head⟩
    · cases found with
      | none => cases run
      | some pair =>
        rcases attempt_outOfFuel.mp run with exhausted | ⟨next, separated, run⟩
        · exact absurd exhausted (afterItem_ne_outOfFuel _)
        · cases next with
          | closed rest => cases run
          | item rest =>
            rcases attempt_outOfFuel.mp run with tail | ⟨_, _, same⟩
            · exact ⟨_, .otherItems head separated, tail⟩
            · cases same
  · rintro ⟨inner, makes, runsOut⟩
    cases makes with
    | firstItem => exact .inl runsOut
    | otherItems head comma =>
      exact .inr ⟨_, head, attempt_outOfFuel.mpr (.inr ⟨_, comma, attempt_outOfFuel.mpr (.inl runsOut)⟩)⟩

theorem mapEntries_runsOut : RunsOut feeds (fuel + 1) ⟨.mapEntries, text⟩ ↔
    ∃ inner, Makes feeds fuel ⟨.mapEntries, text⟩ inner ∧ inner.RunsOut feeds fuel := by
  rw [RunsOut, Recipe.mapEntries, attempt_outOfFuel]
  constructor
  · rintro (exhausted | ⟨found, named, run⟩)
    · exact absurd exhausted (mapKey_ne_outOfFuel text)
    · cases found with
      | none => cases run
      | some pair =>
        dsimp only at run
        split at run
        · rename_i right colon
          rcases attempt_outOfFuel.mp run with head | ⟨found, head, run⟩
          · exact ⟨_, .valueOfKey named colon, head⟩
          · cases found with
            | none => cases run
            | some pair =>
              rcases attempt_outOfFuel.mp run with exhausted | ⟨next, separated, run⟩
              · exact absurd exhausted (afterItem_ne_outOfFuel _)
              · cases next with
                | closed rest => cases run
                | item rest =>
                  rcases attempt_outOfFuel.mp run with tail | ⟨_, _, same⟩
                  · exact ⟨_, .otherEntries named colon head separated, tail⟩
                  · cases same
        · cases run
  · rintro ⟨inner, makes, runsOut⟩
    cases makes with
    | valueOfKey named colon =>
      refine .inr ⟨_, named, ?_⟩
      simp only [colon]
      exact attempt_outOfFuel.mpr (.inl runsOut)
    | otherEntries named colon head comma =>
      refine .inr ⟨_, named, ?_⟩
      simp only [colon]
      exact attempt_outOfFuel.mpr (.inr ⟨_, head, attempt_outOfFuel.mpr (.inr ⟨_, comma,
        attempt_outOfFuel.mpr (.inl runsOut)⟩)⟩)

/-- A call reaches its bound if and only if a call that it makes reaches the bound that is left to it. -/
theorem runsOut_succ (call : Call) :
    call.RunsOut feeds (fuel + 1) ↔ ∃ inner, call.Makes feeds fuel inner ∧ inner.RunsOut feeds fuel := by
  obtain ⟨production, text⟩ := call
  cases production with
  | declarations => exact declarations_runsOut
  | declaration => exact declaration_runsOut
  | body => exact body_runsOut
  | block => exact block_runsOut
  | moreArguments => exact moreArguments_runsOut
  | expression => exact expression_runsOut
  | word => exact word_runsOut
  | listItems => exact listItems_runsOut
  | mapEntries => exact mapEntries_runsOut

/-- Only a bound that is at most the weight of a call is reached: each nested call has less weight. -/
theorem RunsOut.le_weight {fuel : Nat} {call : Call} (runsOut : call.RunsOut feeds fuel) : fuel ≤ call.weight := by
  induction fuel generalizing call with
  | zero => exact Nat.zero_le _
  | succ fuel inductionHypothesis =>
    obtain ⟨inner, makes, nested⟩ := call.runsOut_succ.mp runsOut
    exact (inductionHypothesis nested).trans_lt makes.descends.weight_lt

theorem not_runsOut {call : Call} (enough : 4 * call.text.length + 4 ≤ fuel) : ¬call.RunsOut feeds fuel := by
  intro runsOut
  have low := runsOut.le_weight
  have high := call.weight_le
  omega

end Exhaustion

end Call

end DeployRecipe.Recipe
