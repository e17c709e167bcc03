import DeployRecipe.Proofs.Recipe.Lexemes
import DeployRecipe.Proofs.Running

/-!
Inversion of the readers of the grammar. A reader that reads something has read it in one of a few ways, and each way
says what the readers that it calls have read, with one less nested call.
-/

namespace DeployRecipe.Recipe

variable {feeds fuel : Nat} {text after : List Char}

/-- The words that stand for values, with their values. -/
def keywords : List (String × Expression) :=
  [("true", .bool true), ("false", .bool false), ("null", .null)]

/-- The name is the word of a load expression whose target is read. -/
def startsLoad (name : String) (rest : List Char) : Bool :=
  name = "load" && (loadTarget? rest).isSome

/-- The ways in which declarations are read. -/
inductive ReadsDeclarations (feeds fuel : Nat) : List Char → List Declaration → List Char → Prop
  | none {text : List Char} (ends : declaration feeds fuel (skipTrivia text) = .ok none) :
    ReadsDeclarations feeds fuel text [] (skipTrivia text)
  | more {text rest after : List Char} {first : Declaration} {others : List Declaration}
    (head : declaration feeds fuel (skipTrivia text) = .ok (some (first, rest)))
    (tail : declarations feeds fuel rest = .ok (others, after)) :
    ReadsDeclarations feeds fuel text (first :: others) after

/-- The ways in which what follows the name of a declaration is read. -/
inductive ReadsBody (feeds fuel : Nat) : List Char → Body → List Char → Prop
  | block {inside after : List Char} {inner : List Declaration}
    (read : block feeds fuel inside = .ok (inner, after)) : ReadsBody feeds fuel ('{' :: inside) (.block inner) after
  | assignment {right after : List Char} {value : Expression}
    (read : expression feeds fuel (skipTrivia right) = .ok (some (value, after))) :
    ReadsBody feeds fuel ('=' :: right) (.assignment value) after
  | arguments {text rest after : List Char} {first : Expression} {others : List Expression}
    (noBlock : ∀ inside, text ≠ '{' :: inside) (noAssignment : ∀ right, text ≠ '=' :: right)
    (head : expression feeds fuel text = .ok (some (first, rest)))
    (tail : moreArguments feeds fuel rest = .ok (others, after)) :
    ReadsBody feeds fuel text (.arguments (first :: others)) after

/-- The ways in which the arguments after the first one are read. -/
inductive ReadsMoreArguments (feeds fuel : Nat) : List Char → List Expression → List Char → Prop
  | none {text : List Char} (ends : ∀ rest, skipSpaces text ≠ ',' :: rest) : ReadsMoreArguments feeds fuel text [] text
  | more {text rest next after : List Char} {value : Expression} {others : List Expression}
    (comma : skipSpaces text = ',' :: rest)
    (head : expression feeds fuel (skipTrivia rest) = .ok (some (value, next)))
    (tail : moreArguments feeds fuel next = .ok (others, after)) :
    ReadsMoreArguments feeds fuel text (value :: others) after

/-- The ways in which a value is read. -/
inductive ReadsExpression (feeds fuel : Nat) : List Char → Expression → List Char → Prop
  | emptyList {inside after : List Char} (closed : skipTrivia inside = ']' :: after) :
    ReadsExpression feeds fuel ('[' :: inside) (.list []) after
  | emptyMap {inside after : List Char} (empty : emptyMap? (skipTrivia inside) = some after) :
    ReadsExpression feeds fuel ('[' :: inside) (.map []) after
  | map {inside after : List Char} {entries : List (String × Expression)}
    (entry : startsMapEntry (skipTrivia inside) = true)
    (read : mapEntries feeds fuel (skipTrivia inside) = .ok (entries, after)) :
    ReadsExpression feeds fuel ('[' :: inside) (.map entries) after
  | list {inside after : List Char} {items : List Expression} (filled : ∀ rest, skipTrivia inside ≠ ']' :: rest)
    (noMap : emptyMap? (skipTrivia inside) = none) (noEntry : startsMapEntry (skipTrivia inside) = false)
    (read : listItems feeds fuel (skipTrivia inside) = .ok (items, after)) :
    ReadsExpression feeds fuel ('[' :: inside) (.list items) after
  | nested {inside rest after : List Char} {value : Expression}
    (read : expression feeds fuel (skipTrivia inside) = .ok (some (value, rest)))
    (closed : skipTrivia rest = ')' :: after) : ReadsExpression feeds fuel ('(' :: inside) value after
  | quoted {text after : List Char} {value : Expression} (read : quoted text = .ok (some (value, after))) :
    ReadsExpression feeds fuel text value after
  | number {text after : List Char} {value : Expression} (noText : Recipe.quoted text = .ok none)
    (read : number? text = some (value, after)) : ReadsExpression feeds fuel text value after
  | word {text after : List Char} {value : Expression} (noText : Recipe.quoted text = .ok none)
    (noNumber : number? text = none) (read : word feeds fuel text = .ok (some (value, after))) :
    ReadsExpression feeds fuel text value after

/-- The ways in which a value that starts with a name is read. -/
inductive ReadsWord (feeds fuel : Nat) : List Char → Expression → List Char → Prop
  | keyword {text name after : List Char} {value : Expression} (named : dottedName? text = some (name, after))
    (known : (String.ofList name, value) ∈ keywords) : ReadsWord feeds fuel text value after
  | load {text rest after : List Char} {path : String} (named : dottedName? text = some ("load".toList, rest))
    (target : loadTarget? rest = some (.text path, after)) : ReadsWord feeds fuel text (.load path) after
  | block {text name rest inside after : List Char} {inner : List Declaration}
    (named : dottedName? text = some (name, rest)) (unknown : String.ofList name ∉ keywords.map Prod.fst)
    (noLoad : startsLoad (String.ofList name) rest = false) (brace : skipSpaces rest = '{' :: inside)
    (read : block feeds fuel inside = .ok (inner, after)) :
    ReadsWord feeds fuel text (.block (String.ofList name) (lineOf feeds text) inner) after
  | reference {text name after : List Char} (named : dottedName? text = some (name, after))
    (unknown : String.ofList name ∉ keywords.map Prod.fst)
    (noLoad : startsLoad (String.ofList name) after = false) (noBlock : ∀ inside, skipSpaces after ≠ '{' :: inside) :
    ReadsWord feeds fuel text (.reference (String.ofList name)) after

/-- The ways in which the items of a list are read. -/
inductive ReadsListItems (feeds fuel : Nat) : List Char → List Expression → List Char → Prop
  | last {text rest after : List Char} {item : Expression}
    (head : expression feeds fuel text = .ok (some (item, rest))) (closed : afterItem rest = .ok (.closed after)) :
    ReadsListItems feeds fuel text [item] after
  | more {text rest next after : List Char} {item : Expression} {others : List Expression}
    (head : expression feeds fuel text = .ok (some (item, rest))) (comma : afterItem rest = .ok (.item next))
    (tail : listItems feeds fuel next = .ok (others, after)) :
    ReadsListItems feeds fuel text (item :: others) after

/-- The ways in which the entries of a map are read. -/
inductive ReadsMapEntries (feeds fuel : Nat) : List Char → List (String × Expression) → List Char → Prop
  | last {text afterKey right rest after : List Char} {key : String} {value : Expression}
    (named : mapKey text = .ok (some (key, afterKey))) (colon : skipTrivia afterKey = ':' :: right)
    (head : expression feeds fuel (skipTrivia right) = .ok (some (value, rest)))
    (closed : afterItem rest = .ok (.closed after)) : ReadsMapEntries feeds fuel text [(key, value)] after
  | more {text afterKey right rest next after : List Char} {key : String} {value : Expression}
    {others : List (String × Expression)} (named : mapKey text = .ok (some (key, afterKey)))
    (colon : skipTrivia afterKey = ':' :: right)
    (head : expression feeds fuel (skipTrivia right) = .ok (some (value, rest)))
    (comma : afterItem rest = .ok (.item next)) (tail : mapEntries feeds fuel next = .ok (others, after)) :
    ReadsMapEntries feeds fuel text ((key, value) :: others) after

section Inversion

open Running

theorem declarations_eq_ok {list : List Declaration} :
    declarations feeds (fuel + 1) text = .ok (list, after) ↔ ReadsDeclarations feeds fuel text list after := by
  rw [declarations, attempt_eq_ok]
  constructor
  · rintro ⟨found, head, run⟩
    cases found with
    | none =>
      obtain ⟨rfl, rfl⟩ := Prod.mk.inj (Except.ok.inj run)
      exact .none head
    | some pair =>
      obtain ⟨⟨others, rest⟩, tail, same⟩ := (attempt_eq_ok _ _ _).mp run
      obtain ⟨rfl, rfl⟩ := Prod.mk.inj (Except.ok.inj same)
      exact .more head tail
  · intro reads
    cases reads with
    | none ends => exact ⟨_, ends, rfl⟩
    | more head tail => exact ⟨_, head, (attempt_eq_ok _ _ _).mpr ⟨_, tail, rfl⟩⟩

theorem declaration_eq_some {found : Declaration} :
    declaration feeds (fuel + 1) text = .ok (some (found, after)) ↔
      ∃ name rest value, dottedName? text = some (name, rest) ∧
        body feeds fuel (skipSpaces rest) = .ok (value, after) ∧
        found = .mk (String.ofList name) (lineOf feeds text) value := by
  rw [declaration]
  cases named : dottedName? text with
  | none => simp [pure, Except.pure]
  | some pair =>
    obtain ⟨name, rest⟩ := pair
    simp only [attempt_eq_ok]
    constructor
    · rintro ⟨⟨value, last⟩, read, same⟩
      obtain ⟨rfl, rfl⟩ := Prod.mk.inj (Option.some.inj (Except.ok.inj same))
      exact ⟨name, rest, value, rfl, read, rfl⟩
    · rintro ⟨_, _, value, same, read, rfl⟩
      obtain ⟨rfl, rfl⟩ := Prod.mk.inj (Option.some.inj same)
      exact ⟨(value, after), read, rfl⟩

theorem declaration_eq_none :
    declaration feeds (fuel + 1) text = .ok none ↔ dottedName? text = none := by
  rw [declaration]
  cases named : dottedName? text with
  | none => simp [pure, Except.pure]
  | some pair =>
    simp only [attempt_eq_ok, reduceCtorEq, iff_false, not_exists, not_and]
    rintro _ _ ⟨⟩

/-- What follows a name and is neither a block nor an assignment is read as arguments. -/
theorem body_arguments (noBlock : ∀ inside, text ≠ '{' :: inside) (noAssignment : ∀ right, text ≠ '=' :: right) :
    body feeds (fuel + 1) text = (do
      match ← expression feeds fuel text with
      | some (first, rest) =>
        let (others, rest) ← moreArguments feeds fuel rest
        pure (.arguments (first :: others), rest)
      | none => throw (.fault .value text)) :=
  body.eq_4 feeds text fuel noBlock noAssignment

theorem body_eq_ok {value : Body} :
    body feeds (fuel + 1) text = .ok (value, after) ↔ ReadsBody feeds fuel text value after := by
  have arguments (noBlock : ∀ inside, text ≠ '{' :: inside) (noAssignment : ∀ right, text ≠ '=' :: right) :
      body feeds (fuel + 1) text = .ok (value, after) ↔
        ∃ first rest others, expression feeds fuel text = .ok (some (first, rest)) ∧
          moreArguments feeds fuel rest = .ok (others, after) ∧ value = .arguments (first :: others) := by
    rw [body_arguments noBlock noAssignment, attempt_eq_ok]
    constructor
    · rintro ⟨found, head, run⟩
      cases found with
      | none => cases run
      | some pair =>
        obtain ⟨⟨others, last⟩, tail, same⟩ := (attempt_eq_ok _ _ _).mp run
        obtain ⟨rfl, rfl⟩ := Prod.mk.inj (Except.ok.inj same)
        exact ⟨_, _, _, head, tail, rfl⟩
    · rintro ⟨first, rest, others, head, tail, rfl⟩
      exact ⟨_, head, (attempt_eq_ok _ _ _).mpr ⟨_, tail, rfl⟩⟩
  constructor
  · intro run
    by_cases brace : ∃ inside, text = '{' :: inside
    · obtain ⟨inside, rfl⟩ := brace
      obtain ⟨⟨inner, last⟩, read, same⟩ := (attempt_eq_ok _ _ _).mp run
      obtain ⟨rfl, rfl⟩ := Prod.mk.inj (Except.ok.inj same)
      exact .block read
    by_cases equals : ∃ right, text = '=' :: right
    · obtain ⟨right, rfl⟩ := equals
      obtain ⟨found, read, run⟩ := (attempt_eq_ok _ _ _).mp run
      cases found with
      | none => cases run
      | some pair =>
        obtain ⟨rfl, rfl⟩ := Prod.mk.inj (Except.ok.inj run)
        exact .assignment read
    have noBlock := not_exists.mp brace
    have noAssignment := not_exists.mp equals
    obtain ⟨first, rest, others, head, tail, rfl⟩ := (arguments noBlock noAssignment).mp run
    exact .arguments noBlock noAssignment head tail
  · intro reads
    cases reads with
    | block read => exact (attempt_eq_ok _ _ _).mpr ⟨_, read, rfl⟩
    | assignment read => exact (attempt_eq_ok _ _ _).mpr ⟨_, read, rfl⟩
    | arguments noBlock noAssignment head tail =>
      exact (arguments noBlock noAssignment).mpr ⟨_, _, _, head, tail, rfl⟩

theorem block_eq_ok {list : List Declaration} :
    block feeds (fuel + 1) text = .ok (list, after) ↔ declarations feeds fuel text = .ok (list, '}' :: after) := by
  rw [block, attempt_eq_ok]
  constructor
  · rintro ⟨⟨inner, rest⟩, read, run⟩
    split at run
    · rename_i same
      obtain ⟨rfl, rfl⟩ := Prod.mk.inj same
      obtain ⟨rfl, rfl⟩ := Prod.mk.inj (Except.ok.inj run)
      exact read
    · cases run
  · intro read
    exact ⟨_, read, rfl⟩

/-- Without a comma there are no more arguments. -/
theorem moreArguments_of_ends (ends : ∀ rest, skipSpaces text ≠ ',' :: rest) :
    moreArguments feeds (fuel + 1) text = .ok ([], text) := by
  rw [moreArguments]
  split
  · rename_i comma
    exact absurd comma (ends _)
  · rfl

theorem moreArguments_eq_ok {list : List Expression} :
    moreArguments feeds (fuel + 1) text = .ok (list, after) ↔ ReadsMoreArguments feeds fuel text list after := by
  by_cases comma : ∃ rest, skipSpaces text = ',' :: rest
  · obtain ⟨rest, comma⟩ := comma
    rw [moreArguments, comma]
    simp only [attempt_eq_ok]
    constructor
    · rintro ⟨found, head, run⟩
      cases found with
      | none => cases run
      | some pair =>
        obtain ⟨⟨others, last⟩, tail, same⟩ := (attempt_eq_ok _ _ _).mp run
        obtain ⟨rfl, rfl⟩ := Prod.mk.inj (Except.ok.inj same)
        exact .more comma head tail
    · intro reads
      cases reads with
      | none ends => exact absurd comma (ends rest)
      | more comma' head tail =>
        obtain rfl := (List.cons.inj (comma.symm.trans comma')).2
        exact ⟨_, head, (attempt_eq_ok _ _ _).mpr ⟨_, tail, rfl⟩⟩
  · have ends := not_exists.mp comma
    rw [moreArguments_of_ends ends]
    constructor
    · rintro ⟨⟩
      exact .none ends
    · intro reads
      cases reads with
      | none => rfl
      | more comma' => exact absurd comma' (ends _)

theorem listItems_eq_ok {list : List Expression} :
    listItems feeds (fuel + 1) text = .ok (list, after) ↔ ReadsListItems feeds fuel text list after := by
  rw [listItems, attempt_eq_ok]
  constructor
  · rintro ⟨found, head, run⟩
    cases found with
    | none => cases run
    | some pair =>
      obtain ⟨next, separated, run⟩ := (attempt_eq_ok _ _ _).mp run
      cases next with
      | closed rest =>
        obtain ⟨rfl, rfl⟩ := Prod.mk.inj (Except.ok.inj run)
        exact .last head separated
      | item rest =>
        obtain ⟨⟨others, last⟩, tail, same⟩ := (attempt_eq_ok _ _ _).mp run
        obtain ⟨rfl, rfl⟩ := Prod.mk.inj (Except.ok.inj same)
        exact .more head separated tail
  · intro reads
    cases reads with
    | last head closed => exact ⟨_, head, (attempt_eq_ok _ _ _).mpr ⟨_, closed, rfl⟩⟩
    | more head comma tail =>
      exact ⟨_, head, (attempt_eq_ok _ _ _).mpr ⟨_, comma, (attempt_eq_ok _ _ _).mpr ⟨_, tail, rfl⟩⟩⟩

theorem mapEntries_eq_ok {list : List (String × Expression)} :
    mapEntries feeds (fuel + 1) text = .ok (list, after) ↔ ReadsMapEntries feeds fuel text list after := by
  rw [mapEntries, attempt_eq_ok]
  constructor
  · rintro ⟨found, named, run⟩
    cases found with
    | none => cases run
    | some pair =>
      dsimp only at run
      split at run
      · rename_i right colon
        obtain ⟨found, head, run⟩ := (attempt_eq_ok _ _ _).mp run
        cases found with
        | none => cases run
        | some pair =>
          obtain ⟨next, separated, run⟩ := (attempt_eq_ok _ _ _).mp run
          cases next with
          | closed rest =>
            obtain ⟨rfl, rfl⟩ := Prod.mk.inj (Except.ok.inj run)
            exact .last named colon head separated
          | item rest =>
            obtain ⟨⟨others, last⟩, tail, same⟩ := (attempt_eq_ok _ _ _).mp run
            obtain ⟨rfl, rfl⟩ := Prod.mk.inj (Except.ok.inj same)
            exact .more named colon head separated tail
      · cases run
  · intro reads
    cases reads with
    | last named colon head closed =>
      refine ⟨_, named, ?_⟩
      simp only [colon]
      exact (attempt_eq_ok _ _ _).mpr ⟨_, head, (attempt_eq_ok _ _ _).mpr ⟨_, closed, rfl⟩⟩
    | more named colon head comma tail =>
      refine ⟨_, named, ?_⟩
      simp only [colon]
      exact (attempt_eq_ok _ _ _).mpr ⟨_, head, (attempt_eq_ok _ _ _).mpr ⟨_, comma,
        (attempt_eq_ok _ _ _).mpr ⟨_, tail, rfl⟩⟩⟩

theorem mem_keywords {name : String} {value : Expression} :
    (name, value) ∈ keywords ↔ name = "true" ∧ value = .bool true ∨ name = "false" ∧ value = .bool false ∨
      name = "null" ∧ value = .null := by
  simp [keywords]

theorem not_mem_keywords {name : String} :
    name ∉ keywords.map Prod.fst ↔ name ≠ "true" ∧ name ≠ "false" ∧ name ≠ "null" := by
  simp [keywords]

/-- The target of a load expression is a quoted text. -/
theorem loadTarget?_eq_some {target : Expression} :
    loadTarget? text = some (target, after) ↔
      ∃ inside rest, skipSpaces text = '(' :: inside ∧ quoted (skipTrivia inside) = .ok (some (target, rest)) ∧
        skipTrivia rest = ')' :: after := by
  rw [loadTarget?]
  constructor
  · intro found
    split at found
    · rename_i inside parenthesis
      split at found
      · rename_i read
        split at found
        · rename_i closed
          obtain ⟨rfl, rfl⟩ := Prod.mk.inj (Option.some.inj found)
          exact ⟨_, _, parenthesis, read, closed⟩
        · cases found
      · cases found
    · cases found
  · rintro ⟨inside, rest, parenthesis, read, closed⟩
    simp only [parenthesis, read, closed]

theorem startsLoad_eq_true {name rest : List Char} :
    startsLoad (String.ofList name) rest = true ↔
      name = "load".toList ∧ ∃ target, loadTarget? rest = some target := by
  rw [startsLoad, Bool.and_eq_true, decide_eq_true_eq, Option.isSome_iff_exists, ← String.toList_inj,
    String.toList_ofList]

/-- What is read after a name that is no keyword and starts no load expression. -/
theorem word_of_name {name rest : List Char} (named : dottedName? text = some (name, rest))
    (unknown : String.ofList name ∉ keywords.map Prod.fst) (noLoad : startsLoad (String.ofList name) rest = false) :
    word feeds (fuel + 1) text = (do
      match skipSpaces rest with
      | '{' :: inside =>
        let (inner, after) ← block feeds fuel inside
        pure (some (.block (String.ofList name) (lineOf feeds text) inner, after))
      | _ => pure (some (.reference (String.ofList name), rest))) := by
  obtain ⟨noTrue, noFalse, noNull⟩ := not_mem_keywords.mp unknown
  have noTarget : (if String.ofList name = "load" then loadTarget? rest else none) = none := by
    split
    · rename_i load
      simpa [startsLoad, load] using noLoad
    · rfl
  rw [word, named]
  refine (if_neg noTrue).trans ((if_neg noFalse).trans ((if_neg noNull).trans ?_))
  generalize (if String.ofList name = "load" then loadTarget? rest else none) = target at noTarget ⊢
  subst noTarget
  rfl

theorem word_of_keyword {name rest : List Char} {value : Expression} (named : dottedName? text = some (name, rest))
    (known : (String.ofList name, value) ∈ keywords) : word feeds (fuel + 1) text = .ok (some (value, rest)) := by
  rw [word, named]
  rcases mem_keywords.mp known with ⟨same, rfl⟩ | ⟨same, rfl⟩ | ⟨same, rfl⟩ <;> simp only [same] <;> rfl

theorem word_of_target {rest : List Char} {target : Expression} (named : dottedName? text = some ("load".toList, rest))
    (found : loadTarget? rest = some (target, after)) :
    word feeds (fuel + 1) text =
      match target with
      | .text path => .ok (some (.load path, after))
      | _ => .error (.fault .literalLoadPath rest) := by
  rw [word, named]
  have load : String.ofList "load".toList = "load" := by decide
  simp only [load, if_true, found]
  cases target <;> rfl

theorem word_eq_some {value : Expression} :
    word feeds (fuel + 1) text = .ok (some (value, after)) ↔ ReadsWord feeds fuel text value after := by
  constructor
  · intro run
    cases named : dottedName? text with
    | none =>
      rw [word, named] at run
      cases run
    | some pair =>
      obtain ⟨name, rest⟩ := pair
      by_cases known : String.ofList name ∈ keywords.map Prod.fst
      · obtain ⟨⟨word, meaning⟩, member, rfl⟩ := List.mem_map.mp known
        rw [word_of_keyword named member] at run
        obtain ⟨rfl, rfl⟩ := Prod.mk.inj (Option.some.inj (Except.ok.inj run))
        exact .keyword named member
      cases load : startsLoad (String.ofList name) rest with
      | true =>
        obtain ⟨rfl, ⟨target, last⟩, found⟩ := startsLoad_eq_true.mp load
        rw [word_of_target named found] at run
        cases target with
        | text path =>
          obtain ⟨rfl, rfl⟩ := Prod.mk.inj (Option.some.inj (Except.ok.inj run))
          exact .load named found
        | _ => cases run
      | false =>
        rw [word_of_name named known load] at run
        split at run
        · rename_i inside brace
          obtain ⟨⟨inner, last⟩, read, same⟩ := (attempt_eq_ok _ _ _).mp run
          obtain ⟨rfl, rfl⟩ := Prod.mk.inj (Option.some.inj (Except.ok.inj same))
          exact .block named known load brace read
        · rename_i noBlock
          obtain ⟨rfl, rfl⟩ := Prod.mk.inj (Option.some.inj (Except.ok.inj run))
          exact .reference named known load noBlock
  · intro reads
    cases reads with
    | keyword named known => exact word_of_keyword named known
    | load named target => exact word_of_target named target
    | block named unknown noLoad brace read =>
      rw [word_of_name named unknown noLoad, brace]
      exact (attempt_eq_ok _ _ _).mpr ⟨_, read, rfl⟩
    | reference named unknown noLoad noBlock =>
      rw [word_of_name named unknown noLoad]
      split
      · rename_i brace
        exact absurd brace (noBlock _)
      · rfl

/-- A text that starts neither with a bracket nor with a parenthesis is no list, no map and no nested value. -/
theorem expression_of_plain (noList : ∀ inside, text ≠ '[' :: inside) (noNested : ∀ inside, text ≠ '(' :: inside) :
    expression feeds (fuel + 1) text = (do
      match ← quoted text with
      | some found => pure (some found)
      | none =>
        match number? text with
        | some found => pure (some found)
        | none => word feeds fuel text) :=
  expression.eq_4 feeds text fuel noList noNested

/-- What stands between brackets is an empty list, an empty map, or what its first value is followed by decides. -/
theorem expression_brackets (feeds fuel : Nat) (inside : List Char) :
    expression feeds (fuel + 1) ('[' :: inside) = (do
      match skipTrivia inside with
      | ']' :: rest => pure (some (.list [], rest))
      | start =>
        match emptyMap? start with
        | some rest => pure (some (.map [], rest))
        | none =>
          if startsMapEntry start then
            let (entries, rest) ← mapEntries feeds fuel start
            pure (some (.map entries, rest))
          else
            let (items, rest) ← listItems feeds fuel start
            pure (some (.list items, rest))) := rfl

theorem expression_parentheses (feeds fuel : Nat) (inside : List Char) :
    expression feeds (fuel + 1) ('(' :: inside) = (do
      match ← expression feeds fuel (skipTrivia inside) with
      | none => pure none
      | some (value, rest) =>
        match skipTrivia rest with
        | ')' :: rest => pure (some (value, rest))
        | rest => throw (.fault .closingParenthesis rest)) := rfl

theorem expression_emptyList_of {inside : List Char} (closed : skipTrivia inside = ']' :: after) :
    expression feeds (fuel + 1) ('[' :: inside) = .ok (some (.list [], after)) := by
  rw [expression_brackets, closed]
  rfl

theorem expression_emptyMap_of {inside : List Char} (empty : emptyMap? (skipTrivia inside) = some after) :
    expression feeds (fuel + 1) ('[' :: inside) = .ok (some (.map [], after)) := by
  rw [expression_brackets]
  split
  · rename_i closed
    rw [closed] at empty
    cases empty
  · rw [empty]
    rfl

/-- What stands between brackets and is not empty is a map or a list, by what its first value is followed by. -/
theorem expression_of_filled {inside : List Char} (filled : ∀ rest, skipTrivia inside ≠ ']' :: rest)
    (noMap : emptyMap? (skipTrivia inside) = none) :
    expression feeds (fuel + 1) ('[' :: inside) =
      (if startsMapEntry (skipTrivia inside) then do
        let (entries, rest) ← mapEntries feeds fuel (skipTrivia inside)
        pure (some (.map entries, rest))
      else do
        let (items, rest) ← listItems feeds fuel (skipTrivia inside)
        pure (some (.list items, rest))) := by
  rw [expression_brackets]
  split
  · rename_i closed
    exact absurd closed (filled _)
  · simp only [noMap]

/-- The key of a map is no bracket and no colon. -/
theorem filled_of_startsMapEntry (entry : startsMapEntry text = true) :
    (∀ rest, text ≠ ']' :: rest) ∧ emptyMap? text = none := by
  constructor
  · rintro rest rfl
    cases entry
  · unfold emptyMap?
    split
    · cases entry
    · rfl

theorem quoted_of_open {character : Char} (opens : character = '[' ∨ character = '(') (inside : List Char) :
    quoted (character :: inside) = .ok none ∧ number? (character :: inside) = none ∧
      dottedName? (character :: inside) = none := by
  rcases opens with rfl | rfl <;> exact ⟨rfl, rfl, rfl⟩

/-- A text that starts as a quoted text, a number or a name starts neither with a bracket nor with a parenthesis. -/
theorem plain_of_lexeme (lexeme : quoted text ≠ .ok none ∨ number? text ≠ none ∨ dottedName? text ≠ none) :
    (∀ inside, text ≠ '[' :: inside) ∧ ∀ inside, text ≠ '(' :: inside := by
  constructor <;> rintro inside rfl
  · obtain ⟨noText, noNumber, noName⟩ := quoted_of_open (.inl rfl) inside
    rcases lexeme with differs | differs | differs <;> contradiction
  · obtain ⟨noText, noNumber, noName⟩ := quoted_of_open (.inr rfl) inside
    rcases lexeme with differs | differs | differs <;> contradiction

section Alternatives

variable {value : Expression} {inside : List Char}

theorem readsExpression_of_brackets (run : expression feeds (fuel + 1) ('[' :: inside) = .ok (some (value, after))) :
    ReadsExpression feeds fuel ('[' :: inside) value after := by
  by_cases closed : ∃ rest, skipTrivia inside = ']' :: rest
  · obtain ⟨rest, closed⟩ := closed
    rw [expression_emptyList_of closed] at run
    obtain ⟨rfl, rfl⟩ := Prod.mk.inj (Option.some.inj (Except.ok.inj run))
    exact .emptyList closed
  have filled := not_exists.mp closed
  cases empty : emptyMap? (skipTrivia inside) with
  | some rest =>
    rw [expression_emptyMap_of empty] at run
    obtain ⟨rfl, rfl⟩ := Prod.mk.inj (Option.some.inj (Except.ok.inj run))
    exact .emptyMap empty
  | none =>
    rw [expression_of_filled filled empty] at run
    split at run
    · rename_i entry
      obtain ⟨⟨entries, rest⟩, read, same⟩ := (attempt_eq_ok _ _ _).mp run
      obtain ⟨rfl, rfl⟩ := Prod.mk.inj (Option.some.inj (Except.ok.inj same))
      exact .map entry read
    · rename_i noEntry
      obtain ⟨⟨items, rest⟩, read, same⟩ := (attempt_eq_ok _ _ _).mp run
      obtain ⟨rfl, rfl⟩ := Prod.mk.inj (Option.some.inj (Except.ok.inj same))
      exact .list filled empty (Bool.not_eq_true _ ▸ noEntry) read

theorem readsExpression_of_parentheses
    (run : expression feeds (fuel + 1) ('(' :: inside) = .ok (some (value, after))) :
    ReadsExpression feeds fuel ('(' :: inside) value after := by
  rw [expression_parentheses] at run
  obtain ⟨found, read, run⟩ := (attempt_eq_ok _ _ _).mp run
  cases found with
  | none => cases run
  | some pair =>
    dsimp only at run
    split at run
    · rename_i closed
      obtain ⟨rfl, rfl⟩ := Prod.mk.inj (Option.some.inj (Except.ok.inj run))
      exact .nested read closed
    · cases run

theorem readsExpression_of_plain (noList : ∀ inside, text ≠ '[' :: inside) (noNested : ∀ inside, text ≠ '(' :: inside)
    (run : expression feeds (fuel + 1) text = .ok (some (value, after))) :
    ReadsExpression feeds fuel text value after := by
  rw [expression_of_plain noList noNested] at run
  obtain ⟨found, read, run⟩ := (attempt_eq_ok _ _ _).mp run
  cases found with
  | some pair =>
    obtain rfl := Option.some.inj (Except.ok.inj run)
    exact .quoted read
  | none =>
    cases number : number? text with
    | some pair =>
      simp only [number] at run
      obtain rfl := Option.some.inj (Except.ok.inj run)
      exact .number read number
    | none =>
      simp only [number] at run
      exact .word read number run

theorem expression_of_reads (reads : ReadsExpression feeds fuel text value after) :
    expression feeds (fuel + 1) text = .ok (some (value, after)) := by
  cases reads with
  | emptyList closed => exact expression_emptyList_of closed
  | emptyMap empty => exact expression_emptyMap_of empty
  | map entry read =>
    obtain ⟨filled, noMap⟩ := filled_of_startsMapEntry entry
    rw [expression_of_filled filled noMap, if_pos entry]
    exact (attempt_eq_ok _ _ _).mpr ⟨_, read, rfl⟩
  | list filled noMap noEntry read =>
    rw [expression_of_filled filled noMap, if_neg (Bool.not_eq_true _ ▸ noEntry)]
    exact (attempt_eq_ok _ _ _).mpr ⟨_, read, rfl⟩
  | nested read closed =>
    rw [expression_parentheses]
    refine (attempt_eq_ok _ _ _).mpr ⟨_, read, ?_⟩
    simp only [closed]
    rfl
  | quoted read =>
    have starts : quoted text ≠ .ok none := by simp [read]
    obtain ⟨noList, noNested⟩ := plain_of_lexeme (.inl starts)
    rw [expression_of_plain noList noNested]
    exact (attempt_eq_ok _ _ _).mpr ⟨_, read, rfl⟩
  | number noText read =>
    have starts : number? text ≠ none := by simp [read]
    obtain ⟨noList, noNested⟩ := plain_of_lexeme (.inr (.inl starts))
    rw [expression_of_plain noList noNested]
    refine (attempt_eq_ok _ _ _).mpr ⟨_, noText, ?_⟩
    simp only [read]
    rfl
  | word noText noNumber read =>
    have starts : dottedName? text ≠ none := by
      intro unnamed
      cases fuel with
      | zero => cases read
      | succ fuel =>
        rw [Recipe.word, unnamed] at read
        cases read
    obtain ⟨noList, noNested⟩ := plain_of_lexeme (.inr (.inr starts))
    rw [expression_of_plain noList noNested]
    refine (attempt_eq_ok _ _ _).mpr ⟨_, noText, ?_⟩
    simp only [noNumber]
    exact read

theorem expression_eq_some :
    expression feeds (fuel + 1) text = .ok (some (value, after)) ↔ ReadsExpression feeds fuel text value after := by
  refine ⟨fun run => ?_, expression_of_reads⟩
  by_cases bracket : ∃ inside, text = '[' :: inside
  · obtain ⟨inside, rfl⟩ := bracket
    exact readsExpression_of_brackets run
  by_cases parenthesis : ∃ inside, text = '(' :: inside
  · obtain ⟨inside, rfl⟩ := parenthesis
    exact readsExpression_of_parentheses run
  exact readsExpression_of_plain (not_exists.mp bracket) (not_exists.mp parenthesis) run

end Alternatives

end Inversion

end DeployRecipe.Recipe
