import DeployRecipe.Recipe.Lexeme
import DeployRecipe.Recipe.Trivia

/-!
The grammar of recipes. Readers that call each other share a bound on nested calls; `readDeclarations`
and `readExpression` give them one that grows with the length of the text.
-/

namespace DeployRecipe.Recipe

/-- Reads the path of a load expression after the word `load`. -/
def loadTarget? (text : List Char) : Option (Expression × List Char) :=
  match skipSpaces text with
  | '(' :: rest =>
    match quoted (skipTrivia rest) with
    | .ok (some (target, rest)) =>
      match skipTrivia rest with
      | ')' :: rest => some (target, rest)
      | _ => none
    | _ => none
  | _ => none

/-- The text holds the key of a map entry and a colon. -/
def startsMapEntry (text : List Char) : Bool :=
  match mapKey text with
  | .ok (some (_, rest)) =>
    match skipTrivia rest with
    | ':' :: _ => true
    | _ => false
  | _ => false

/-- Reads what follows the opening bracket of a map without entries. -/
def emptyMap? : List Char → Option (List Char)
  | ':' :: rest =>
    match skipTrivia rest with
    | ']' :: rest => some rest
    | _ => none
  | _ => none

/-- What follows an item of a list or a map: another item, or the closing bracket. -/
inductive AfterItem where
  | item (rest : List Char)
  | closed (rest : List Char)

/-- Reads a comma or the closing bracket; a comma may stand before the closing bracket. -/
def afterItem (text : List Char) : Except Halt AfterItem :=
  match skipTrivia text with
  | ']' :: rest => .ok (.closed rest)
  | ',' :: rest =>
    match skipTrivia rest with
    | ']' :: rest => .ok (.closed rest)
    | rest => .ok (.item rest)
  | rest => .error (.fault .closingBracket rest)

mutual

/-- Reads declarations as long as one starts. The text after them has no trivia at its start. -/
def declarations (feeds : Nat) : Nat → List Char → Except Halt (List Declaration × List Char)
  | 0, _ => .error .outOfFuel
  | fuel + 1, text => do
    let start := skipTrivia text
    match ← declaration feeds fuel start with
    | none => pure ([], start)
    | some (first, rest) =>
      let (others, rest) ← declarations feeds fuel rest
      pure (first :: others, rest)

/-- Reads a name and what is declared of it. -/
def declaration (feeds : Nat) : Nat → List Char → Except Halt (Option (Declaration × List Char))
  | 0, _ => .error .outOfFuel
  | fuel + 1, text => do
    match dottedName? text with
    | none => pure none
    | some (name, rest) =>
      let (body, rest) ← body feeds fuel (skipSpaces rest)
      pure (some (.mk (String.ofList name) (lineOf feeds text) body, rest))

/-- Reads what follows the name of a declaration. -/
def body (feeds : Nat) : Nat → List Char → Except Halt (Body × List Char)
  | 0, _ => .error .outOfFuel
  | fuel + 1, '{' :: inside => do
    let (inner, rest) ← block feeds fuel inside
    pure (.block inner, rest)
  | fuel + 1, '=' :: right => do
    match ← expression feeds fuel (skipTrivia right) with
    | some (value, rest) => pure (.assignment value, rest)
    | none => throw (.fault .value ('=' :: right))
  | fuel + 1, text => do
    match ← expression feeds fuel text with
    | some (first, rest) =>
      let (others, rest) ← moreArguments feeds fuel rest
      pure (.arguments (first :: others), rest)
    | none => throw (.fault .value text)

/-- Reads the declarations of a block and its closing brace. -/
def block (feeds : Nat) : Nat → List Char → Except Halt (List Declaration × List Char)
  | 0, _ => .error .outOfFuel
  | fuel + 1, text => do
    match ← declarations feeds fuel text with
    | (inner, '}' :: rest) => pure (inner, rest)
    | (_, rest) => throw (.fault .closingBrace rest)

/-- Reads the arguments after the first one; a comma stands on the line on which an argument ends. -/
def moreArguments (feeds : Nat) : Nat → List Char → Except Halt (List Expression × List Char)
  | 0, _ => .error .outOfFuel
  | fuel + 1, text => do
    match skipSpaces text with
    | ',' :: rest =>
      let start := skipTrivia rest
      match ← expression feeds fuel start with
      | some (value, rest) =>
        let (others, rest) ← moreArguments feeds fuel rest
        pure (value :: others, rest)
      | none => throw (.fault .value start)
    | _ => pure ([], text)

/-- Reads a value. -/
def expression (feeds : Nat) : Nat → List Char → Except Halt (Option (Expression × List Char))
  | 0, _ => .error .outOfFuel
  | fuel + 1, '[' :: inside => do
    match skipTrivia inside with
    | ']' :: rest => pure (some (.list [], rest))
    | start =>
      match emptyMap? start with
      | some rest => pure (some (.map [], rest))
      | none =>
        if startsMapEntry start then
          let (entries, rest) ← mapEntries feeds fuel start
          pure (some (.map entries, rest))
        else
          let (items, rest) ← listItems feeds fuel start
          pure (some (.list items, rest))
  | fuel + 1, '(' :: inside => do
    match ← expression feeds fuel (skipTrivia inside) with
    | none => pure none
    | some (value, rest) =>
      match skipTrivia rest with
      | ')' :: rest => pure (some (value, rest))
      | rest => throw (.fault .closingParenthesis rest)
  | fuel + 1, text => do
    match ← quoted text with
    | some found => pure (some found)
    | none =>
      match number? text with
      | some found => pure (some found)
      | none => word feeds fuel text

/-- Reads a keyword, a load expression, a block expression or a reference. -/
def word (feeds : Nat) : Nat → List Char → Except Halt (Option (Expression × List Char))
  | 0, _ => .error .outOfFuel
  | fuel + 1, text => do
    match dottedName? text with
    | none => pure none
    | some (characters, rest) =>
      let name := String.ofList characters
      if name = "true" then pure (some (.bool true, rest))
      else if name = "false" then pure (some (.bool false, rest))
      else if name = "null" then pure (some (.null, rest))
      else
        match if name = "load" then loadTarget? rest else none with
        | some (.text path, after) => pure (some (.load path, after))
        | some _ => throw (.fault .literalLoadPath rest)
        | none =>
          match skipSpaces rest with
          | '{' :: inside =>
            let (inner, after) ← block feeds fuel inside
            pure (some (.block name (lineOf feeds text) inner, after))
          | _ => pure (some (.reference name, rest))

/-- Reads the items of a list and its closing bracket. -/
def listItems (feeds : Nat) : Nat → List Char → Except Halt (List Expression × List Char)
  | 0, _ => .error .outOfFuel
  | fuel + 1, text => do
    match ← expression feeds fuel text with
    | none => throw (.fault .value text)
    | some (item, rest) =>
      match ← afterItem rest with
      | .closed rest => pure ([item], rest)
      | .item rest =>
        let (others, rest) ← listItems feeds fuel rest
        pure (item :: others, rest)

/-- Reads the entries of a map and its closing bracket. -/
def mapEntries (feeds : Nat) :
    Nat → List Char → Except Halt (List (String × Expression) × List Char)
  | 0, _ => .error .outOfFuel
  | fuel + 1, text => do
    match ← mapKey text with
    | none => throw (.fault .value text)
    | some (key, rest) =>
      match skipTrivia rest with
      | ':' :: rest =>
        let start := skipTrivia rest
        match ← expression feeds fuel start with
        | none => throw (.fault .value start)
        | some (value, rest) =>
          match ← afterItem rest with
          | .closed rest => pure ([(key, value)], rest)
          | .item rest =>
            let (others, rest) ← mapEntries feeds fuel rest
            pure ((key, value) :: others, rest)
      | rest => throw (.fault .value rest)

end

/-- A bound on nested calls that no text of the given length reaches. -/
def enoughFuel (text : List Char) : Nat :=
  4 * text.length + 4

/-- Reads a whole text as declarations. -/
def readDeclarations (source : String) : Except SyntaxError (List Declaration) :=
  let text := source.toList
  let feeds := lineFeeds text
  match declarations feeds (enoughFuel text) text with
  | .ok (found, []) => .ok found
  | .ok (_, rest) => .error (.ofHalt feeds (.fault .endOfText rest))
  | .error halt => .error (.ofHalt feeds halt)

/-- Reads a whole text as one value. -/
def readExpression (source : String) : Except SyntaxError Expression :=
  let text := source.toList
  let feeds := lineFeeds text
  let start := skipTrivia text
  match expression feeds (enoughFuel text) start with
  | .ok none => .error (.ofHalt feeds (.fault .value start))
  | .ok (some (value, rest)) =>
    match skipTrivia rest with
    | [] => .ok value
    | rest => .error (.ofHalt feeds (.fault .endOfText rest))
  | .error halt => .error (.ofHalt feeds halt)

end DeployRecipe.Recipe
