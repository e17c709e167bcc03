import DeployRecipe.Yaml.Printer

/-!
The JSON text of values, with two blanks for each level.
-/

namespace DeployRecipe.Value

/-- Why a value has no JSON text. -/
inductive JsonError where
  /-- A key of a mapping is no scalar. -/
  | keyNotText
  /-- A key of a mapping is no finite number. -/
  | keyNotFinite
deriving DecidableEq, Repr

def JsonError.message : JsonError → String
  | .keyNotText => "key must be a string"
  | .keyNotFinite => "float key must be finite (got NaN or +/-inf)"

/-- Numbers are written as in YAML, but positive exponents have a sign. -/
def jsonLayout : Double.Layout :=
  { Yaml.numberLayout with signsExponent := true }

/-- A character between double quotes. -/
def jsonCharacter (character : Char) : List Char :=
  match character with
  | '"' => ['\\', '"']
  | '\\' => ['\\', '\\']
  | '\x08' => ['\\', 'b']
  | '\x0c' => ['\\', 'f']
  | '\n' => ['\\', 'n']
  | '\r' => ['\\', 'r']
  | '\t' => ['\\', 't']
  | _ =>
    let code := character.toNat
    if code < 0x20 then
      ['\\', 'u', '0', '0', Nat.digitChar (code / 16), Nat.digitChar (code % 16)]
    else [character]

/-- A text between double quotes. -/
def jsonText (content : String) : List Char :=
  ['"'] ++ content.toList.flatMap jsonCharacter ++ ['"']

/-- The text of a key; numbers and truth values stand between quotes. -/
def jsonKey : Value → Except JsonError (List Char)
  | .text content => .ok (jsonText content)
  | .bool value => .ok (jsonText (if value then "true" else "false"))
  | .int value => .ok (jsonText (toString value))
  | .float value =>
    if value.isFinite then .ok (jsonText (value.text jsonLayout)) else .error .keyNotFinite
  | _ => .error .keyNotText

/-- A new line at a level. -/
def jsonLine (level : Nat) : List Char :=
  '\n' :: List.replicate (2 * level) ' '

/-- Parts between brackets, each on a line of its own. -/
def jsonBlock (opening closing : Char) (level : Nat) (parts : List (List Char)) : List Char :=
  match parts with
  | [] => [opening, closing]
  | parts =>
    let lines := parts.map fun part => jsonLine (level + 1) ++ part
    [opening] ++ (lines.intersperse [',']).flatten ++ jsonLine level ++ [closing]

mutual

/-- The text of a value at a level. -/
def jsonAt (level : Nat) : Value → Except JsonError (List Char)
  | .null => .ok "null".toList
  | .bool value => .ok (if value then "true".toList else "false".toList)
  | .int value => .ok (toString value).toList
  | .float value =>
    .ok (if value.isFinite then (value.text jsonLayout).toList else "null".toList)
  | .text content => .ok (jsonText content)
  | .sequence items => do
    let parts ← jsonItems (level + 1) items
    pure (jsonBlock '[' ']' level parts)
  | .mapping entries => do
    let parts ← jsonEntries (level + 1) entries
    pure (jsonBlock '{' '}' level parts)
  | .tagged tag value => do
    let content ← jsonAt (level + 1) value
    pure (jsonBlock '{' '}' level [jsonText tag ++ [':', ' '] ++ content])

def jsonItems (level : Nat) : List Value → Except JsonError (List (List Char))
  | [] => .ok []
  | first :: rest => do
    let part ← jsonAt level first
    let parts ← jsonItems level rest
    pure (part :: parts)

def jsonEntries (level : Nat) : List (Value × Value) → Except JsonError (List (List Char))
  | [] => .ok []
  | (key, value) :: rest => do
    let name ← jsonKey key
    let content ← jsonAt level value
    let parts ← jsonEntries level rest
    pure ((name ++ [':', ' '] ++ content) :: parts)

end

/-- The JSON text of a value. -/
def toJson (value : Value) : Except JsonError String :=
  (jsonAt 0 value).map String.ofList

end DeployRecipe.Value
