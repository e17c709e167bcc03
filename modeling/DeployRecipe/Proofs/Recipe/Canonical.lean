import DeployRecipe.DottedName
import DeployRecipe.Recipe.Lexeme

/-!
The canonical text of declarations. Every declaration stands on a line of its own, blocks stand in braces,
and every text stands in quotes of either kind.
-/

namespace DeployRecipe.Recipe

/-- The two kinds of quotes. -/
inductive Quotes where
  | double
  | single
deriving DecidableEq, Repr

namespace Quotes

def mark : Quotes → Char
  | double => '"'
  | single => '\''

/-- The characters that a backslash stands before. -/
def isSpecial : Quotes → Char → Bool
  | double, character => character = '"' || character = '\\' || character = '$'
  | single, character => character = '\'' || character = '\\'

/-- What stands between the quotes for a text. -/
def content (quotes : Quotes) (text : List Char) : List Char :=
  text.flatMap fun character => if quotes.isSpecial character then ['\\', character] else [character]

/-- A text in quotes. -/
def write (quotes : Quotes) (text : String) : List Char :=
  quotes.mark :: (quotes.content text.toList ++ [quotes.mark])

end Quotes

/-- The quotes of every text in a tree, by the way from the root of the tree to the text: at each list of
parts the way goes to the first part or on to the others. -/
abbrev Quoting := List Bool → Quotes

namespace Quoting

def here (quoting : Quoting) : Quotes := quoting []

/-- The quotes in the first part. -/
def first (quoting : Quoting) : Quoting := fun way => quoting (true :: way)

/-- The quotes in the other parts. -/
def others (quoting : Quoting) : Quoting := fun way => quoting (false :: way)

end Quoting

namespace Canonical

def ofPart : TextPart → List Char
  | .literal text => Quotes.double.content text.toList
  | .reference name => '$' :: '{' :: (name.toList ++ ['}'])

/-- The text of a block with the given text of its declarations. -/
def inBraces (declarations : List Char) : List Char :=
  '{' :: '\n' :: (declarations ++ ['}'])

mutual

/-- The text of an expression. Floating point numbers have none. -/
def ofExpression (quoting : Quoting) : Expression → List Char
  | .null => "null".toList
  | .bool value => (if value then "true" else "false").toList
  | .int value => (toString value).toList
  | .float _ => []
  | .text value => quoting.here.write value
  | .interpolated parts => '"' :: (parts.flatMap ofPart ++ ['"'])
  | .list items => '[' :: (ofValues quoting items ++ [']'])
  | .map entries => '[' :: (ofEntries quoting entries ++ [']'])
  | .reference name => name.toList
  | .block name _ body => name.toList ++ ' ' :: inBraces (ofDeclarations quoting body)
  | .load path => "load(".toList ++ quoting.here.write path ++ [')']

/-- Values with commas between them. -/
def ofValues (quoting : Quoting) : List Expression → List Char
  | [] => []
  | first :: rest => ofExpression quoting.first first ++ ofMoreValues quoting.others rest

/-- Values with a comma before each. -/
def ofMoreValues (quoting : Quoting) : List Expression → List Char
  | [] => []
  | first :: rest =>
    ',' :: ' ' :: (ofExpression quoting.first first ++ ofMoreValues quoting.others rest)

/-- The entries of a map, or the colon of a map without entries. -/
def ofEntries (quoting : Quoting) : List (String × Expression) → List Char
  | [] => [':']
  | (key, value) :: rest =>
    quoting.first.here.write key ++
      ':' :: ' ' :: (ofExpression quoting.first.others value ++ ofMoreEntries quoting.others rest)

def ofMoreEntries (quoting : Quoting) : List (String × Expression) → List Char
  | [] => []
  | (key, value) :: rest =>
    ',' :: ' ' :: (quoting.first.here.write key ++
      ':' :: ' ' :: (ofExpression quoting.first.others value ++ ofMoreEntries quoting.others rest))

/-- One declaration on a line. -/
def ofDeclarations (quoting : Quoting) : List Declaration → List Char
  | [] => []
  | first :: rest => ofDeclaration quoting.first first ++ '\n' :: ofDeclarations quoting.others rest

def ofDeclaration (quoting : Quoting) : Declaration → List Char
  | .mk name _ body => name.toList ++ ' ' :: ofBody quoting body

def ofBody (quoting : Quoting) : Body → List Char
  | .block declarations => inBraces (ofDeclarations quoting declarations)
  | .arguments values => ofValues quoting values
  | .assignment value => '=' :: ' ' :: ofExpression quoting value

end

end Canonical

/-- The canonical text of declarations. -/
def canonicalText (quoting : Quoting) (declarations : List Declaration) : String :=
  String.ofList (Canonical.ofDeclarations quoting declarations)

/-- A letter or an underscore, followed by letters, digits and underscores. -/
def isIdentifier (text : String) : Bool :=
  match text.toList with
  | [] => false
  | first :: rest => isNameStart first && rest.all isNameCharacter

/-- Identifiers with dots between them. -/
def isDottedIdentifier (name : String) : Bool :=
  (DottedName.segments name).all isIdentifier

/-- A dotted name that is no value by itself. -/
def isReferable (name : String) : Bool :=
  isDottedIdentifier name && !(["true", "false", "null"].contains name)

/-- Whether the parts of a text are kept as they are when they are read: a literal part is not empty and
stands next to no other one, the name of a reference is trimmed and without a closing brace, and there is a
reference. -/
def arePlainParts (parts : List TextPart) : Bool :=
  parts.any isReference && parts.all isPlain && apart parts
where
  isReference : TextPart → Bool
    | .literal _ => false
    | .reference _ => true
  isPlain : TextPart → Bool
    | .literal text => text ≠ ""
    | .reference name =>
      name ≠ "" && Text.trim name.toList = name.toList && !name.toList.contains '}'
  apart : List TextPart → Bool
    | .literal _ :: .literal _ :: _ => false
    | _ :: rest => apart rest
    | [] => true

mutual

/-- The expression has a canonical text. -/
def isPrintableExpression : Expression → Bool
  | .null | .bool _ | .text _ | .load _ => true
  | .int value => isWordInt value
  | .float _ => false
  | .interpolated parts => arePlainParts parts
  | .list items => arePrintableValues items
  | .map entries => arePrintableEntries entries
  | .reference name => isReferable name
  | .block name _ body => isReferable name && arePrintable body

def arePrintableValues : List Expression → Bool
  | [] => true
  | first :: rest => isPrintableExpression first && arePrintableValues rest

def arePrintableEntries : List (String × Expression) → Bool
  | [] => true
  | (_, value) :: rest => isPrintableExpression value && arePrintableEntries rest

/-- The declarations have a canonical text: no number is a floating point number or too large for a word,
names are dotted identifiers, and there is at least one argument wherever arguments are given. -/
def arePrintable : List Declaration → Bool
  | [] => true
  | first :: rest => isPrintableDeclaration first && arePrintable rest

def isPrintableDeclaration : Declaration → Bool
  | .mk name _ body => isDottedIdentifier name && isPrintableBody body

def isPrintableBody : Body → Bool
  | .block declarations => arePrintable declarations
  | .arguments values => !values.isEmpty && arePrintableValues values
  | .assignment value => isPrintableExpression value

end

mutual

/-- The expression with no lines. -/
def unlinedExpression : Expression → Expression
  | .list items => .list (unlinedValues items)
  | .map entries => .map (unlinedEntries entries)
  | .block name _ body => .block name 0 (unlined body)
  | other => other

def unlinedValues : List Expression → List Expression
  | [] => []
  | first :: rest => unlinedExpression first :: unlinedValues rest

def unlinedEntries : List (String × Expression) → List (String × Expression)
  | [] => []
  | (key, value) :: rest => (key, unlinedExpression value) :: unlinedEntries rest

/-- The declarations with no lines. -/
def unlined : List Declaration → List Declaration
  | [] => []
  | first :: rest => unlinedDeclaration first :: unlined rest

def unlinedDeclaration : Declaration → Declaration
  | .mk name _ body => .mk name 0 (unlinedBody body)

def unlinedBody : Body → Body
  | .block declarations => .block (unlined declarations)
  | .arguments values => .arguments (unlinedValues values)
  | .assignment value => .assignment (unlinedExpression value)

end

end DeployRecipe.Recipe
