import DeployRecipe.Number.Shortest
import DeployRecipe.Value.Basic
import DeployRecipe.Yaml.Character
import DeployRecipe.Yaml.Scalar

/-!
The YAML text of values, in block style. A text is plain where it reads back as that text, else in single
quotes; texts with line feeds are literal blocks; what neither form can hold is in double quotes.
-/

namespace DeployRecipe

namespace Yaml

/-- Floating point numbers always show a point or an exponent; sizes from `10 ^ -5` up to `10 ^ 16` are
written positionally. -/
def numberLayout : Double.Layout where
  leastTop := -4
  greatestTop := 16
  keepsPoint := true
  signsExponent := false
  positiveInfinity := ".inf"
  negativeInfinity := "-.inf"
  notANumber := ".nan"

/-- Two neighbouring characters satisfy the two tests. -/
def hasNeighbours (first second : Char → Bool) : List Char → Bool
  | left :: right :: rest => (first left && second right) || hasNeighbours first second (right :: rest)
  | _ => false

/-- The first character cannot start a plain text. -/
def startsReserved : List Char → Bool
  | [] => false
  | first :: rest =>
    ['#', ',', '[', ']', '{', '}', '&', '*', '!', '|', '>', '\'', '"', '%', '@', '`'].contains first ||
      ((first = '?' || first = ':' || first = '-') && rest.head?.all separates) ||
      ['-', '-', '-'].isPrefixOf (first :: rest) || ['.', '.', '.'].isPrefixOf (first :: rest)

/-- The text would read as something else than one plain text. -/
def hasIndicator (text : List Char) : Bool :=
  startsReserved text || hasNeighbours (· = ':') separates text || text.getLast? = some ':' ||
    hasNeighbours separates (· = '#') text

/-- The ways to write a text. -/
inductive Style where
  | plain
  | singleQuoted
  | doubleQuoted
  | literal
deriving DecidableEq, Repr

def allowsPlain (text : List Char) : Bool :=
  let edge (character : Char) : Bool := character = ' ' || isBreak character
  !(text.head?.any edge) && !(text.getLast?.any edge) && text.all isPrintable && !text.any isBreak &&
    !hasIndicator text

def allowsSingleQuoted (text : List Char) : Bool :=
  text.all isPrintable && !hasNeighbours isBreak (· = ' ') text && !hasNeighbours (· = ' ') isBreak text

def allowsLiteral (text : List Char) : Bool :=
  text.all isPrintable && !hasNeighbours (· = ' ') isBreak text && text.getLast? ≠ some ' '

/-- The way in which a text is written. -/
def Style.ofText (text : String) : Style :=
  let characters := text.toList
  if characters.contains '\n' then
    if allowsLiteral characters then .literal else .doubleQuoted
  else if Scalar.resolve text = .text ∧ !Scalar.isPaddedDigits characters ∧ allowsPlain characters then
    .plain
  else if allowsSingleQuoted characters then .singleQuoted
  else .doubleQuoted

def pad (width : Nat) : List Char :=
  List.replicate width ' '

/-- The text between single quotes. A line after a break starts with the indentation. -/
def singleQuotedText (indent : Nat) (afterBreak : Bool) : List Char → List Char
  | [] => if afterBreak then pad indent else []
  | character :: rest =>
    if isBreak character then character :: singleQuotedText indent true rest
    else
      (if afterBreak then pad indent else []) ++
        (if character = '\'' then ['\'', '\''] else [character]) ++ singleQuotedText indent false rest

/-- The last hexadecimal digits of a number, in capitals. -/
def hexText (width number : Nat) : List Char :=
  let digits := (Nat.toDigits 16 number).map Char.toUpper
  List.replicate (width - digits.length) '0' ++ digits

/-- A character between double quotes. -/
def doubleQuotedCharacter (character : Char) : List Char :=
  let code := character.toNat
  if character = '"' then ['\\', '"']
  else if character = '\\' then ['\\', '\\']
  else if isPrintable character ∧ !isBreak character then [character]
  else
    match code with
    | 0x00 => ['\\', '0']
    | 0x07 => ['\\', 'a']
    | 0x08 => ['\\', 'b']
    | 0x09 => ['\\', 't']
    | 0x0A => ['\\', 'n']
    | 0x0B => ['\\', 'v']
    | 0x0C => ['\\', 'f']
    | 0x0D => ['\\', 'r']
    | 0x1B => ['\\', 'e']
    | 0x85 => ['\\', 'N']
    | 0x2028 => ['\\', 'L']
    | 0x2029 => ['\\', 'P']
    | _ =>
      if code ≤ 0xFF then '\\' :: 'x' :: hexText 2 code
      else if code ≤ 0xFFFF then '\\' :: 'u' :: hexText 4 code
      else '\\' :: 'U' :: hexText 8 code

/-- The lines of a literal block; each line that is not empty starts with the indentation. -/
def literalText (indent : Nat) (afterBreak : Bool) : List Char → List Char
  | [] => []
  | character :: rest =>
    if isBreak character then character :: literalText indent true rest
    else (if afterBreak then pad indent else []) ++ character :: literalText indent false rest

/-- The marks after the bar of a literal block: the indentation where the text starts with a blank, and
what becomes of the breaks at the end. -/
def literalMarks (text : List Char) : List Char :=
  let indentation : List Char :=
    if text.head?.any (fun first => first = ' ' || isBreak first) then ['2'] else []
  let ending : List Char :=
    match text.reverse with
    | [] => ['-']
    | [last] => if isBreak last then ['+'] else ['-']
    | last :: previous :: _ =>
      if !isBreak last then ['-'] else if isBreak previous then ['+'] else []
  indentation ++ ending

/-- A text in some style; its further lines start with the indentation. -/
def styledText (style : Style) (indent : Nat) (text : List Char) : List Char :=
  match style with
  | .plain => text
  | .singleQuoted => ['\''] ++ singleQuotedText indent false text ++ ['\'']
  | .doubleQuoted => ['"'] ++ text.flatMap doubleQuotedCharacter ++ ['"']
  | .literal => ['|'] ++ literalMarks text ++ ['\n'] ++ literalText indent true text

/-- The greatest number of bytes of a key that stands on the line of its value. -/
def simpleKeyBytes : Nat := 128

/-- The text with a line feed at its end, if it does not end a line already. -/
def endLine (text : List Char) : List Char :=
  if text.getLast?.any isBreak then text else text ++ ['\n']

/-- The text of a value that takes no further lines of its own, except for the lines of a text. -/
def inline? (indent : Nat) : Value → Option (List Char)
  | .null => some "null".toList
  | .bool value => some (if value then "true".toList else "false".toList)
  | .int value => some (toString value).toList
  | .float value => some (value.text numberLayout).toList
  | .text value => some (styledText (Style.ofText value) indent value.toList)
  | .sequence [] => some ['[', ']']
  | .mapping [] => some ['{', '}']
  | _ => none

/-- The text of a key that stands on the line of its value. -/
def simpleKey? (key : Value) : Option (List Char) :=
  match key with
  | .text text =>
    if text.utf8ByteSize ≤ simpleKeyBytes ∧ !text.toList.any isBreak then inline? 0 key else none
  | _ => inline? 0 key

mutual

/-- A value after a dash or another mark, with its further lines at the given indentation. -/
def afterMark (indent : Nat) : Value → List Char
  | .sequence (first :: rest) => sequenceText indent (first :: rest)
  | .mapping (first :: rest) => mappingText indent (first :: rest)
  | .tagged tag value => tag.toList ++ afterKey indent value
  | value => (inline? indent value).getD []

/-- A value after a key and its colon, in a mapping whose parts are indented by two less than given. -/
def afterKey (indent : Nat) : Value → List Char
  | .sequence (first :: rest) =>
    ['\n'] ++ pad (indent - 2) ++ sequenceText (indent - 2) (first :: rest)
  | .mapping (first :: rest) => ['\n'] ++ pad indent ++ mappingText indent (first :: rest)
  | .tagged tag value => [' '] ++ tag.toList ++ afterKey indent value
  | value => [' '] ++ (inline? indent value).getD []

/-- The items of a sequence; the first one stands where the text starts. -/
def sequenceText (indent : Nat) : List Value → List Char
  | [] => []
  | [last] => ['-', ' '] ++ afterMark (indent + 2) last
  | first :: rest =>
    endLine (['-', ' '] ++ afterMark (indent + 2) first) ++ pad indent ++ sequenceText indent rest

/-- The entries of a mapping; the first one stands where the text starts. -/
def mappingText (indent : Nat) : List (Value × Value) → List Char
  | [] => []
  | (key, value) :: rest =>
    let entry :=
      match simpleKey? key with
      | some text => text ++ [':'] ++ afterKey (indent + 2) value
      | none =>
        endLine (['?', ' '] ++ afterMark (indent + 2) key) ++ pad indent ++ [':', ' '] ++
          afterMark (indent + 2) value
    match rest with
    | [] => entry
    | next :: others => endLine entry ++ pad indent ++ mappingText indent (next :: others)

end

/-- A mapping with a single entry. -/
def isSingleEntry : Value → Bool
  | .mapping [_] => true
  | _ => false

mutual

/-- No mapping with a single entry has such a mapping as its key. -/
def isWritable : Value → Bool
  | .sequence items => areWritable items
  | .mapping [(key, value)] => !isSingleEntry key && isWritable key && isWritable value
  | .mapping entries => haveWritable entries
  | .tagged _ value => isWritable value
  | _ => true

def areWritable : List Value → Bool
  | [] => true
  | first :: rest => isWritable first && areWritable rest

def haveWritable : List (Value × Value) → Bool
  | [] => true
  | (key, value) :: rest => isWritable key && isWritable value && haveWritable rest

end

/-- The YAML text of a value. -/
def render? (value : Value) : Option String :=
  if isWritable value then
    let text :=
      match inline? 2 value with
      | some text => text
      | none => afterMark 0 value
    some (String.ofList (endLine text))
  else none

end Yaml

end DeployRecipe
