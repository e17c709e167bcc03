import DeployRecipe.Recipe.Declaration
import DeployRecipe.Recipe.Fault

/-!
The lexemes of a recipe that hold no other expression: names, numbers and quoted texts. Each reader
takes the text from its place on and gives what it read with the text after it.
-/

namespace DeployRecipe.Recipe

/-- The outcome of reading at a place: nothing that starts here, or a result and the text after it. -/
abbrev Reading (α : Type) := Except Halt (Option (α × List Char))

/-- ASCII letters and the underscore start a name. -/
def isNameStart (character : Char) : Bool :=
  character.isAlpha || character = '_'

/-- ASCII letters, ASCII digits and the underscore continue a name. -/
def isNameCharacter (character : Char) : Bool :=
  character.isAlphanum || character = '_'

/-- Reads a name without dots. -/
def name? : List Char → Option (List Char × List Char)
  | [] => none
  | first :: rest =>
    if isNameStart first then
      some (first :: rest.takeWhile isNameCharacter, rest.dropWhile isNameCharacter)
    else none

/-- Splits off the characters that continue a dotted name; a dot does so if a name starts after it. -/
def dottedTail : List Char → List Char × List Char
  | [] => ([], [])
  | '.' :: first :: rest =>
    if isNameStart first then
      let (tail, after) := dottedTail rest
      ('.' :: first :: tail, after)
    else ([], '.' :: first :: rest)
  | character :: rest =>
    if isNameCharacter character then
      let (tail, after) := dottedTail rest
      (character :: tail, after)
    else ([], character :: rest)

/-- Reads names joined by dots. -/
def dottedName? : List Char → Option (List Char × List Char)
  | [] => none
  | first :: rest =>
    if isNameStart first then
      let (tail, after) := dottedTail rest
      some (first :: tail, after)
    else none

/-- The number that decimal digits denote. -/
def digitsValue (digits : List Char) : Nat :=
  digits.foldl (fun value digit => 10 * value + (digit.toNat - '0'.toNat)) 0

/-- Reads one or more digits. -/
def digits? (text : List Char) : Option (List Char × List Char) :=
  match text.takeWhile Char.isDigit with
  | [] => none
  | digits => some (digits, text.dropWhile Char.isDigit)

/-- The digits after a point, none if no point with a digit follows. -/
def fractionDigits : List Char → List Char × List Char
  | '.' :: rest => (digits? rest).getD ([], '.' :: rest)
  | text => ([], text)

/-- The exponent of ten, if one follows. -/
def exponent? : List Char → Option (Int × List Char)
  | mark :: rest =>
    if mark = 'e' ∨ mark = 'E' then
      let (negative, unsigned) :=
        match rest with
        | '-' :: after => (true, after)
        | '+' :: after => (false, after)
        | _ => (false, rest)
      (digits? unsigned).map fun (digits, after) =>
        let size : Int := digitsValue digits
        (if negative then -size else size, after)
    else none
  | [] => none

/-- A suffix that asks for a floating point number. -/
def isFloatSuffix (character : Char) : Bool :=
  character = 'd' || character = 'D' || character = 'f' || character = 'F'

/-- A letter that may end a number. -/
def isNumberSuffix (character : Char) : Bool :=
  isFloatSuffix character || character = 'l' || character = 'L' || character = 'g' || character = 'G'

/-- Whole numbers are kept exactly from `-2 ^ 63` up to `2 ^ 63 - 1`. -/
def isWordInt (number : Int) : Bool :=
  -(Nat.pow 2 63 : Int) ≤ number ∧ number < Nat.pow 2 63

/-- Reads a number. A whole number without a floating point suffix stays whole if it fits a word. -/
def number? (text : List Char) : Option (Expression × List Char) := do
  let (negative, unsigned) :=
    match text with
    | '-' :: rest => (true, rest)
    | _ => (false, text)
  let (whole, rest) ← digits? unsigned
  let (fraction, rest) := fractionDigits rest
  let (exponent, rest) :=
    match exponent? rest with
    | some (exponent, after) => (some exponent, after)
    | none => (none, rest)
  let (suffix, rest) :=
    match rest with
    | character :: after => if isNumberSuffix character then (some character, after) else (none, rest)
    | [] => (none, rest)
  let float :=
    Double.ofDecimal negative (digitsValue (whole ++ fraction)) (exponent.getD 0 - fraction.length)
  let size : Int := digitsValue whole
  let int := if negative then -size else size
  if fraction.isEmpty && exponent.isNone && !suffix.any isFloatSuffix && isWordInt int then
    some (.int int, rest)
  else some (.float float, rest)

/-- The character that a backslash and the given character stand for between double quotes. -/
def unescape : Char → Char
  | 'n' => '\n'
  | 't' => '\t'
  | 'r' => '\r'
  | character => character

/-- Splits at the first closing brace: the text before it and the text after it. -/
def splitAtBrace? : List Char → Option (List Char × List Char)
  | [] => none
  | '}' :: rest => some ([], rest)
  | character :: rest => (splitAtBrace? rest).map fun (before, after) => (character :: before, after)

theorem splitAtBrace?_length {text before after : List Char}
    (found : splitAtBrace? text = some (before, after)) : after.length < text.length := by
  fun_induction splitAtBrace? text generalizing before with
  | case1 => simp at found
  | case2 rest => simp_all
  | case3 _ _ _ inductionHypothesis =>
    obtain ⟨⟨start, stop⟩, inner, same⟩ := Option.map_eq_some_iff.mp found
    simp only [Prod.mk.injEq] at same
    have := inductionHypothesis (same.2 ▸ inner)
    simp only [List.length_cons]
    omega

/-- Puts the pending characters, which are held in reverse, in front of the parts. -/
def flush (pending : List Char) (parts : List TextPart) : List TextPart :=
  if pending.isEmpty then parts else .literal (String.ofList pending.reverse) :: parts

/-- Reads up to the closing double quote. `opening` is the text from the opening quote on. -/
def doubleQuotedParts (opening pending : List Char) :
    List Char → Except Halt (List TextPart × List Char)
  | [] => .error (.fault .closingQuote opening)
  | '"' :: rest => .ok (flush pending [], rest)
  | ['\\'] => .error (.fault .closingQuote opening)
  | '\\' :: escaped :: rest => doubleQuotedParts opening (unescape escaped :: pending) rest
  | '$' :: '{' :: rest =>
    match _found : splitAtBrace? rest with
    | none => .error (.fault .closingInterpolation ('$' :: '{' :: rest))
    | some (inside, after) =>
      match Text.trim inside with
      | [] => .error (.fault .interpolatedName ('$' :: '{' :: rest))
      | key =>
        match doubleQuotedParts opening [] after with
        | .error halt => .error halt
        | .ok (parts, rest) => .ok (flush pending (.reference (String.ofList key) :: parts), rest)
  | character :: rest => doubleQuotedParts opening (character :: pending) rest
termination_by text => text.length
decreasing_by
  all_goals simp only [List.length_cons]
  · omega
  · have := splitAtBrace?_length _found
    omega
  · omega

/-- Parts with no name to look up are plain text. -/
def Expression.ofParts : List TextPart → Expression
  | [] => .text ""
  | [.literal text] => .text text
  | parts => .interpolated parts

/-- Reads up to the closing single quote; a backslash is special only before a quote or a backslash. -/
def singleQuotedText (opening : List Char) : List Char → Except Halt (List Char × List Char)
  | [] => .error (.fault .closingQuote opening)
  | '\'' :: rest => .ok ([], rest)
  | '\\' :: '\'' :: rest => (singleQuotedText opening rest).map fun (text, after) => ('\'' :: text, after)
  | '\\' :: '\\' :: rest => (singleQuotedText opening rest).map fun (text, after) => ('\\' :: text, after)
  | character :: rest =>
    (singleQuotedText opening rest).map fun (text, after) => (character :: text, after)

/-- Reads a text in double or single quotes. -/
def quoted (text : List Char) : Reading Expression :=
  match text with
  | '"' :: rest =>
    (doubleQuotedParts text [] rest).map fun (parts, after) => some (Expression.ofParts parts, after)
  | '\'' :: rest =>
    (singleQuotedText text rest).map fun (content, after) =>
      some (.text (String.ofList content), after)
  | _ => .ok none

/-- Reads the key of a map entry: a name, digits or a quoted text without names to look up. -/
def mapKey (text : List Char) : Reading String :=
  match name? text with
  | some (name, rest) => .ok (some (String.ofList name, rest))
  | none =>
    match digits? text with
    | some (digits, rest) => .ok (some (String.ofList digits, rest))
    | none =>
      match quoted text with
      | .ok (some (.text key, rest)) => .ok (some (key, rest))
      | .ok _ => .ok none
      | .error halt => .error halt

end DeployRecipe.Recipe
