import DeployRecipe.Yaml.Scalar
import DeployRecipe.Yaml.Token

/-!
Scalars, anchors, tags and directives as they stand in a text. Each function reads one of them from the
place where it begins and gives the rest of the text.
-/

namespace DeployRecipe.Yaml.Lexeme

/-- A fault of something that began at a place. -/
def fault (activity : String) (start : Mark) (problem : String) (mark : Mark) : Except Fault α :=
  .error ⟨problem, mark, some (activity, start)⟩

/-- A text that is put together from lines. A single line break between words is a blank, further ones are
kept, and blanks around breaks are dropped. Lists run backwards. -/
structure Folding where
  text : List Char
  blanks : List Char
  breaks : List Char
  /-- A line break came after the last word. -/
  broken : Bool
  /-- The first of the breaks was escaped. -/
  escaped : Bool

namespace Folding

def empty : Folding := ⟨[], [], [], false, false⟩

/-- What stands for the blanks and breaks between words. -/
def joint (folding : Folding) : List Char :=
  if !folding.broken then folding.blanks.reverse
  else if folding.escaped then folding.breaks.reverse
  else
    match folding.breaks.reverse with
    | ['\n'] => [' ']
    | '\n' :: more => more
    | breaks => breaks

/-- Adds what stands for the blanks and breaks. -/
def flush (folding : Folding) : Folding :=
  ⟨folding.joint.reverse ++ folding.text, [], [], false, false⟩

/-- Adds a character to a word. -/
def push (folding : Folding) (character : Char) : Folding :=
  let flushed := folding.flush
  { flushed with text := character :: flushed.text }

/-- Adds a blank or a break between words. -/
def space (folding : Folding) (character : Char) : Folding :=
  if isBreak character then
    { folding with blanks := [], breaks := character :: folding.breaks, broken := true }
  else if folding.broken then folding
  else { folding with blanks := character :: folding.blanks }

/-- Adds a break that is escaped. -/
def escapeBreak (folding : Folding) : Folding :=
  { folding.flush with broken := true, escaped := true }

/-- The text, with what stands for blanks and breaks at its end. -/
def whole (folding : Folding) : String :=
  String.ofList folding.flush.text.reverse

end Folding

def quotedActivity : String := "while scanning a quoted scalar"

/-- Checks that a quoted scalar can go on. -/
def checkQuoted (start : Mark) (spots : List Spot) : Except Fault Unit :=
  if Spot.startsDocument spots then
    fault quotedActivity start "found unexpected document indicator" (Spot.place spots)
  else if Spot.next spots = '\x00' then
    fault quotedActivity start "found unexpected end of stream" (Spot.place spots)
  else .ok ()

/-- Reads a scalar after its opening single quote. Two quotes stand for one. -/
def singleQuoted (start : Mark) (folding : Folding) : List Spot → Except Fault (String × List Spot)
  | [] => fault quotedActivity start "found unexpected end of stream" start
  | spot :: rest => do
    checkQuoted start (spot :: rest)
    if spot.character = '\'' then
      match rest with
      | ⟨'\'', _⟩ :: more => singleQuoted start (folding.push '\'') more
      | _ => pure (folding.whole, rest)
    else if separates spot.character then singleQuoted start (folding.space spot.character) rest
    else singleQuoted start (folding.push spot.character) rest

/-- What a character after a backslash stands for. -/
inductive Escape where
  | character (character : Char)
  /-- The number of hexadecimal digits of a code point. -/
  | code (digits : Nat)

def escape? : Char → Option Escape
  | '0' => some (.character '\x00')
  | 'a' => some (.character '\x07')
  | 'b' => some (.character '\x08')
  | 't' => some (.character '\t')
  | '\t' => some (.character '\t')
  | 'n' => some (.character '\n')
  | 'v' => some (.character '\x0b')
  | 'f' => some (.character '\x0c')
  | 'r' => some (.character '\r')
  | 'e' => some (.character '\x1b')
  | ' ' => some (.character ' ')
  | '"' => some (.character '"')
  | '/' => some (.character '/')
  | '\\' => some (.character '\\')
  | 'N' => some (.character '\u0085')
  | '_' => some (.character '\u00a0')
  | 'L' => some (.character '\u2028')
  | 'P' => some (.character '\u2029')
  | 'x' => some (.code 2)
  | 'u' => some (.code 4)
  | 'U' => some (.code 8)
  | _ => none

/-- The character whose code point stands here. -/
def codePoint (start : Mark) (digits : Nat) (spots : List Spot) : Except Fault Char :=
  let activity := "while parsing a quoted scalar"
  match Scalar.natural? 16 ((spots.take digits).map Spot.character) with
  | none => fault activity start "did not find expected hexdecimal number" (Spot.place spots)
  | some code =>
    if (0xD800 ≤ code ∧ code ≤ 0xDFFF) ∨ 0x10FFFF < code then
      fault activity start "found invalid Unicode character escape code" (Spot.place spots)
    else .ok (Char.ofNat code)

/-- Reads a scalar after its opening double quote. -/
def doubleQuoted (start : Mark) (folding : Folding) (spots : List Spot) :
    Except Fault (String × List Spot) :=
  match spots with
  | [] => fault quotedActivity start "found unexpected end of stream" start
  | spot :: rest => do
    checkQuoted start (spot :: rest)
    if spot.character = '"' then pure (folding.whole, rest)
    else if spot.character = '\\' then
      match rest with
      | [] => fault quotedActivity start "found unexpected end of stream" start
      | marker :: more =>
        if isBreak marker.character then doubleQuoted start folding.escapeBreak more
        else
          match escape? marker.character with
          | none =>
            fault "while parsing a quoted scalar" start "found unknown escape character" spot.mark
          | some (.character character) => doubleQuoted start (folding.push character) more
          | some (.code digits) =>
            let character ← codePoint start digits more
            doubleQuoted start (folding.push character) (more.drop digits)
    else if separates spot.character then doubleQuoted start (folding.space spot.character) rest
    else doubleQuoted start (folding.push spot.character) rest
termination_by spots.length
decreasing_by
  all_goals simp only [List.length_cons, List.length_drop]
  all_goals omega

/-- A plain scalar that was read. -/
structure Plain where
  text : String
  finish : Mark
  /-- A line break follows. -/
  broken : Bool
  rest : List Spot

/-- A character that ends a plain scalar between brackets. -/
def isFlowMark (character : Char) : Bool :=
  [',', '[', ']', '{', '}'].contains character

/-- Reads a plain scalar. Between brackets its lines need no indentation; else they are indented at least
as far as given. -/
def plain (start : Mark) (flow : Bool) (indent : Int) (folding : Folding) (finish : Mark) :
    List Spot → Except Fault Plain
  | [] => .ok ⟨String.ofList folding.text.reverse, finish, folding.broken, []⟩
  | spot :: rest =>
    let activity := "while scanning a plain scalar"
    let character := spot.character
    let here := spot :: rest
    let stop : Plain := ⟨String.ofList folding.text.reverse, finish, folding.broken, here⟩
    let spaced := folding.broken || !folding.blanks.isEmpty
    let unindented := decide ((spot.mark.column : Int) < indent)
    if character = '\x00' || Spot.startsDocument here then .ok stop
    else if isBlank character || isBreak character then
      if folding.broken && unindented && character = '\t' then
        fault activity start "found a tab character that violates indentation" spot.mark
      else plain start flow indent (folding.space character) finish rest
    else if (!flow && folding.broken && unindented) || (spaced && character = '#') then .ok stop
    else if flow && character = ':' && (isFlowMark (Spot.next rest) || Spot.next rest = '?') then
      fault activity start "found unexpected ':'" spot.mark
    else if (character = ':' && separates (Spot.next rest)) || (flow && isFlowMark character) then
      .ok stop
    else plain start flow indent (folding.push character) (Spot.place rest) rest

/-- How a block scalar treats the breaks at its end. -/
inductive Chomping where
  | strip
  | clip
  | keep

/-- The marks after the bar or angle of a block scalar. -/
structure BlockHeader where
  chomping : Chomping
  /-- The indentation, if it is given. -/
  increment : Option Nat

def blockActivity : String := "while scanning a block scalar"

def chomping? : Char → Option Chomping
  | '+' => some .keep
  | '-' => some .strip
  | _ => none

/-- Reads an indentation digit, if one stands here. -/
def incrementDigit (start : Mark) (spots : List Spot) : Except Fault (Option Nat × List Spot) :=
  let character := Spot.next spots
  if !character.isDigit then .ok (none, spots)
  else if character = '0' then
    fault blockActivity start "found an indentation indicator equal to 0" (Spot.place spots)
  else .ok (some (character.toNat - '0'.toNat), spots.tail)

/-- Reads the marks of a block scalar, in either order. -/
def blockHeader (start : Mark) (spots : List Spot) : Except Fault (BlockHeader × List Spot) := do
  match chomping? (Spot.next spots) with
  | some chomping =>
    let (increment, rest) ← incrementDigit start spots.tail
    pure (⟨chomping, increment⟩, rest)
  | none =>
    let (increment, rest) ← incrementDigit start spots
    match increment, chomping? (Spot.next rest) with
    | some increment, some chomping => pure (⟨chomping, some increment⟩, rest.tail)
    | increment, _ => pure (⟨.clip, increment⟩, rest)

/-- The text after blanks and a comment at the end of a line. -/
def skipLineEnd (spots : List Spot) : List Spot :=
  let rest := spots.dropWhile fun spot => isBlank spot.character
  if Spot.next rest = '#' then
    rest.dropWhile fun spot => !isBreak spot.character && spot.character ≠ '\x00'
  else rest

/-- The text after a line break, if one stands here. -/
def skipBreak (spots : List Spot) : List Spot :=
  if isBreak (Spot.next spots) then spots.tail else spots

/-- Reads empty lines of a block scalar, whose lines are indented as far as given, or by any number of
blanks if none is given. Gives the breaks, backwards, and the greatest indentation that was met. -/
def blockBreaks (start : Mark) (indent : Option Nat) (breaks : List Char) (greatest : Nat) :
    List Spot → Except Fault (List Char × Nat × List Spot)
  | [] => .ok (breaks, greatest, [])
  | spot :: rest =>
    let outside := indent.all (spot.mark.column < ·)
    if outside && spot.character = ' ' then blockBreaks start indent breaks greatest rest
    else
      let greatest := max greatest spot.mark.column
      if outside && spot.character = '\t' then
        fault blockActivity start
          "found a tab character where an indentation space is expected" spot.mark
      else if isBreak spot.character then
        blockBreaks start indent (spot.character :: breaks) greatest rest
      else .ok (breaks, greatest, spot :: rest)

/-- The part of a block scalar that was read. -/
structure BlockText where
  /-- Runs backwards. -/
  text : List Char
  /-- The break after the last line. -/
  lastBreak : List Char
  /-- The breaks of the empty lines after it, backwards. -/
  emptyLines : List Char
  /-- The last line started with a blank. -/
  blankLine : Bool

/-- Adds the breaks before a line that starts with a blank or not. -/
def BlockText.joinLine (block : BlockText) (literal startsBlank : Bool) : List Char :=
  let folded := !literal && block.lastBreak = ['\n'] && !block.blankLine && !startsBlank
  let joint :=
    if folded then (if block.emptyLines.isEmpty then [' '] else []) else block.lastBreak
  block.emptyLines ++ joint ++ block.text

/-- Reads the lines of a block scalar. -/
def blockLines (start : Mark) (literal : Bool) (indent : Nat) (block : BlockText) :
    Nat → List Spot → Except Fault (BlockText × List Spot)
  | 0, spots => .ok (block, spots)
  | fuel + 1, spots =>
    if (Spot.place spots).column ≠ indent || Spot.next spots = '\x00' then .ok (block, spots)
    else do
      let startsBlank := isBlank (Spot.next spots)
      let line := spots.takeWhile fun spot => !isBreak spot.character && spot.character ≠ '\x00'
      let rest := spots.drop line.length
      let lastBreak := if isBreak (Spot.next rest) then [Spot.next rest] else []
      let (emptyLines, _, rest) ← blockBreaks start (some indent) [] 0 (skipBreak rest)
      let text := (line.map Spot.character).reverse ++ block.joinLine literal startsBlank
      blockLines start literal indent ⟨text, lastBreak, emptyLines, startsBlank⟩ fuel rest

/-- Reads a block scalar after its bar or angle, in a block that is indented as given. -/
def blockScalar (start : Mark) (literal : Bool) (outer : Int) (spots : List Spot) :
    Except Fault (String × List Spot) := do
  let (header, rest) ← blockHeader start spots
  let rest := skipLineEnd rest
  if !isBreak (Spot.next rest) && Spot.next rest ≠ '\x00' then
    fault blockActivity start "did not find expected comment or line break" (Spot.place rest)
  let given := header.increment.map fun increment => outer.toNat + increment
  let (emptyLines, greatest, rest) ← blockBreaks start given [] 0 (skipBreak rest)
  let indent := given.getD (max greatest (max (outer + 1).toNat 1))
  let (block, rest) ← blockLines start literal indent ⟨[], [], emptyLines, false⟩ rest.length rest
  let ending :=
    match header.chomping with
    | .strip => []
    | .clip => block.lastBreak
    | .keep => block.emptyLines ++ block.lastBreak
  pure (String.ofList (ending ++ block.text).reverse, rest)

/-- Reads the name of an anchor or alias. -/
def anchorName (activity : String) (start : Mark) (spots : List Spot) :
    Except Fault (String × List Spot) :=
  let name := (spots.map Spot.character).takeWhile isNameCharacter
  let rest := spots.drop name.length
  let after := Spot.next rest
  if name.isEmpty || !(separates after || ['?', ':', ',', ']', '}', '%', '@', '`'].contains after) then
    fault activity start "did not find expected alphabetic or numeric character" (Spot.place rest)
  else .ok (String.ofList name, rest)

def tagActivity (directive : Bool) : String :=
  if directive then "while parsing a %TAG directive" else "while parsing a tag"

/-- A character of the address that a tag is. -/
def isAddressCharacter (brackets : Bool) (character : Char) : Bool :=
  isNameCharacter character ||
    [';', '/', '?', ':', '@', '&', '=', '+', '$', '.', '%', '!', '~', '*', '\'', '(', ')'].contains
      character ||
    (brackets && [',', '[', ']'].contains character)

/-- The bytes of an address, in which a percent sign and two digits stand for a byte. -/
def addressBytes (directive : Bool) (start mark : Mark) : List Char → Except Fault (List UInt8)
  | [] => .ok []
  | '%' :: high :: low :: rest => do
    match Scalar.natural? 16 [high, low] with
    | none => fault (tagActivity directive) start "did not find URI escaped octet" mark
    | some byte =>
      let others ← addressBytes directive start mark rest
      pure (byte.toUInt8 :: others)
  | character :: rest => do
    if character = '%' then fault (tagActivity directive) start "did not find URI escaped octet" mark
    let others ← addressBytes directive start mark rest
    pure (character.toString.toUTF8.toList ++ others)

/-- Reads the address that follows a handle. It may be empty if `head` says that something precedes. -/
def address (directive brackets head : Bool) (start : Mark) (spots : List Spot) :
    Except Fault (String × List Spot) := do
  let characters := (spots.map Spot.character).takeWhile (isAddressCharacter brackets)
  let rest := spots.drop characters.length
  if characters.isEmpty && !head then
    fault (tagActivity directive) start "did not find expected tag URI" (Spot.place rest)
  let bytes ← addressBytes directive start (Spot.place spots) characters
  match String.fromUTF8? ⟨bytes.toArray⟩ with
  | some text => pure (text, rest)
  | none =>
    fault (tagActivity directive) start "found an incorrect leading UTF-8 octet" (Spot.place spots)

/-- Reads the tag that begins here. -/
def tag (start : Mark) (flow : Bool) (spots : List Spot) : Except Fault (TokenKind × List Spot) := do
  let activity := "while scanning a tag"
  let (kind, rest) ←
    if Spot.ahead spots 1 = '<' then do
      let (text, rest) ← address false true false start (spots.drop 2)
      if Spot.next rest ≠ '>' then
        fault activity start "did not find the expected '>'" (Spot.place rest)
      pure (TokenKind.tag "" text, rest.tail)
    else do
      let name := ((spots.drop 1).map Spot.character).takeWhile isNameCharacter
      let rest := spots.drop (name.length + 1)
      if Spot.next rest = '!' then
        let (suffix, rest) ← address false false false start rest.tail
        pure (TokenKind.tag (String.ofList (['!'] ++ name ++ ['!'])) suffix, rest)
      else
        let (more, rest) ← address false false true start rest
        let suffix := String.ofList name ++ more
        pure (if suffix = "" then TokenKind.tag "" "!" else TokenKind.tag "!" suffix, rest)
  if !(separates (Spot.next rest) || (flow && Spot.next rest = ',')) then
    fault activity start "did not find expected whitespace or line break" (Spot.place rest)
  pure (kind, rest)

/-- The text after blanks. -/
def skipBlanks (spots : List Spot) : List Spot :=
  spots.dropWhile fun spot => isBlank spot.character

/-- Reads one of the numbers of a version. -/
def versionNumber (start : Mark) (spots : List Spot) : Except Fault (Nat × List Spot) :=
  let activity := "while scanning a %YAML directive"
  let digits := (spots.map Spot.character).takeWhile Char.isDigit
  if 9 < digits.length then
    fault activity start "found extremely long version number" (Spot.place (spots.drop 9))
  else
    match Scalar.natural? 10 digits with
    | some number => .ok (number, spots.drop digits.length)
    | none => fault activity start "did not find expected version number" (Spot.place spots)

/-- Reads the version after its name. -/
def version (start : Mark) (spots : List Spot) : Except Fault (TokenKind × List Spot) := do
  let (major, rest) ← versionNumber start (skipBlanks spots)
  if Spot.next rest ≠ '.' then
    fault "while scanning a %YAML directive" start "did not find expected digit or '.' character"
      (Spot.place rest)
  let (minor, rest) ← versionNumber start rest.tail
  pure (.version major minor, rest)

/-- Reads what a handle of tags stands for, after the name of the directive. -/
def tagDirective (start : Mark) (spots : List Spot) : Except Fault (TokenKind × List Spot) := do
  let activity := "while scanning a %TAG directive"
  let spots := skipBlanks spots
  if Spot.next spots ≠ '!' then
    fault "while scanning a tag" start "did not find expected '!'" (Spot.place spots)
  let name := (spots.tail.map Spot.character).takeWhile isNameCharacter
  let rest := spots.drop (name.length + 1)
  let closed := Spot.next rest = '!'
  if !closed && !name.isEmpty then
    fault "while parsing a tag directive" start "did not find expected '!'" (Spot.place rest)
  let handle := String.ofList (['!'] ++ name ++ (if closed then ['!'] else []))
  let rest := if closed then rest.tail else rest
  if !isBlank (Spot.next rest) then
    fault activity start "did not find expected whitespace" (Spot.place rest)
  let (text, rest) ← address true true false start (skipBlanks rest)
  if !separates (Spot.next rest) then
    fault activity start "did not find expected whitespace or line break" (Spot.place rest)
  pure (.tagDirective handle text, rest)

/-- Reads a directive after its percent sign. -/
def directive (start : Mark) (spots : List Spot) : Except Fault (TokenKind × List Spot) := do
  let activity := "while scanning a directive"
  let name := (spots.map Spot.character).takeWhile isNameCharacter
  let rest := spots.drop name.length
  if name.isEmpty then
    fault activity start "could not find expected directive name" (Spot.place rest)
  if !separates (Spot.next rest) then
    fault activity start "found unexpected non-alphabetical character" (Spot.place rest)
  let (kind, rest) ←
    match String.ofList name with
    | "YAML" => version start rest
    | "TAG" => tagDirective start rest
    | _ => fault activity start "found unknown directive name" (Spot.place rest)
  let rest := skipLineEnd rest
  if !isBreak (Spot.next rest) && Spot.next rest ≠ '\x00' then
    fault activity start "did not find expected comment or line break" (Spot.place rest)
  pure (kind, skipBreak rest)

end DeployRecipe.Yaml.Lexeme
