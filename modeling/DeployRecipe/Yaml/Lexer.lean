import DeployRecipe.Yaml.Lexeme

/-!
The tokens of a YAML text. Blocks are marked by indentation alone, and a key is known as one only by the
colon after it; so tokens for blocks and keys are put in front of tokens that were read before.
-/

namespace DeployRecipe.Yaml

/-- A token that may turn out to be a key. -/
structure PossibleKey where
  /-- The token has to be a key, since it stands at the indentation of the block. -/
  required : Bool
  /-- The number of the token in the text. -/
  number : Nat
  mark : Mark

/-- The state of reading tokens. -/
structure Lexer where
  rest : List Spot
  /-- Tokens that were read and not yet given. -/
  queue : List Token
  /-- The number of tokens that were given. -/
  given : Nat
  /-- A key may begin here. -/
  keyAllowed : Bool
  /-- A possible key for each open bracket and one for the blocks around them, the innermost first. -/
  keys : List (Option PossibleKey)
  /-- The indentation of the innermost block. -/
  indent : Int
  /-- The indentations of the blocks around it. -/
  outer : List Int
  finished : Bool

namespace Lexer

/-- The state at the beginning of a text. -/
def start (spots : List Spot) : Lexer :=
  ⟨spots, [], 0, true, [none], -1, [], false⟩

def place (lexer : Lexer) : Mark :=
  Spot.place lexer.rest

/-- Brackets are open. -/
def isFlow (lexer : Lexer) : Bool :=
  1 < lexer.keys.length

/-- The greatest number of characters of a key. -/
def keyLimit : Nat := 1024

/-- The fault of a token that has to be a key and is none. -/
def missingColon (key : PossibleKey) (mark : Mark) : Fault :=
  ⟨"could not find expected ':'", mark, some ("while scanning a simple key", key.mark)⟩

/-- The key can no longer be one: it ends on its line and within a limit. -/
def isStale (mark : Mark) (key : PossibleKey) : Bool :=
  key.mark.line < mark.line || key.mark.index + keyLimit < mark.index

/-- Forgets a possible key. -/
def forget (mark : Mark) (key : PossibleKey) : Except Fault (Option PossibleKey) :=
  if key.required then .error (missingColon key mark) else .ok none

/-- Forgets possible keys that can no longer be keys. -/
def dropStale (lexer : Lexer) : Except Fault Lexer := do
  let keys ← lexer.keys.mapM fun key =>
    match key with
    | some key => if isStale lexer.place key then forget lexer.place key else pure (some key)
    | none => pure none
  pure { lexer with keys }

/-- Forgets the innermost possible key. -/
def dropKey (lexer : Lexer) : Except Fault Lexer := do
  match lexer.keys with
  | some key :: others => pure { lexer with keys := (← forget lexer.place key) :: others }
  | _ => pure lexer

/-- Notes that the next token may be a key. -/
def noteKey (lexer : Lexer) : Except Fault Lexer := do
  if lexer.keyAllowed then
    let lexer ← lexer.dropKey
    let required := !lexer.isFlow && decide (lexer.indent = (lexer.place.column : Int))
    let key : PossibleKey := ⟨required, lexer.given + lexer.queue.length, lexer.place⟩
    pure { lexer with keys := some key :: lexer.keys.tail }
  else pure lexer

/-- Adds a token that begins at a place and ends here. -/
def append (lexer : Lexer) (kind : TokenKind) (start : Mark) : Lexer :=
  { lexer with queue := lexer.queue ++ [⟨kind, start, lexer.place⟩] }

/-- Puts a token in front of the one with a number. -/
def insertBefore (lexer : Lexer) (number : Nat) (kind : TokenKind) (mark : Mark) : Lexer :=
  let index := number - lexer.given
  { lexer with queue := lexer.queue.take index ++ [⟨kind, mark, mark⟩] ++ lexer.queue.drop index }

/-- Opens a block at a column in front of the token with a number, if the column is deeper than the
innermost block. -/
def openBlock (lexer : Lexer) (column number : Nat) (kind : TokenKind) (mark : Mark) : Lexer :=
  if !lexer.isFlow && decide (lexer.indent < (column : Int)) then
    let lexer := lexer.insertBefore number kind mark
    { lexer with indent := column, outer := lexer.indent :: lexer.outer }
  else lexer

/-- The number of the next token. -/
def nextNumber (lexer : Lexer) : Nat :=
  lexer.given + lexer.queue.length

/-- Closes the given blocks, as long as they are deeper than a column. -/
def closeAll (column : Int) (lexer : Lexer) : List Int → Lexer
  | [] => lexer
  | indent :: outer =>
    if column < lexer.indent then
      closeAll column { lexer.append .blockEnd lexer.place with indent, outer } outer
    else lexer

/-- Closes the blocks that are deeper than a column. -/
def closeBlocks (lexer : Lexer) (column : Int) : Lexer :=
  if lexer.isFlow then lexer else closeAll column lexer lexer.outer

/-- The text after blanks, comments and breaks, and whether a key may begin there. -/
def skipTrivia (flow keyAllowed comment : Bool) : List Spot → List Spot × Bool
  | [] => ([], keyAllowed)
  | spot :: rest =>
    let character := spot.character
    if character = '\x00' then (spot :: rest, keyAllowed)
    else if isBreak character then skipTrivia flow (keyAllowed || !flow) false rest
    else if comment then skipTrivia flow keyAllowed true rest
    else if character = ' ' || (character = '\t' && (flow || !keyAllowed)) then
      skipTrivia flow keyAllowed false rest
    else if character = '#' then skipTrivia flow keyAllowed true rest
    else (spot :: rest, keyAllowed)

/-- Adds a token of some characters. -/
def appendMark (lexer : Lexer) (kind : TokenKind) (width : Nat) : Lexer :=
  let start := lexer.place
  { lexer with rest := lexer.rest.drop width }.append kind start

/-- The place where the text ends: at the beginning of a line. -/
def endMark (mark : Mark) : Mark :=
  if mark.column = 0 then mark else ⟨mark.index, mark.line + 1, 0⟩

def fetchEnd (lexer : Lexer) : Except Fault Lexer := do
  let lexer := { lexer with rest := [⟨'\x00', endMark lexer.place⟩] }
  let lexer ← (lexer.closeBlocks (-1)).dropKey
  pure { lexer.append .streamEnd lexer.place with keyAllowed := false, finished := true }

def fetchDirective (lexer : Lexer) : Except Fault Lexer := do
  let lexer ← (lexer.closeBlocks (-1)).dropKey
  let start := lexer.place
  let (kind, rest) ← Lexeme.directive start lexer.rest.tail
  pure { { lexer with rest }.append kind start with keyAllowed := false }

def fetchDocumentMark (lexer : Lexer) (kind : TokenKind) : Except Fault Lexer := do
  let lexer ← (lexer.closeBlocks (-1)).dropKey
  pure { lexer.appendMark kind 3 with keyAllowed := false }

def fetchOpening (lexer : Lexer) (kind : TokenKind) : Except Fault Lexer := do
  let lexer ← lexer.noteKey
  pure { lexer.appendMark kind 1 with keys := none :: lexer.keys, keyAllowed := true }

def fetchClosing (lexer : Lexer) (kind : TokenKind) : Except Fault Lexer := do
  let lexer ← lexer.dropKey
  let keys := if lexer.isFlow then lexer.keys.tail else lexer.keys
  pure { lexer.appendMark kind 1 with keys, keyAllowed := false }

def fetchComma (lexer : Lexer) : Except Fault Lexer := do
  let lexer ← lexer.dropKey
  pure { lexer.appendMark .flowEntry 1 with keyAllowed := true }

/-- Opens a block here for a mark that begins an entry, where one may begin. -/
def openHere (lexer : Lexer) (kind : TokenKind) (refusal : String) : Except Fault Lexer :=
  if lexer.isFlow then .ok lexer
  else if lexer.keyAllowed then
    .ok (lexer.openBlock lexer.place.column lexer.nextNumber kind lexer.place)
  else .error ⟨refusal, lexer.place, none⟩

def fetchDash (lexer : Lexer) : Except Fault Lexer := do
  let lexer ←
    lexer.openHere .blockSequenceStart "block sequence entries are not allowed in this context"
  let lexer ← lexer.dropKey
  pure { lexer.appendMark .blockEntry 1 with keyAllowed := true }

def fetchQuestionMark (lexer : Lexer) : Except Fault Lexer := do
  let lexer ← lexer.openHere .blockMappingStart "mapping keys are not allowed in this context"
  let lexer ← lexer.dropKey
  pure { lexer.appendMark .key 1 with keyAllowed := !lexer.isFlow }

def fetchColon (lexer : Lexer) : Except Fault Lexer := do
  match lexer.keys with
  | some key :: others =>
    let lexer := lexer.insertBefore key.number .key key.mark
    let lexer := lexer.openBlock key.mark.column key.number .blockMappingStart key.mark
    pure { lexer.appendMark .value 1 with keys := none :: others, keyAllowed := false }
  | _ =>
    let lexer ← lexer.openHere .blockMappingStart "mapping values are not allowed in this context"
    pure { lexer.appendMark .value 1 with keyAllowed := !lexer.isFlow }

/-- Adds a token that may be a key, read by the given function. -/
def fetchLexeme (lexer : Lexer) (read : Mark → List Spot → Except Fault (TokenKind × List Spot)) :
    Except Fault Lexer := do
  let lexer ← lexer.noteKey
  let start := lexer.place
  let (kind, rest) ← read start lexer.rest
  pure { { lexer with rest }.append kind start with keyAllowed := false }

def fetchBlockScalar (lexer : Lexer) (literal : Bool) : Except Fault Lexer := do
  let lexer ← lexer.dropKey
  let start := lexer.place
  let (text, rest) ← Lexeme.blockScalar start literal lexer.indent lexer.rest.tail
  pure { { lexer with rest }.append (.scalar false text) start with keyAllowed := true }

def fetchPlain (lexer : Lexer) : Except Fault Lexer := do
  let lexer ← lexer.noteKey
  let start := lexer.place
  let scalar ← Lexeme.plain start lexer.isFlow (lexer.indent + 1) .empty start lexer.rest
  let token : Token := ⟨.scalar true scalar.text, start, scalar.finish⟩
  pure { lexer with
    rest := scalar.rest
    queue := lexer.queue ++ [token]
    keyAllowed := scalar.broken }

/-- The characters that begin no plain scalar, unless some other one follows. -/
def isIndicator (character : Char) : Bool :=
  ['-', '?', ':', ',', '[', ']', '{', '}', '#', '&', '*', '!', '|', '>', '\'', '"', '%', '@', '`'].contains
    character

/-- A plain scalar begins with the two characters. -/
def startsPlain (flow : Bool) (first second : Char) : Bool :=
  !(separates first || isIndicator first) || (first = '-' && !isBlank second) ||
    (!flow && (first = '?' || first = ':') && !separates second)

/-- Reads one more token. -/
def fetch (lexer : Lexer) : Except Fault Lexer := do
  let (rest, keyAllowed) := skipTrivia lexer.isFlow lexer.keyAllowed false lexer.rest
  let lexer ← { lexer with rest, keyAllowed }.dropStale
  let lexer := lexer.closeBlocks lexer.place.column
  let flow := lexer.isFlow
  let first := Spot.next lexer.rest
  let second := Spot.ahead lexer.rest 1
  if first = '\x00' then lexer.fetchEnd
  else if lexer.place.column = 0 && first = '%' then lexer.fetchDirective
  else if Spot.isTriple '-' lexer.rest then lexer.fetchDocumentMark .documentStart
  else if Spot.isTriple '.' lexer.rest then lexer.fetchDocumentMark .documentEnd
  else if first = '[' then lexer.fetchOpening .flowSequenceStart
  else if first = '{' then lexer.fetchOpening .flowMappingStart
  else if first = ']' then lexer.fetchClosing .flowSequenceEnd
  else if first = '}' then lexer.fetchClosing .flowMappingEnd
  else if first = ',' then lexer.fetchComma
  else if first = '-' && separates second then lexer.fetchDash
  else if first = '?' && (flow || separates second) then lexer.fetchQuestionMark
  else if first = ':' && (flow || separates second) then lexer.fetchColon
  else if first = '*' then
    lexer.fetchLexeme fun start spots => do
      let (name, rest) ← Lexeme.anchorName "while scanning an alias" start spots.tail
      pure (.alias name, rest)
  else if first = '&' then
    lexer.fetchLexeme fun start spots => do
      let (name, rest) ← Lexeme.anchorName "while scanning an anchor" start spots.tail
      pure (.anchor name, rest)
  else if first = '!' then lexer.fetchLexeme fun start spots => Lexeme.tag start flow spots
  else if !flow && (first = '|' || first = '>') then lexer.fetchBlockScalar (first = '|')
  else if first = '\'' then
    lexer.fetchLexeme fun start spots => do
      let (text, rest) ← Lexeme.singleQuoted start .empty spots.tail
      pure (.scalar false text, rest)
  else if first = '"' then
    lexer.fetchLexeme fun start spots => do
      let (text, rest) ← Lexeme.doubleQuoted start .empty spots.tail
      pure (.scalar false text, rest)
  else if startsPlain flow first second then lexer.fetchPlain
  else
    Lexeme.fault "while scanning for the next token" lexer.place
      "found character that cannot start any token" lexer.place

/-- Reads tokens until the first one can be given: no key may still be put in front of it. -/
def fill : Nat → Lexer → Except Fault Lexer
  | 0, lexer => .ok lexer
  | fuel + 1, lexer => do
    if lexer.finished then pure lexer
    else if lexer.queue.isEmpty then fill fuel (← lexer.fetch)
    else
      let lexer ← lexer.dropStale
      if lexer.keys.any fun key => key.any fun key => key.number = lexer.given then
        fill fuel (← lexer.fetch)
      else pure lexer

/-- The tokens of the rest of a text, and the fault that ends them. -/
def tokens : Nat → Lexer → List Token × Option Fault
  | 0, _ => ([], none)
  | fuel + 1, lexer =>
    match fill (lexer.rest.length + 1) lexer with
    | .error fault => ([], some fault)
    | .ok lexer =>
      match lexer.queue with
      | [] => ([], none)
      | token :: queue =>
        let (others, fault) := tokens fuel { lexer with queue, given := lexer.given + 1 }
        (token :: others, fault)

end Lexer

/-- The tokens of a text, and the fault that ends them before the end of the text. -/
def tokens (spots : List Spot) : List Token × Option Fault :=
  -- Each character gives at most a key, the beginning and the end of a block, and itself.
  Lexer.tokens (4 * spots.length + 4) (Lexer.start spots)

end DeployRecipe.Yaml
