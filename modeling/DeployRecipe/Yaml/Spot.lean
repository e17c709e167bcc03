import DeployRecipe.Yaml.Character

/-!
The characters of a YAML text with their places, and faults that name a place.
-/

namespace DeployRecipe.Yaml

/-- A place in a text, counted from zero. -/
structure Mark where
  index : Nat
  line : Nat
  column : Nat
deriving DecidableEq, Repr

namespace Mark

def start : Mark := ⟨0, 0, 0⟩

def isStart (mark : Mark) : Bool :=
  mark.line = 0 && mark.column = 0

/-- The place in messages. -/
def text (mark : Mark) : String :=
  if mark.isStart then "position " ++ toString mark.index
  else "line " ++ toString (mark.line + 1) ++ " column " ++ toString (mark.column + 1)

/-- The place after a character. -/
def nextColumn (mark : Mark) : Mark :=
  ⟨mark.index + 1, mark.line, mark.column + 1⟩

/-- The place after a line break of some characters. -/
def nextLine (mark : Mark) (width : Nat) : Mark :=
  ⟨mark.index + width, mark.line + 1, 0⟩

end Mark

/-- Why a text is not YAML. -/
structure Fault where
  problem : String
  mark : Mark
  /-- What was being read, and where that began. -/
  context : Option (String × Mark)
deriving DecidableEq, Repr

/-- The fault with its places. The start of the text is not named. -/
def Fault.message (fault : Fault) : String :=
  let place :=
    if !fault.mark.isStart then " at " ++ fault.mark.text
    else if fault.mark.index ≠ 0 then " at position " ++ toString fault.mark.index
    else ""
  let context :=
    match fault.context with
    | none => ""
    | some (activity, mark) =>
      let same := mark.line = fault.mark.line ∧ mark.column = fault.mark.column
      ", " ++ activity ++ (if same then "" else " at " ++ mark.text)
  fault.problem ++ place ++ context

/-- A character with its place. -/
structure Spot where
  character : Char
  mark : Mark
deriving DecidableEq, Repr

/-- The characters with their places. A line break of any kind but the separators of lines and paragraphs
is a line feed, and a null character stands at the end. -/
def spotsFrom (mark : Mark) : List Char → List Spot
  | [] => [⟨'\x00', mark⟩]
  | '\r' :: '\n' :: rest => ⟨'\n', mark⟩ :: spotsFrom (mark.nextLine 2) rest
  | character :: rest =>
    if isBreak character then
      let separator := character.toNat = 0x2028 ∨ character.toNat = 0x2029
      ⟨if separator then character else '\n', mark⟩ :: spotsFrom (mark.nextLine 1) rest
    else ⟨character, mark⟩ :: spotsFrom mark.nextColumn rest

/-- The offset in bytes of the first character that is not allowed. -/
def firstRefused? (offset : Nat) : List Char → Option Nat
  | [] => none
  | character :: rest =>
    if isAllowed character then firstRefused? (offset + character.utf8Size) rest else some offset

/-- The characters of a text with their places. A byte order mark at the beginning does not count. -/
def spots (text : String) : Except Fault (List Spot) :=
  let (offset, characters) :=
    match text.toList with
    | '\uFEFF' :: rest => (3, rest)
    | characters => (0, characters)
  match firstRefused? offset characters with
  | some offset => .error ⟨"control characters are not allowed", ⟨offset, 0, 0⟩, none⟩
  | none => .ok (spotsFrom Mark.start characters)

namespace Spot

/-- The character some places ahead. -/
def ahead (spots : List Spot) (count : Nat) : Char :=
  (spots[count]?.map Spot.character).getD '\x00'

/-- The next character. -/
def next (spots : List Spot) : Char :=
  ahead spots 0

/-- The place of the next character. -/
def place (spots : List Spot) : Mark :=
  (spots.head?.map Spot.mark).getD Mark.start

/-- Three of a character stand alone at the beginning of a line. -/
def isTriple (character : Char) (spots : List Spot) : Bool :=
  (place spots).column = 0 && ahead spots 0 = character && ahead spots 1 = character &&
    ahead spots 2 = character && separates (ahead spots 3)

/-- A line that separates documents begins here. -/
def startsDocument (spots : List Spot) : Bool :=
  isTriple '-' spots || isTriple '.' spots

end Spot

end DeployRecipe.Yaml
