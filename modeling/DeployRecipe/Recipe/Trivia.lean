/-!
Trivia between the lexemes of a recipe: blanks, line breaks, semicolons and comments. A comment that
starts with `//` or `#` runs to the end of its line, one that starts with `/*` to the next `*/`.
-/

namespace DeployRecipe.Recipe

/-- The text from the end of the current line on. There is none if the line holds a carriage return
that no line feed follows. -/
def afterLine? : List Char → Option (List Char)
  | [] => some []
  | '\n' :: rest => some ('\n' :: rest)
  | '\r' :: '\n' :: rest => some ('\r' :: '\n' :: rest)
  | '\r' :: _ => none
  | _ :: rest => afterLine? rest

/-- The text after the first `*/`, if there is one. -/
def afterComment? : List Char → Option (List Char)
  | [] => none
  | '*' :: '/' :: rest => some rest
  | _ :: rest => afterComment? rest

/-- A single character that separates lexemes. -/
def isSeparator (character : Char) : Bool :=
  character = ' ' || character = '\t' || character = '\r' || character = '\n' || character = ';'

/-- The text after one separator or one comment, if it starts with one. -/
def afterTrivium? : List Char → Option (List Char)
  | '/' :: '/' :: rest => afterLine? rest
  | '/' :: '*' :: rest => afterComment? rest
  | '#' :: rest => afterLine? rest
  | character :: rest => if isSeparator character then some rest else none
  | [] => none

theorem afterLine?_length {text rest : List Char} (found : afterLine? text = some rest) :
    rest.length ≤ text.length := by
  fun_induction afterLine? text with
  | case1 | case2 | case3 => simp_all
  | case4 => simp at found
  | case5 _ _ _ _ _ inductionHypothesis =>
    have := inductionHypothesis found
    simp only [List.length_cons]
    omega

theorem afterComment?_length {text rest : List Char} (found : afterComment? text = some rest) :
    rest.length < text.length := by
  fun_induction afterComment? text with
  | case1 => simp at found
  | case2 remaining =>
    obtain rfl := Option.some.inj found
    simp only [List.length_cons]
    omega
  | case3 _ _ _ inductionHypothesis =>
    have := inductionHypothesis found
    simp only [List.length_cons]
    omega

theorem afterTrivium?_length {text rest : List Char} (found : afterTrivium? text = some rest) :
    rest.length < text.length := by
  unfold afterTrivium? at found
  split at found
  · have := afterLine?_length found
    simp only [List.length_cons]
    omega
  · have := afterComment?_length found
    simp only [List.length_cons]
    omega
  · have := afterLine?_length found
    simp only [List.length_cons]
    omega
  · split at found
    · simp_all
    · simp at found
  · simp at found

/-- The text without the trivia at its start. -/
def skipTrivia (text : List Char) : List Char :=
  match _found : afterTrivium? text with
  | some rest => skipTrivia rest
  | none => text
termination_by text.length
decreasing_by exact afterTrivium?_length _found

/-- The text without the spaces and tabs at its start. -/
def skipSpaces (text : List Char) : List Char :=
  text.dropWhile fun character => character = ' ' || character = '\t'

end DeployRecipe.Recipe
