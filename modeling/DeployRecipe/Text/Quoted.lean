import DeployRecipe.Text.Visible

/-!
Texts between double quotes in messages, with the characters that would not show escaped.
-/

namespace DeployRecipe.Text

/-- A character between double quotes. -/
def quotedCharacter (character : Char) : List Char :=
  match character with
  | '"' => ['\\', '"']
  | '\\' => ['\\', '\\']
  | '\n' => ['\\', 'n']
  | '\r' => ['\\', 'r']
  | '\t' => ['\\', 't']
  | '\x00' => ['\\', '0']
  | _ =>
    if isVisible character then [character]
    else ['\\', 'u', '{'] ++ Nat.toDigits 16 character.toNat ++ ['}']

/-- The text between double quotes. -/
def quote (text : String) : String :=
  String.ofList (['"'] ++ text.toList.flatMap quotedCharacter ++ ['"'])

end DeployRecipe.Text
