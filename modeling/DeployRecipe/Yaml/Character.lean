/-!
Classes of characters in YAML texts.
-/

namespace DeployRecipe.Yaml

def isBreak (character : Char) : Bool :=
  let code := character.toNat
  code = 0x0A || code = 0x0D || code = 0x85 || code = 0x2028 || code = 0x2029

/-- A character that no form but double quotes escapes may hold. -/
def isPrintable (character : Char) : Bool :=
  let code := character.toNat
  code = 0x0A || (0x20 ≤ code ∧ code ≤ 0x7E) || (0xA0 ≤ code ∧ code ≤ 0xD7FF) ||
    (0xE000 ≤ code ∧ code ≤ 0xFFFD ∧ code ≠ 0xFEFF) || 0x10000 ≤ code

/-- A character that may stand in a text at all. -/
def isAllowed (character : Char) : Bool :=
  isPrintable character || character = '\t' || character = '\r' || character.toNat = 0x85

def isBlank (character : Char) : Bool :=
  character = ' ' || character = '\t'

/-- A character after which a text stops being a single word. The null character stands for the end of a
text, in which it is not allowed. -/
def separates (character : Char) : Bool :=
  isBlank character || character = '\x00' || isBreak character

/-- A character of the names of anchors and tags. -/
def isNameCharacter (character : Char) : Bool :=
  character.isAlphanum || character = '_' || character = '-'

end DeployRecipe.Yaml
