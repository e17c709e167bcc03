import DeployRecipe.Yaml.Spot

/-!
The tokens of a YAML text.
-/

namespace DeployRecipe.Yaml

inductive TokenKind where
  | streamEnd
  | version (major minor : Nat)
  | tagDirective (handle expansion : String)
  | documentStart
  | documentEnd
  | blockSequenceStart
  | blockMappingStart
  | blockEnd
  | flowSequenceStart
  | flowSequenceEnd
  | flowMappingStart
  | flowMappingEnd
  | blockEntry
  | flowEntry
  | key
  | value
  | alias (name : String)
  | anchor (name : String)
  | tag (handle suffix : String)
  /-- A scalar; `plain` says that it has no quotes and is no block. -/
  | scalar (plain : Bool) (text : String)
deriving DecidableEq, Repr

structure Token where
  kind : TokenKind
  start : Mark
  finish : Mark
deriving DecidableEq, Repr

end DeployRecipe.Yaml
