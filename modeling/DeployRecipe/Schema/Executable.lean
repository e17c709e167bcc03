import DeployRecipe.Value.Basic

/-!
Commands that a service runs: one line for a shell, a list of arguments, or a line for each operating
system.
-/

namespace DeployRecipe

inductive Executable where
  | command (line : String)
  | arguments (words : List String)
  | perSystem (lines : List (String × String))
deriving DecidableEq, Repr

namespace Executable

/-- The text that a value is. -/
def textOf? : Value → Option String
  | .text content => some content
  | _ => none

/-- The command that a value stands for. -/
def ofValue? : Value → Option Executable
  | .text line => some (.command line)
  | .sequence items => (items.mapM textOf?).map .arguments
  | .mapping entries =>
    (entries.mapM fun (system, line) => do
      pure ((← textOf? system), (← textOf? line))).map .perSystem
  | _ => none

/-- The command as a value. -/
def toValue : Executable → Value
  | .command line => .text line
  | .arguments words => .sequence (words.map Value.text)
  | .perSystem lines => .mapping (lines.map fun entry => (.text entry.1, .text entry.2))

/-- The command on one line. -/
def text : Executable → String
  | .command line => line
  | .arguments words => String.intercalate " " words
  | .perSystem lines =>
    "[" ++ String.intercalate ", " (lines.map fun entry => entry.1 ++ ": " ++ entry.2) ++ "]"

end Executable

end DeployRecipe
