import DeployRecipe.Number.Double

/-!
The tree of a recipe: a list of declarations, each a block, a list of arguments or an assignment.
Nothing here knows which names are blocks and which are properties.
-/

namespace DeployRecipe

/-- A piece of a quoted text: characters as they are, or a name to look up. -/
inductive TextPart where
  | literal (text : String)
  | reference (name : String)
deriving DecidableEq, Repr, Inhabited

mutual

/-- A value as it is written in a recipe. -/
inductive Expression where
  | null
  | bool (value : Bool)
  | int (value : Int)
  | float (value : Double)
  | text (value : String)
  /-- A quoted text with at least one name to look up. -/
  | interpolated (parts : List TextPart)
  | list (items : List Expression)
  | map (entries : List (String × Expression))
  /-- A dotted name, looked up when the expression is evaluated. -/
  | reference (name : String)
  /-- A block that stands for a value. -/
  | block (name : String) (line : Nat) (body : List Declaration)
  /-- The value held by another file. -/
  | load (path : String)

/-- A named statement and the line it starts on. -/
inductive Declaration where
  | mk (name : String) (line : Nat) (body : Body)

/-- What a declaration gives to its name. -/
inductive Body where
  | block (declarations : List Declaration)
  | arguments (values : List Expression)
  | assignment (value : Expression)

end

instance : Inhabited Expression := ⟨.null⟩

instance : Inhabited Body := ⟨.block []⟩

instance : Inhabited Declaration := ⟨.mk "" 1 default⟩

namespace Declaration

/-- The name, possibly dotted. -/
def name : Declaration → String
  | mk name _ _ => name

/-- The line of the name, counted from 1. -/
def line : Declaration → Nat
  | mk _ line _ => line

def body : Declaration → Body
  | mk _ _ body => body

end Declaration

end DeployRecipe
