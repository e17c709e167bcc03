import DeployRecipe.Compilation.Session
import DeployRecipe.Entity.Binding

/-!
The state in which the declarations of a recipe are evaluated: the blocks that are open, the names that the
recipe defines for itself, and the finished root.
-/

namespace DeployRecipe

/-- A block that is open. -/
structure Scope where
  entity : Entity
  used : UsedNames
  /-- The number of declarations that were evaluated in the block. -/
  position : Nat
  /-- The block of a family that was opened in this one. -/
  exclusive : Option (BlockFamily × EntityKind)

/-- A block that was opened with some content. -/
def Scope.opening (entity : Entity) : Scope :=
  ⟨entity, [], 0, none⟩

/-- The state of the evaluation of a recipe. -/
structure Evaluation where
  session : Session
  /-- The fragments that are being evaluated, the innermost first. -/
  fragments : List Path
  locals : Table
  /-- The open blocks, the innermost first. -/
  scopes : List Scope
  root : Option Entity

/-- A step of an evaluation. -/
abbrev Evaluating := EStateM CompileError Evaluation

/-- What stays the same while a recipe is evaluated. -/
structure RecipeContext where
  job : Job
  recipeFile : Path
  environment : Environment

namespace Evaluation

/-- The state before the first declaration. -/
def start (session : Session) : Evaluation :=
  ⟨session, [], [], [], none⟩

/-- The file whose declarations are being evaluated. -/
def currentFile (state : Evaluation) (context : RecipeContext) : Path :=
  state.fragments.head?.getD context.recipeFile

def currentDirectory (state : Evaluation) (context : RecipeContext) : Path :=
  (state.currentFile context).parent?.getD ⟨"."⟩

/-- The value of a name: a local one, else one of the environment. -/
def resolve? (state : Evaluation) (context : RecipeContext) (name : String) : Option Value :=
  (state.locals.lookup? name).orElse fun _ => context.environment.lookup? name

/-- The state with a change to the innermost open block. -/
def mapInnermost (change : Scope → Scope) (state : Evaluation) : Evaluation :=
  match state.scopes with
  | scope :: outer => { state with scopes := change scope :: outer }
  | [] => state

/-- Runs a step of the session. -/
def inSession (action : Compiling α) : Evaluating α := fun state =>
  match action state.session with
  | .ok result session => .ok result { state with session }
  | .error error session => .error error { state with session }

/-- Fails at a line of the current file. -/
def fail (context : RecipeContext) (line : Nat) (kind : ErrorKind) : Evaluating α := do
  let state ← get
  throw ((CompileError.inFile (state.currentFile context) kind).atLine line)

/-- Fails at a line if a result is a failure. -/
def demand (context : RecipeContext) (line : Nat) : Except ErrorKind α → Evaluating α
  | .ok result => pure result
  | .error kind => fail context line kind

/-- Evaluates the body of a block that starts with some content, and gives the finished entity. -/
def inScope (entity : Entity) (body : Evaluating Unit) : Evaluating Entity := fun state =>
  match body { state with scopes := .opening entity :: state.scopes } with
  | .error error state => .error error { state with scopes := state.scopes.tail }
  | .ok () state =>
    let finished := (state.scopes.head?.map Scope.entity).getD entity
    .ok finished { state with scopes := state.scopes.tail }

/-- Runs an action inside a fragment. A fragment that is being compiled already is refused. -/
def inFragment (context : RecipeContext) (line : Nat) (path : Path) (action : Evaluating α) :
    Evaluating α := do
  let outer := (← get).currentFile context
  adapting (fun error => (error.atLine line).within outer) (inSession (Session.enter path))
  adapting (fun error => error.within outer) <|
    ensuring (fun state => { state with session := state.session.leave }) action

/-- Evaluates what a fragment holds, in sight of its own path. -/
def withFragment (path : Path) (action : Evaluating α) : Evaluating α := do
  modify fun state => { state with fragments := path :: state.fragments }
  ensuring (fun state => { state with fragments := state.fragments.tail }) action

end Evaluation

end DeployRecipe
