import DeployRecipe.Compilation.Block
import DeployRecipe.Recipe.Text
import DeployRecipe.RecipeFile.Base

/-!
The evaluation of declarations and expressions. Where they lead to another file, the evaluation of that
file is a parameter, so that everything here is recursion on the declarations of one file.
-/

namespace DeployRecipe

/-- How files are evaluated that a file leads to. -/
structure Deeper where
  /-- Evaluates the declarations of a fragment in place. -/
  declarations : RecipeContext → List Declaration → Evaluating Unit
  /-- Evaluates the expression of a fragment. -/
  expression : RecipeContext → Expression → Evaluating Value
  /-- Evaluates a whole recipe. -/
  recipe : RecipeContext → List Declaration → Compiling Entity

namespace Evaluation

/-- The declaration that extends a base. -/
def extendWord : String := "extend"

/-- The declaration that evaluates a fragment in place. -/
def loadWord : String := "load"

/-- The property that names a service. -/
def nameProperty : String := "name"

/-- How a recipe that another one leads to gets its environment: the table of the other recipe lies below
its own files or above them. -/
inductive Handover where
  | inherited (table : Table)
  | external (table : Table)

/-- What the environment of a recipe is made from that another one leads to. -/
def Handover.inputs (handover : Handover) (job : Job) (path : Path) : EnvironmentInputs :=
  let plain : EnvironmentInputs :=
    { recipeFile := path
      defaults := job.settings.defaults
      inherited := none
      propertiesFile := none
      overrides := none
      external := none
      ambient := job.ambient
      overridesLimit := job.settings.overridesLimit }
  match handover with
  | .inherited table => { plain with inherited := some table }
  | .external table => { plain with external := some table }

/-- Compiles a recipe that another one leads to. -/
def compileNested (deeper : Deeper) (job : Job) (path : Path) (handover : Handover) :
    Compiling Entity := do
  Session.enter path
  ensuring Session.leave do
    let declarations ← Session.parseFile job path
    let environment ← Session.recording ((handover.inputs job path).build job.files)
    deeper.recipe ⟨job, path, environment⟩ declarations

/-- Compiles a recipe that the current file leads to. -/
def compileFrom (deeper : Deeper) (context : RecipeContext) (path : Path) (handover : Handover) :
    Evaluating Entity := do
  let outer := (← get).currentFile context
  adapting (fun error => error.within outer)
    (inSession (compileNested deeper context.job path handover))

/-- The one path that the arguments of a directive stand for. -/
def onePath (context : RecipeContext) (line : Nat) (kind : EntityKind) (directive : String) :
    List Value → Evaluating String
  | [.text path] => pure path
  | _ => fail context line (.typeCoercionFailure kind directive .notOnePath)

/-- The absolute path of a fragment that is named relative to the current file. -/
def fragmentPath (context : RecipeContext) (line : Nat) (relative : String) : Evaluating Path := do
  let joined := ((← get).currentDirectory context).join ⟨relative⟩
  let files := context.job.files
  if files.isFile joined then
    match files.canonical joined with
    | .ok path => pure path
    | .error error => fail context line (.unreadableFile joined error)
  else fail context line (.fileNotFound joined)

/-- Evaluates the declarations of a fragment in place. -/
def splice (deeper : Deeper) (context : RecipeContext) (line : Nat) (values : Evaluating (List Value)) :
    Evaluating Unit := do
  let kind := ((← get).scopes.head?.map fun scope => scope.entity.kind).getD .application
  let path ← fragmentPath context line (← onePath context line kind loadWord (← values))
  inFragment context line path do
    let declarations ← inSession (Session.parseFile context.job path)
    withFragment path (deeper.declarations context declarations)

/-- Reads the expression of a fragment. -/
def readFragment (context : RecipeContext) (path : Path) : Evaluating Expression := do
  let text ← inSession (Session.read context.job path)
  match Recipe.readExpression text with
  | .ok expression => pure expression
  | .error error => throw (Session.refused path error)

/-- The value that a fragment holds. -/
def loadValue (deeper : Deeper) (context : RecipeContext) (line : Nat) (relative : String) :
    Evaluating Value := do
  let path ← fragmentPath context line relative
  inFragment context line path do
    let expression ← readFragment context path
    withFragment path (deeper.expression context expression)

/-- Checks that the open block may extend a base now, and gives its kind. -/
def extendingKind (state : Evaluation) : Except ErrorKind EntityKind :=
  match state.scopes with
  | [] => .error (.unsupportedExtension none)
  | scope :: _ =>
    let kind := scope.entity.kind
    if !(Registry.describe? kind.elementName).any Descriptor.extensible then
      .error (.unsupportedExtension (some kind))
    else if scope.position ≠ 0 then .error (.illegalExtendPosition kind)
    else .ok kind

/-- Puts a base in place of the open block. -/
def extendBase (deeper : Deeper) (context : RecipeContext) (line : Nat)
    (values : Evaluating (List Value)) : Evaluating Unit := do
  let kind ← demand context line (extendingKind (← get))
  let reference ← onePath context line kind extendWord (← values)
  let directory := (← get).currentDirectory context
  let path ← demand context line
    (BaseReference.resolve context.job.files reference directory context.job.settings.searchRoots)
  let base ← compileFrom deeper context path (.inherited context.environment.inheritable)
  if base.kind ≠ .service then
    fail context line (.wrongRootType .service base.kind)
  modify (mapInnermost fun scope => { scope with entity := base.addBase path.text })

/-- The directory next to the recipe that an open service of an application is named after, with the
name. -/
def serviceDirectory? (state : Evaluation) (context : RecipeContext) : Option (String × Path) :=
  match state.scopes with
  | [service, application] =>
    if application.entity.kind = .application ∧ service.entity.kind = .service then do
      let name ← service.entity.name?
      let parent ← context.recipeFile.parent?
      let directory := parent.join ⟨name⟩
      if context.job.files.isDirectory directory then some (name, directory) else none
    else none
  | _ => none

/-- Puts the service that a directory next to the recipe holds in place of an open service of an
application that bears the name of the directory. -/
def loadService (deeper : Deeper) (context : RecipeContext) (line : Nat) : Evaluating Unit := do
  match (← get).serviceDirectory? context with
  | none => pure ()
  | some (name, directory) =>
    let path ← demand context line
      (context.job.files.theFileEndingIn directory RecipeKind.service.suffix)
    let loaded ← compileFrom deeper context path (.external context.environment.inheritable)
    if loaded.kind ≠ .service then
      fail context line (.wrongRootType .service loaded.kind)
    let entity ← demand context line (loaded.setCoerced nameProperty (.text name))
    modify (mapInnermost fun scope => { scope with entity })

/-- Gives values to a name in the open block. To name a service may load it. -/
def assign (deeper : Deeper) (context : RecipeContext) (line : Nat) (name : String)
    (values : List Value) : Evaluating Unit := do
  bindName context line name values
  if name = nameProperty then loadService deeper context line

/-- Counts a declaration in the open block. -/
def countDeclaration : Evaluating Unit :=
  modify (mapInnermost fun scope => { scope with position := scope.position + 1 })

mutual

/-- The value of an expression in a declaration on a line. -/
def evaluate (deeper : Deeper) (context : RecipeContext) (line : Nat) : Expression → Evaluating Value
  | .null => pure .null
  | .bool value => pure (.bool value)
  | .int value => pure (.int value)
  | .float value => pure (.float value)
  | .text value => pure (.text value)
  | .interpolated parts => do
    let state ← get
    match TextPart.interpolate (state.resolve? context) parts with
    | .ok text => pure (.text text)
    | .error name => fail context line (.unresolvedReference name)
  | .reference name => do
    let state ← get
    match state.resolve? context name with
    | some value => pure value
    | none => fail context line (.unresolvedReference name)
  | .list items => do
    let values ← evaluateItems deeper context line items
    pure (.sequence values)
  | .map entries => do
    let mapping ← evaluateEntries deeper context line [] entries
    pure (.mapping mapping)
  | .block name blockLine body => do
    let entity ←
      evaluateBlock context name blockLine false (evaluateStatements deeper context body)
    pure entity.toValue
  | .load path => loadValue deeper context line path

def evaluateItems (deeper : Deeper) (context : RecipeContext) (line : Nat) :
    List Expression → Evaluating (List Value)
  | [] => pure []
  | first :: rest => do
    let value ← evaluate deeper context line first
    let others ← evaluateItems deeper context line rest
    pure (value :: others)

/-- Adds entries to a mapping; a later entry replaces an earlier one of the same key. -/
def evaluateEntries (deeper : Deeper) (context : RecipeContext) (line : Nat) (mapping : Mapping) :
    List (String × Expression) → Evaluating Mapping
  | [] => pure mapping
  | (key, item) :: rest => do
    let value ← evaluate deeper context line item
    evaluateEntries deeper context line (mapping.insert key value) rest

/-- Evaluates a declaration in an open block. -/
def evaluateStatement (deeper : Deeper) (context : RecipeContext) : Declaration → Evaluating Unit
  | .mk name line body => do
    evaluateBody deeper context name line body
    countDeclaration

def evaluateBody (deeper : Deeper) (context : RecipeContext) (name : String) (line : Nat) :
    Body → Evaluating Unit
  | .block declarations => do
    let entity ←
      evaluateBlock context name line true (evaluateStatements deeper context declarations)
    attach context line entity
  | .arguments expressions =>
    let values := evaluateItems deeper context line expressions
    if name = extendWord then extendBase deeper context line values
    else if name = loadWord then splice deeper context line values
    else do
      assign deeper context line name (← values)
  | .assignment expression => do
    let value ← evaluate deeper context line expression
    assign deeper context line name [value]

def evaluateStatements (deeper : Deeper) (context : RecipeContext) : List Declaration → Evaluating Unit
  | [] => pure ()
  | first :: rest => do
    evaluateStatement deeper context first
    evaluateStatements deeper context rest

end

/-- Evaluates a declaration outside of all blocks. -/
def evaluateTopLevel (deeper : Deeper) (context : RecipeContext) (declaration : Declaration) :
    Evaluating Unit :=
  let name := declaration.name
  let line := declaration.line
  match declaration.body with
  | .block declarations => do
    let entity ←
      evaluateBlock context name line true (evaluateStatements deeper context declarations)
    attach context line entity
  | .arguments expressions =>
    if name = loadWord then
      splice deeper context line (evaluateItems deeper context line expressions)
    else if name = extendWord then fail context line (.unsupportedExtension none)
    else fail context line (.unknownDeclaration name)
  | .assignment expression => do
    let value ← evaluate deeper context line expression
    modify fun state => { state with locals := state.locals.insert name value }

/-- Evaluates a declaration where it stands, in an open block or outside of all blocks. -/
def evaluateInPlace (deeper : Deeper) (context : RecipeContext) (declaration : Declaration) :
    Evaluating Unit := do
  if (← get).scopes.isEmpty then evaluateTopLevel deeper context declaration
  else evaluateStatement deeper context declaration

/-- Evaluates a whole recipe and gives its root. -/
def evaluateRecipe (deeper : Deeper) (context : RecipeContext) (declarations : List Declaration) :
    Compiling Entity := fun session =>
  match (declarations.forM (evaluateTopLevel deeper context)) (start session) with
  | .error error state => .error error state.session
  | .ok () state =>
    match state.root with
    | some root => .ok root state.session
    | none => .error (.inFile context.recipeFile .emptyRecipe) state.session

end Evaluation

namespace Deeper

/-- No file leads to another one. -/
def refuse : Deeper where
  declarations context _ := throw (.inFile context.recipeFile .tooDeep)
  expression context _ := throw (.inFile context.recipeFile .tooDeep)
  recipe context _ := throw (.inFile context.recipeFile .tooDeep)

/-- Files lead to files, one after the other, at most the given number of times. -/
def upTo : Nat → Deeper
  | 0 => refuse
  | depth + 1 =>
    { declarations := fun context declarations =>
        declarations.forM (Evaluation.evaluateInPlace (upTo depth) context)
      -- The expression of a fragment stands on its first line.
      expression := fun context expression => Evaluation.evaluate (upTo depth) context 1 expression
      recipe := fun context declarations => Evaluation.evaluateRecipe (upTo depth) context declarations }

end Deeper

end DeployRecipe
