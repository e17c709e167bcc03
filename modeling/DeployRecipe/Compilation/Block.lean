import DeployRecipe.Compilation.Scope

/-!
Opening and closing blocks, and giving values to properties of the open block.
-/

namespace DeployRecipe.Evaluation

/-- The content with which a block starts that is declared inside another one: what the parent holds
already, unless the parent is an application. -/
def inheritedContent (parent : Scope) (descriptor : Descriptor) : Except ErrorKind Entity :=
  let name := descriptor.elementName
  match parent.entity.kind, parent.entity.property name with
  | .application, _ => .ok (.fresh descriptor.kind)
  | _, .null => .ok (.fresh descriptor.kind)
  | kind, current =>
    match Entity.ofValue descriptor.kind current with
    | .ok entity => .ok entity
    | .error error => .error (.typeCoercionFailure kind name (.wrongShape error))

/-- Checks that no other block of the family was opened in the parent. -/
def checkFamily (parent : Scope) (descriptor : Descriptor) : Except ErrorKind Unit :=
  match descriptor.family, parent.exclusive with
  | some family, some (seen, existing) =>
    if seen = family then
      .error (.duplicateProcessingUnit descriptor.elementName existing.elementName family)
    else .ok ()
  | _, _ => .ok ()

/-- Notes the block in its parent if it belongs to a family. -/
def noteFamily (descriptor : Descriptor) (parent : Scope) : Scope :=
  match descriptor.family with
  | some family => { parent with exclusive := some (family, descriptor.kind) }
  | none => parent

/-- The content with which a block starts that is declared as a statement. -/
def openAttached (state : Evaluation) (descriptor : Descriptor) : Except ErrorKind Entity :=
  match state.scopes with
  | [] => .ok (.fresh descriptor.kind)
  | parent :: _ => do
    checkFamily parent descriptor
    inheritedContent parent descriptor

/-- Checks that a block may be declared here. Only one block can be the root. -/
def checkPlace (state : Evaluation) (descriptor : Descriptor) (attached : Bool) : Except ErrorKind Unit :=
  let parent := state.scopes.head?
  if attached && parent.isNone && state.root.isSome then
    .error (.illegalNestingOrRoot descriptor.elementName .secondRoot)
  else
    match descriptor.checkPlacement (parent.map fun scope => scope.entity.kind) with
    | .ok () => .ok ()
    | .error reason => .error (.illegalNestingOrRoot descriptor.elementName reason)

/-- Evaluates a block. An attached block is declared as a statement, other blocks stand for values. -/
def evaluateBlock (context : RecipeContext) (name : String) (line : Nat) (attached : Bool)
    (body : Evaluating Unit) : Evaluating Entity := do
  match Registry.describe? name with
  | none => fail context line (.unknownDeclaration name)
  | some descriptor =>
    let state ← get
    demand context line (checkPlace state descriptor attached)
    if attached then
      let entity ← demand context line (openAttached state descriptor)
      modify (mapInnermost (noteFamily descriptor))
      inScope entity body
    else inScope (.fresh descriptor.kind) body

/-- Puts a finished block into the open one, or makes it the root. -/
def attach (context : RecipeContext) (line : Nat) (entity : Entity) : Evaluating Unit := do
  let state ← get
  match state.scopes with
  | [] => set { state with root := some entity }
  | parent :: outer =>
    let (changed, used) ← demand context line (parent.entity.bindEntity parent.used entity)
    set { state with scopes := { parent with entity := changed, used } :: outer }

/-- Gives values to a name in the open block. -/
def bindName (context : RecipeContext) (line : Nat) (name : String) (values : List Value) :
    Evaluating Unit := do
  let state ← get
  match state.scopes with
  | [] => fail context line (.unknownDeclaration name)
  | scope :: outer =>
    let bound :=
      if DottedName.isDotted name then scope.entity.bindPath scope.used name values
      else scope.entity.bind scope.used name values
    let (changed, used) ← demand context line bound
    set { state with scopes := { scope with entity := changed, used } :: outer }

end DeployRecipe.Evaluation
