import DeployRecipe.Proofs.Compilation.Steps

/-!
The moments of a compilation that tell how files lead to files: a file is entered, or a block is given its
name. They are listed along the evaluation, up to the first step that fails.
-/

namespace DeployRecipe

/-- A moment of a compilation. -/
inductive Moment where
  /-- A file was entered, which is the innermost one that is being compiled. -/
  | entered (session : Session)
  /-- The open block was given a name. -/
  | named (context : RecipeContext) (state : Evaluation)

namespace Moment

/-- The session at the moment. -/
def session : Moment → Session
  | entered session => session
  | named _ state => state.session

/-- The directory that a service of an application is named after at the moment, with the name. -/
def service? : Moment → Option (String × Path)
  | entered _ => none
  | named context state => state.serviceDirectory? context

/-- The file that is found in that directory. -/
def serviceFile? : Moment → Option Path
  | entered _ => none
  | named context state => do
    let (_, directory) ← state.serviceDirectory? context
    (context.job.files.theFileEndingIn directory RecipeKind.service.suffix).toOption

theorem serviceFile?_eq_some {context : RecipeContext} {state : Evaluation} {path : Path} :
    (named context state).serviceFile? = some path ↔
      ∃ name directory, state.serviceDirectory? context = some (name, directory) ∧
        context.job.files.theFileEndingIn directory RecipeKind.service.suffix = .ok path := by
  rw [serviceFile?]
  cases state.serviceDirectory? context with
  | none => simp
  | some pair =>
    obtain ⟨name, directory⟩ := pair
    cases searched : context.job.files.theFileEndingIn directory RecipeKind.service.suffix <;>
      simp [searched, Except.toOption]

end Moment

/-- The moments of the files that a file leads to. -/
structure Watch where
  declarations : RecipeContext → List Declaration → Evaluation → List Moment
  expression : RecipeContext → Expression → Evaluation → List Moment
  recipe : RecipeContext → List Declaration → Session → List Moment

section Combinators

variable {ε σ α : Type}

/-- The moments after an action that ends well. -/
def followed (action : EStateM ε σ α) (more : α → σ → List Moment) : σ → List Moment := fun state =>
  match action state with
  | .ok value after => more value after
  | .error _ _ => []

/-- The moments of an action and those after it. -/
def andThen (action : EStateM ε σ α) (here : σ → List Moment) (more : α → σ → List Moment) :
    σ → List Moment := fun state =>
  here state ++ followed action more state

/-- The moments of actions one after the other. -/
def oneByOne (action : α → EStateM ε σ Unit) (here : α → σ → List Moment) : List α → σ → List Moment
  | [] => fun _ => []
  | first :: rest => andThen (action first) (here first) fun _ => oneByOne action here rest

end Combinators

namespace Evaluation

/-- The steps at the start of a block, up to the content with which it starts. -/
def openBlock (context : RecipeContext) (name : String) (line : Nat) (attached : Bool) :
    Evaluating Entity := do
  match Registry.describe? name with
  | none => fail context line (.unknownDeclaration name)
  | some descriptor =>
    let state ← get
    demand context line (checkPlace state descriptor attached)
    if attached then
      let entity ← demand context line (openAttached state descriptor)
      modify (mapInnermost (noteFamily descriptor))
      pure entity
    else pure (.fresh descriptor.kind)

theorem evaluateBlock_eq (context : RecipeContext) (name : String) (line : Nat) (attached : Bool)
    (body : Evaluating Unit) :
    evaluateBlock context name line attached body =
      openBlock context name line attached >>= fun entity => inScope entity body := by
  unfold evaluateBlock openBlock
  cases Registry.describe? name with
  | none => rfl
  | some descriptor =>
    cases attached <;> simp only [bind_assoc, pure_bind, Bool.false_eq_true, if_true, if_false]

section Moments

variable (deeper : Deeper) (watch : Watch) (context : RecipeContext) (line : Nat)

/-- The moments of a recipe that another one leads to. -/
def momentsNested (job : Job) (path : Path) (handover : Handover) : Session → List Moment := fun session =>
  if session.isActive path then []
  else
    let inside := { session with active := path :: session.active }
    .entered inside :: followed (Session.parseFile job path) (fun declarations =>
      followed (Session.recording ((handover.inputs job path).build job.files)) fun environment =>
        watch.recipe ⟨job, path, environment⟩ declarations) inside

def momentsFrom (path : Path) (handover : Handover) : Evaluation → List Moment := fun state =>
  momentsNested watch context.job path handover state.session

/-- The moments of what is done inside a fragment. -/
def momentsInFragment (path : Path) (here : Evaluation → List Moment) : Evaluation → List Moment := fun state =>
  if state.session.isActive path then []
  else
    let session := { state.session with active := path :: state.session.active }
    .entered session :: here { state with session }

def momentsWithFragment (path : Path) (here : Evaluation → List Moment) : Evaluation → List Moment := fun state =>
  here { state with fragments := path :: state.fragments }

def momentsSplice (values : Evaluating (List Value)) (here : Evaluation → List Moment) :
    Evaluation → List Moment := fun state =>
  let kind := (state.scopes.head?.map fun scope => scope.entity.kind).getD .application
  andThen values here (fun given =>
    followed (onePath context line kind loadWord given) fun relative =>
      followed (fragmentPath context line relative) fun path =>
        momentsInFragment path (followed (inSession (Session.parseFile context.job path)) fun declarations =>
          momentsWithFragment path (watch.declarations context declarations))) state

def momentsLoad (relative : String) : Evaluation → List Moment :=
  followed (fragmentPath context line relative) fun path =>
    momentsInFragment path (followed (readFragment context path) fun expression =>
      momentsWithFragment path (watch.expression context expression))

def momentsExtend (values : Evaluating (List Value)) (here : Evaluation → List Moment) :
    Evaluation → List Moment := fun state =>
  followed (demand context line (extendingKind state)) (fun kind =>
    andThen values here fun given =>
      followed (onePath context line kind extendWord given) fun reference between =>
        followed (demand context line (BaseReference.resolve context.job.files reference
            (between.currentDirectory context) context.job.settings.searchRoots))
          (fun path => momentsFrom watch context path (.inherited context.environment.inheritable)) between) state

/-- The moments from when a block has its name. -/
def momentsService : Evaluation → List Moment := fun state =>
  .named context state ::
    match state.serviceDirectory? context with
    | none => []
    | some (_, directory) =>
      followed (demand context line (context.job.files.theFileEndingIn directory RecipeKind.service.suffix))
        (fun path => momentsFrom watch context path (.external context.environment.inheritable)) state

def momentsAssign (name : String) (values : List Value) : Evaluation → List Moment :=
  followed (bindName context line name values) fun _ =>
    if name = nameProperty then momentsService watch context line else fun _ => []

def momentsBlock (name : String) (attached : Bool) (here : Evaluation → List Moment) :
    Evaluation → List Moment :=
  followed (openBlock context name line attached) fun entity state =>
    here { state with scopes := .opening entity :: state.scopes }

end Moments

mutual

/-- The moments of an expression. -/
def momentsExpression (deeper : Deeper) (watch : Watch) (context : RecipeContext) (line : Nat) :
    Expression → Evaluation → List Moment
  | .list items => momentsItems deeper watch context line items
  | .map entries => momentsEntries deeper watch context line entries
  | .block name blockLine body =>
    momentsBlock context blockLine name false (momentsStatements deeper watch context body)
  | .load path => momentsLoad watch context line path
  | _ => fun _ => []

def momentsItems (deeper : Deeper) (watch : Watch) (context : RecipeContext) (line : Nat) :
    List Expression → Evaluation → List Moment
  | [] => fun _ => []
  | first :: rest =>
    andThen (evaluate deeper context line first) (momentsExpression deeper watch context line first) fun _ =>
      momentsItems deeper watch context line rest

def momentsEntries (deeper : Deeper) (watch : Watch) (context : RecipeContext) (line : Nat) :
    List (String × Expression) → Evaluation → List Moment
  | [] => fun _ => []
  | (_, item) :: rest =>
    andThen (evaluate deeper context line item) (momentsExpression deeper watch context line item) fun _ =>
      momentsEntries deeper watch context line rest

/-- The moments of a declaration in an open block. -/
def momentsStatement (deeper : Deeper) (watch : Watch) (context : RecipeContext) :
    Declaration → Evaluation → List Moment
  | .mk name line body => momentsBody deeper watch context name line body

def momentsBody (deeper : Deeper) (watch : Watch) (context : RecipeContext) (name : String) (line : Nat) :
    Body → Evaluation → List Moment
  | .block declarations =>
    momentsBlock context line name true (momentsStatements deeper watch context declarations)
  | .arguments expressions =>
    let values := evaluateItems deeper context line expressions
    let here := momentsItems deeper watch context line expressions
    if name = extendWord then momentsExtend watch context line values here
    else if name = loadWord then momentsSplice watch context line values here
    else andThen values here fun given => momentsAssign watch context line name given
  | .assignment expression =>
    andThen (evaluate deeper context line expression) (momentsExpression deeper watch context line expression)
      fun value => momentsAssign watch context line name [value]

def momentsStatements (deeper : Deeper) (watch : Watch) (context : RecipeContext) :
    List Declaration → Evaluation → List Moment
  | [] => fun _ => []
  | first :: rest =>
    andThen (evaluateStatement deeper context first) (momentsStatement deeper watch context first) fun _ =>
      momentsStatements deeper watch context rest

end

section Moments

variable (deeper : Deeper) (watch : Watch) (context : RecipeContext)

/-- The moments of a declaration outside of all blocks. -/
def momentsTopLevel (declaration : Declaration) : Evaluation → List Moment :=
  let name := declaration.name
  let line := declaration.line
  match declaration.body with
  | .block declarations =>
    momentsBlock context line name true (momentsStatements deeper watch context declarations)
  | .arguments expressions =>
    if name = loadWord then
      momentsSplice watch context line (evaluateItems deeper context line expressions)
        (momentsItems deeper watch context line expressions)
    else fun _ => []
  | .assignment expression => momentsExpression deeper watch context line expression

/-- The moments of a declaration where it stands. -/
def momentsInPlace (declaration : Declaration) : Evaluation → List Moment := fun state =>
  if state.scopes.isEmpty then momentsTopLevel deeper watch context declaration state
  else momentsStatement deeper watch context declaration state

/-- The moments of a whole recipe. -/
def momentsRecipe (declarations : List Declaration) : Session → List Moment := fun session =>
  oneByOne (evaluateTopLevel deeper context) (momentsTopLevel deeper watch context) declarations (start session)

end Moments

end Evaluation

open Evaluation

/-- The moments of the files that a file leads to, one after the other, at most the given number of times. -/
def Watch.upTo : Nat → Watch
  | 0 => ⟨fun _ _ _ => [], fun _ _ _ => [], fun _ _ _ => []⟩
  | depth + 1 =>
    { declarations := fun context =>
        oneByOne (evaluateInPlace (Deeper.upTo depth) context)
          (momentsInPlace (Deeper.upTo depth) (Watch.upTo depth) context)
      expression := fun context => momentsExpression (Deeper.upTo depth) (Watch.upTo depth) context 1
      recipe := momentsRecipe (Deeper.upTo depth) (Watch.upTo depth) }

namespace Job

/-- The root of a recipe with the given text, where files lead to files at most so many times. -/
def evaluateUpTo (job : Job) (depth : Nat) (path : Path) (text : String) : Compiling Entity := do
  let (context, declarations) ← job.opening path text
  evaluateRecipe (Deeper.upTo depth) context declarations

/-- The moments of the compilation of a text. -/
def moments (job : Job) (path : Path) (text : String) : List Moment :=
  .entered { Session.empty with active := [path] } ::
    followed (job.opening path text) (fun (context, declarations) =>
      momentsRecipe (Deeper.upTo job.depth) (Watch.upTo job.depth) context declarations) Session.empty

/-- The moments of the compilation of a file. -/
def momentsOfFile (job : Job) (file : Path) : List Moment :=
  if job.files.has file then
    match job.files.canonical file with
    | .error _ => []
    | .ok path =>
      match job.files.readText path with
      | .error _ => []
      | .ok text => job.moments path text
  else []

end Job

end DeployRecipe
