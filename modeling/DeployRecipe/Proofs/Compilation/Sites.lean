import DeployRecipe.Proofs.Compilation.Moments

/-!
Where a compilation stands when it fails: the files that are being compiled at the step that fails. The step is
found along the evaluation, before the files that are being compiled are left again.
-/

namespace DeployRecipe

/-- Where a compilation stands when it fails. -/
inductive Site where
  /-- Inside of the given files, the innermost first. -/
  | inside (active : List Path)
  /-- The environment of a recipe is being built. -/
  | environment
  /-- The root is being validated. -/
  | validation
  /-- Files led to files more often than they may. -/
  | tooDeep
deriving DecidableEq

namespace Site

variable {ε σ α : Type}

/-- Where actions one after the other stand: at the first one, or at what comes after it if it ends well. -/
def following (action : EStateM ε σ α) (here : σ → Site) (later : α → σ → Site) : σ → Site := fun state =>
  match action state with
  | .ok value after => later value after
  | .error _ _ => here state

theorem following_of_ok {action : EStateM ε σ α} {state after : σ} {value : α}
    (run : action state = .ok value after) (here : σ → Site) (later : α → σ → Site) :
    following action here later state = later value after := by
  rw [following, run]

def inTurn (action : α → EStateM ε σ Unit) (here : α → σ → Site) (last : σ → Site) : List α → σ → Site
  | [] => last
  | first :: rest => following (action first) (here first) fun _ => inTurn action here last rest

end Site

/-- Where the files stand that a file leads to. -/
structure Sites where
  declarations : RecipeContext → List Declaration → Evaluation → Site
  expression : RecipeContext → Expression → Evaluation → Site
  recipe : RecipeContext → List Declaration → Session → Site

/-- Inside of the files that are being compiled. -/
def Session.site (session : Session) : Site := .inside session.active

namespace Evaluation

/-- Inside of the files that are being compiled. -/
def site (state : Evaluation) : Site := state.session.site

open Site (following inTurn)

section Files

variable (sites : Sites) (context : RecipeContext) (line : Nat)

def siteNested (job : Job) (path : Path) (handover : Handover) : Session → Site := fun session =>
  if session.isActive path then session.site
  else
    following (Session.parseFile job path) Session.site (fun declarations =>
      following (Session.recording ((handover.inputs job path).build job.files)) (fun _ => .environment)
        fun environment => sites.recipe ⟨job, path, environment⟩ declarations)
      { session with active := path :: session.active }

def siteFrom (path : Path) (handover : Handover) : Evaluation → Site := fun state =>
  siteNested sites context.job path handover state.session

def siteInFragment (path : Path) (here : Evaluation → Site) : Evaluation → Site := fun state =>
  if state.session.isActive path then state.site
  else here { state with session := { state.session with active := path :: state.session.active } }

def siteWithFragment (path : Path) (here : Evaluation → Site) : Evaluation → Site := fun state =>
  here { state with fragments := path :: state.fragments }

def siteSplice (values : Evaluating (List Value)) (here : Evaluation → Site) : Evaluation → Site := fun state =>
  let kind := (state.scopes.head?.map fun scope => scope.entity.kind).getD .application
  following values here (fun given =>
    following (onePath context line kind loadWord given) site fun relative =>
      following (fragmentPath context line relative) site fun path =>
        siteInFragment path (following (inSession (Session.parseFile context.job path)) site fun declarations =>
          siteWithFragment path (sites.declarations context declarations))) state

def siteLoad (relative : String) : Evaluation → Site :=
  following (fragmentPath context line relative) site fun path =>
    siteInFragment path (following (readFragment context path) site fun expression =>
      siteWithFragment path (sites.expression context expression))

/-- Where a step stands that leads to a recipe, and after that to no other file. -/
def siteThrough (deeper : Deeper) (path : Path) (handover : Handover) : Evaluation → Site :=
  following (compileFrom deeper context path handover) (siteFrom sites context path handover) fun _ => site

def siteExtend (deeper : Deeper) (values : Evaluating (List Value)) (here : Evaluation → Site) :
    Evaluation → Site := fun state =>
  following (demand context line (extendingKind state)) site (fun kind =>
    following values here fun given =>
      following (onePath context line kind extendWord given) site fun reference between =>
        following (demand context line (BaseReference.resolve context.job.files reference
            (between.currentDirectory context) context.job.settings.searchRoots)) site
          (fun path => siteThrough sites context deeper path (.inherited context.environment.inheritable))
          between) state

def siteService (deeper : Deeper) : Evaluation → Site := fun state =>
  match state.serviceDirectory? context with
  | none => state.site
  | some (_, directory) =>
    following (demand context line (context.job.files.theFileEndingIn directory RecipeKind.service.suffix)) site
      (fun path => siteThrough sites context deeper path (.external context.environment.inheritable)) state

def siteAssign (deeper : Deeper) (name : String) (values : List Value) : Evaluation → Site :=
  following (bindName context line name values) site fun _ =>
    if name = nameProperty then siteService sites context line deeper else site

def siteBlock (name : String) (attached : Bool) (here : Evaluation → Site) : Evaluation → Site :=
  following (openBlock context name line attached) site fun entity state =>
    here { state with scopes := .opening entity :: state.scopes }

end Files

mutual

/-- Where an expression stands. -/
def siteExpression (deeper : Deeper) (sites : Sites) (context : RecipeContext) (line : Nat) :
    Expression → Evaluation → Site
  | .list items => siteItems deeper sites context line items
  | .map entries => siteEntries deeper sites context line entries
  | .block name blockLine body =>
    siteBlock context blockLine name false (siteStatements deeper sites context body)
  | .load path => siteLoad sites context line path
  | _ => site

def siteItems (deeper : Deeper) (sites : Sites) (context : RecipeContext) (line : Nat) :
    List Expression → Evaluation → Site
  | [] => site
  | first :: rest =>
    following (evaluate deeper context line first) (siteExpression deeper sites context line first) fun _ =>
      siteItems deeper sites context line rest

def siteEntries (deeper : Deeper) (sites : Sites) (context : RecipeContext) (line : Nat) :
    List (String × Expression) → Evaluation → Site
  | [] => site
  | (_, item) :: rest =>
    following (evaluate deeper context line item) (siteExpression deeper sites context line item) fun _ =>
      siteEntries deeper sites context line rest

/-- Where a declaration in an open block stands. -/
def siteStatement (deeper : Deeper) (sites : Sites) (context : RecipeContext) : Declaration → Evaluation → Site
  | .mk name line body => siteBody deeper sites context name line body

def siteBody (deeper : Deeper) (sites : Sites) (context : RecipeContext) (name : String) (line : Nat) :
    Body → Evaluation → Site
  | .block declarations =>
    following (evaluateBlock context name line true (evaluateStatements deeper context declarations))
      (siteBlock context line name true (siteStatements deeper sites context declarations)) fun _ => site
  | .arguments expressions =>
    let values := evaluateItems deeper context line expressions
    let here := siteItems deeper sites context line expressions
    if name = extendWord then siteExtend sites context line deeper values here
    else if name = loadWord then siteSplice sites context line values here
    else following values here fun given => siteAssign sites context line deeper name given
  | .assignment expression =>
    following (evaluate deeper context line expression) (siteExpression deeper sites context line expression)
      fun value => siteAssign sites context line deeper name [value]

def siteStatements (deeper : Deeper) (sites : Sites) (context : RecipeContext) :
    List Declaration → Evaluation → Site
  | [] => site
  | first :: rest =>
    following (evaluateStatement deeper context first) (siteStatement deeper sites context first) fun _ =>
      siteStatements deeper sites context rest

end

section Recipes

variable (deeper : Deeper) (sites : Sites) (context : RecipeContext)

/-- Where a declaration outside of all blocks stands. -/
def siteTopLevel (declaration : Declaration) : Evaluation → Site :=
  let name := declaration.name
  let line := declaration.line
  match declaration.body with
  | .block declarations =>
    following (evaluateBlock context name line true (evaluateStatements deeper context declarations))
      (siteBlock context line name true (siteStatements deeper sites context declarations)) fun _ => site
  | .arguments expressions =>
    if name = loadWord then
      siteSplice sites context line (evaluateItems deeper context line expressions)
        (siteItems deeper sites context line expressions)
    else site
  | .assignment expression => siteExpression deeper sites context line expression

/-- Where a declaration stands, inside or outside of blocks. -/
def siteInPlace (declaration : Declaration) : Evaluation → Site := fun state =>
  if state.scopes.isEmpty then siteTopLevel deeper sites context declaration state
  else siteStatement deeper sites context declaration state

/-- Where a whole recipe stands. -/
def siteRecipe (declarations : List Declaration) : Session → Site := fun session =>
  inTurn (evaluateTopLevel deeper context) (siteTopLevel deeper sites context) site declarations (start session)

end Recipes

end Evaluation

open Evaluation

/-- Where files stand that a file leads to, one after the other, at most the given number of times. -/
def Sites.upTo : Nat → Sites
  | 0 => ⟨fun _ _ _ => .tooDeep, fun _ _ _ => .tooDeep, fun _ _ _ => .tooDeep⟩
  | depth + 1 =>
    { declarations := fun context =>
        Site.inTurn (evaluateInPlace (Deeper.upTo depth) context)
          (siteInPlace (Deeper.upTo depth) (Sites.upTo depth) context) Evaluation.site
      expression := fun context => siteExpression (Deeper.upTo depth) (Sites.upTo depth) context 1
      recipe := siteRecipe (Deeper.upTo depth) (Sites.upTo depth) }

/-- Where the compilation of a text stands, once its file is entered. -/
def Job.site (job : Job) (path : Path) (text : String) : Site :=
  let read : Compiling (List Declaration) := do
    Session.recording (recordSource path text)
    Session.parseText path text
  Site.following read Session.site (fun declarations =>
    Site.following (Session.recording ((job.inputs path).build job.files)) (fun _ => .environment)
      fun environment =>
        let context : RecipeContext := ⟨job, path, environment⟩
        Site.following (evaluateRecipe (Deeper.upTo job.depth) context declarations)
          (siteRecipe (Deeper.upTo job.depth) (Sites.upTo job.depth) context declarations)
          fun _ _ => .validation)
    { Session.empty with active := [path] }

/-- Where the compilation of a file stands, if its file is entered. -/
def Job.siteOfFile? (job : Job) (file : Path) : Option Site :=
  if job.files.has file then
    match job.files.canonical file with
    | .error _ => none
    | .ok path =>
      match job.files.readText path with
      | .error _ => none
      | .ok text => some (job.site path text)
  else none

end DeployRecipe
