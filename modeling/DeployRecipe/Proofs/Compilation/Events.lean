import DeployRecipe.Proofs.Compilation.Moments
import DeployRecipe.Proofs.Compilation.Recipes

/-!
What a compilation is asked for by the recipes: the bases that are extended, the fragments that are loaded, the
names of the services of applications, and the names that are given values. The events are listed along the
evaluation, and where it ends well each part of it says which events are its own.
-/

namespace DeployRecipe

/-- Something that a recipe asks for. -/
inductive Event where
  /-- The reference to a base was resolved to a path. -/
  | extends (reference : String) (base : Path)
  /-- A fragment is loaded by its path. -/
  | loads (relative : String)
  /-- A service of an application has a name. -/
  | names (name : String)
  /-- A name was given values in the open block, which made it the entity. -/
  | assigns (name : String) (made : Entity)

/-- The events of the files that a file leads to. -/
structure Trace where
  declarations : RecipeContext → List Declaration → Evaluation → List Event
  expression : RecipeContext → Expression → Evaluation → List Event
  recipe : RecipeContext → List Declaration → Session → List Event

namespace Trace

section Combinators

variable {ε σ α : Type}

/-- The events after an action that ends well. -/
def followed (action : EStateM ε σ α) (more : α → σ → List Event) : σ → List Event := fun state =>
  match action state with
  | .ok value after => more value after
  | .error _ _ => []

/-- The events of an action and those after it. -/
def andThen (action : EStateM ε σ α) (here : σ → List Event) (more : α → σ → List Event) : σ → List Event :=
  fun state => here state ++ followed action more state

/-- The events of actions one after the other. -/
def oneByOne (action : α → EStateM ε σ Unit) (here : α → σ → List Event) : List α → σ → List Event
  | [] => fun _ => []
  | first :: rest => andThen (action first) (here first) fun _ => oneByOne action here rest

variable {action : EStateM ε σ α} {before after : σ} {value : α} (run : action before = .ok value after)
include run

theorem followed_of_ok (more : α → σ → List Event) : followed action more before = more value after := by
  rw [followed, run]

theorem andThen_of_ok (here : σ → List Event) (more : α → σ → List Event) :
    andThen action here more before = here before ++ more value after := by
  rw [andThen, followed_of_ok run]

omit run

theorem andThen_nil (action : EStateM ε σ α) (here : σ → List Event) : andThen action here (fun _ _ => []) = here := by
  funext state
  rw [andThen, followed]
  cases action state <;> exact List.append_nil _

end Combinators

section Parts

variable (trace : Trace) (context : RecipeContext) (line : Nat)

/-- The events of a recipe that another one leads to. -/
def ofNested (path : Path) (handover : Evaluation.Handover) : Session → List Event :=
  followed (Evaluation.openNested context.job path handover) fun (nested, declarations) =>
    trace.recipe nested declarations

/-- The events from when the base is named that a block extends. -/
def ofBase (given : List Value) : Evaluation → List Event :=
  followed (Evaluation.onePath context line .service Evaluation.extendWord given) fun reference state =>
    followed (Evaluation.demand context line (BaseReference.resolve context.job.files reference
      (state.currentDirectory context) context.job.settings.searchRoots)) (fun path between =>
        .extends reference path ::
          ofNested trace context path (.inherited context.environment.inheritable) between.session) state

/-- Enters a fragment. -/
def enterFragment (path : Path) : Evaluating Unit := do
  Evaluation.inSession (Session.enter path)
  modify fun state => { state with fragments := path :: state.fragments }

/-- The events from when the fragment is named whose declarations are evaluated in place. -/
def ofFragment (given : List Value) : Evaluation → List Event :=
  followed (Evaluation.onePath context line .service Evaluation.loadWord given) fun relative state =>
    .loads relative :: followed (Evaluation.fragmentPath context line relative) (fun path =>
      followed (enterFragment path) fun _ =>
        followed (Evaluation.inSession (Session.parseFile context.job path)) fun declarations =>
          trace.declarations context declarations) state

/-- The events of the value that a fragment holds. -/
def ofValue (relative : String) : Evaluation → List Event := fun state =>
  .loads relative :: followed (Evaluation.fragmentPath context line relative) (fun path =>
    followed (enterFragment path) fun _ =>
      followed (Evaluation.readFragment context path) fun expression =>
        trace.expression context expression) state

/-- The name of the open block, if that is a service of an application. -/
def openName? (state : Evaluation) : Option String :=
  match state.scopes with
  | [service, application] =>
    if application.entity.kind = .application ∧ service.entity.kind = .service then service.entity.name? else none
  | _ => none

/-- The events from when a block has its name. -/
def ofService : Evaluation → List Event := fun state =>
  (openName? state).toList.map .names ++
    match state.serviceDirectory? context with
    | none => []
    | some (_, directory) =>
      followed (Evaluation.demand context line
        (context.job.files.theFileEndingIn directory RecipeKind.service.suffix)) (fun path between =>
          ofNested trace context path (.external context.environment.inheritable) between.session) state

/-- The events of an assignment. -/
def ofAssign (name : String) (values : List Value) : Evaluation → List Event :=
  followed (Evaluation.bindName context line name values) fun _ state =>
    (state.scopes.head?.toList.map fun scope => .assigns name scope.entity) ++
      if name = Evaluation.nameProperty then ofService trace context line state else []

/-- The events of a block. -/
def ofBlock (name : String) (attached : Bool) (here : Evaluation → List Event) : Evaluation → List Event :=
  followed (Evaluation.openBlock context name line attached) fun entity state =>
    here { state with scopes := .opening entity :: state.scopes }

end Parts

mutual

/-- The events of an expression. -/
def ofExpression (deeper : Deeper) (trace : Trace) (context : RecipeContext) (line : Nat) :
    Expression → Evaluation → List Event
  | .list items => ofItems deeper trace context line items
  | .map entries => ofEntries deeper trace context line entries
  | .block name blockLine body =>
    ofBlock context blockLine name false (ofStatements deeper trace context body)
  | .load path => ofValue trace context line path
  | _ => fun _ => []

def ofItems (deeper : Deeper) (trace : Trace) (context : RecipeContext) (line : Nat) :
    List Expression → Evaluation → List Event
  | [] => fun _ => []
  | first :: rest =>
    andThen (Evaluation.evaluate deeper context line first) (ofExpression deeper trace context line first) fun _ =>
      ofItems deeper trace context line rest

def ofEntries (deeper : Deeper) (trace : Trace) (context : RecipeContext) (line : Nat) :
    List (String × Expression) → Evaluation → List Event
  | [] => fun _ => []
  | (_, item) :: rest =>
    andThen (Evaluation.evaluate deeper context line item) (ofExpression deeper trace context line item) fun _ =>
      ofEntries deeper trace context line rest

/-- The events of a declaration in an open block. -/
def ofStatement (deeper : Deeper) (trace : Trace) (context : RecipeContext) :
    Declaration → Evaluation → List Event
  | .mk name line body => ofBody deeper trace context name line body

def ofBody (deeper : Deeper) (trace : Trace) (context : RecipeContext) (name : String) (line : Nat) :
    Body → Evaluation → List Event
  | .block declarations => ofBlock context line name true (ofStatements deeper trace context declarations)
  | .arguments expressions =>
    andThen (Evaluation.evaluateItems deeper context line expressions)
      (ofItems deeper trace context line expressions) fun given =>
        if name = Evaluation.extendWord then ofBase trace context line given
        else if name = Evaluation.loadWord then ofFragment trace context line given
        else ofAssign trace context line name given
  | .assignment expression =>
    andThen (Evaluation.evaluate deeper context line expression) (ofExpression deeper trace context line expression)
      fun value => ofAssign trace context line name [value]

def ofStatements (deeper : Deeper) (trace : Trace) (context : RecipeContext) :
    List Declaration → Evaluation → List Event
  | [] => fun _ => []
  | first :: rest =>
    andThen (Evaluation.evaluateStatement deeper context first) (ofStatement deeper trace context first) fun _ =>
      ofStatements deeper trace context rest

end

section Parts

variable (deeper : Deeper) (trace : Trace) (context : RecipeContext)

/-- The events of a declaration outside of all blocks. -/
def ofTopLevel (declaration : Declaration) : Evaluation → List Event :=
  let name := declaration.name
  let line := declaration.line
  match declaration.body with
  | .block declarations => ofBlock context line name true (ofStatements deeper trace context declarations)
  | .arguments expressions =>
    if name = Evaluation.loadWord then
      andThen (Evaluation.evaluateItems deeper context line expressions)
        (ofItems deeper trace context line expressions) (ofFragment trace context line)
    else fun _ => []
  | .assignment expression => ofExpression deeper trace context line expression

/-- The events of a declaration where it stands. -/
def ofInPlace (declaration : Declaration) : Evaluation → List Event := fun state =>
  if state.scopes.isEmpty then ofTopLevel deeper trace context declaration state
  else ofStatement deeper trace context declaration state

/-- The events of a whole recipe. -/
def ofRecipe (declarations : List Declaration) : Session → List Event := fun session =>
  oneByOne (Evaluation.evaluateTopLevel deeper context) (ofTopLevel deeper trace context) declarations
    (Evaluation.start session)

end Parts

/-- The events of the files that a file leads to, one after the other, at most the given number of times. -/
def upTo : Nat → Trace
  | 0 => ⟨fun _ _ _ => [], fun _ _ _ => [], fun _ _ _ => []⟩
  | depth + 1 =>
    { declarations := fun context =>
        oneByOne (Evaluation.evaluateInPlace (Deeper.upTo depth) context)
          (ofInPlace (Deeper.upTo depth) (upTo depth) context)
      expression := fun context => ofExpression (Deeper.upTo depth) (upTo depth) context 1
      recipe := ofRecipe (Deeper.upTo depth) (upTo depth) }

section Parts

variable {deeper : Deeper} {trace : Trace} {context : RecipeContext} {line : Nat} {before after : Evaluation}

theorem ofNested_of_run {path : Path} {handover : Evaluation.Handover} {session later : Session} {entity : Entity}
    (run : Evaluation.compileNested deeper context.job path handover session = .ok entity later) :
    ∃ nested declarations between inner,
      Evaluation.openNested context.job path handover session = .ok (nested, declarations) between ∧
      deeper.recipe nested declarations between = .ok entity inner ∧ later = inner.leave ∧
      ofNested trace context path handover session = trace.recipe nested declarations between := by
  obtain ⟨nested, declarations, between, inner, opened, ran, rfl⟩ :=
    Evaluation.compileNested_iff_openNested.mp run
  exact ⟨nested, declarations, between, inner, opened, ran, rfl, followed_of_ok opened _⟩

theorem ofBase_of_resolve {reference : String} {path : Path}
    (resolved : BaseReference.resolve context.job.files reference (before.currentDirectory context)
      context.job.settings.searchRoots = .ok path) :
    ofBase trace context line [.text reference] before =
      .extends reference path ::
        ofNested trace context path (.inherited context.environment.inheritable) before.session := by
  rw [ofBase, followed_of_ok ((Evaluation.onePath_eq_ok _ _ _ _ _).mpr ⟨rfl, rfl⟩),
    followed_of_ok ((Evaluation.demand_eq_ok _ _ _).mpr ⟨resolved, rfl⟩)]

theorem enterFragment_of_free {path : Path} (free : before.session.isActive path = false) :
    enterFragment path before = .ok () (before.entering path
      { before.session with active := path :: before.session.active }) := by
  refine (Running.bind_eq_ok _ _ _ _ _).mpr ⟨(), _, (Evaluation.inSession_eq_ok _ _).mpr ⟨_, ?_, rfl⟩, rfl⟩
  exact (Session.enter_eq_ok _ _ _ _).mpr ⟨free, rfl⟩

section Fragment

variable {relative : String} {path : Path} {session : Session}
  (named : before.NamesFragment context relative path) (free : before.session.isActive path = false)
include named free

theorem ofFragment_of_parseFile {declarations : List Declaration}
    (parsed : Session.parseFile context.job path
      { before.session with active := path :: before.session.active } = .ok declarations session) :
    ofFragment trace context line [.text relative] before =
      .loads relative :: trace.declarations context declarations (before.entering path session) := by
  have inside : Evaluation.inSession (Session.parseFile context.job path) (before.entering path
      { before.session with active := path :: before.session.active }) =
        .ok declarations (before.entering path session) :=
    (Evaluation.inSession_eq_ok _ _).mpr ⟨session, parsed, rfl⟩
  rw [ofFragment, followed_of_ok ((Evaluation.onePath_eq_ok _ _ _ _ _).mpr ⟨rfl, rfl⟩),
    followed_of_ok ((Evaluation.fragmentPath_eq_ok _ _ _).mpr ⟨named, rfl⟩),
    followed_of_ok (enterFragment_of_free free), followed_of_ok inside]

theorem ofValue_of_read {text : String} {expression : Expression}
    (read : Session.read context.job path
      { before.session with active := path :: before.session.active } = .ok text session)
    (parsed : Recipe.readExpression text = .ok expression) :
    ofValue trace context line relative before =
      .loads relative :: trace.expression context expression (before.entering path session) := by
  have inside : Evaluation.readFragment context path (before.entering path
      { before.session with active := path :: before.session.active }) =
        .ok expression (before.entering path session) := by
    refine (Running.bind_eq_ok _ _ _ _ _).mpr ⟨text, before.entering path session,
      (Evaluation.inSession_eq_ok _ _).mpr ⟨session, read, rfl⟩, ?_⟩
    rw [parsed]
    rfl
  rw [ofValue, followed_of_ok ((Evaluation.fragmentPath_eq_ok _ _ _).mpr ⟨named, rfl⟩),
    followed_of_ok (enterFragment_of_free free), followed_of_ok inside]

end Fragment

theorem openName?_of_serviceDirectory? {name : String} {directory : Path}
    (found : before.serviceDirectory? context = some (name, directory)) :
    openName? before = some name ∧ ∃ parent, context.recipeFile.parent? = some parent ∧
      directory = parent.join ⟨name⟩ ∧ context.job.files.isDirectory directory = true := by
  rw [Evaluation.serviceDirectory?] at found
  split at found
  · rename_i service application scopes
    split at found
    · rename_i kinds
      obtain ⟨other, named, found⟩ := Option.bind_eq_some_iff.mp found
      obtain ⟨parent, around, found⟩ := Option.bind_eq_some_iff.mp found
      obtain ⟨directory', same⟩ := Option.ite_none_right_eq_some.mp found
      obtain ⟨rfl, rfl⟩ := Prod.mk.inj (Option.some.inj same)
      refine ⟨?_, parent, around, rfl, directory'⟩
      simp only [openName?, scopes, if_pos kinds, named]
    · cases found
  · cases found

theorem ofService_of_serviceDirectory? {name : String} {directory path : Path}
    (found : before.serviceDirectory? context = some (name, directory))
    (searched : context.job.files.theFileEndingIn directory RecipeKind.service.suffix = .ok path) :
    ofService trace context line before =
      .names name :: ofNested trace context path (.external context.environment.inheritable) before.session := by
  rw [ofService, (openName?_of_serviceDirectory? found).1, found]
  dsimp only
  rw [followed_of_ok ((Evaluation.demand_eq_ok _ _ _).mpr ⟨searched, rfl⟩)]
  rfl

theorem ofAssign_of_bindName {name : String} {values : List Value} {scope : Scope} {outer : List Scope}
    (binding : Evaluation.bindName context line name values before = .ok () after)
    (scopes : after.scopes = scope :: outer) :
    ofAssign trace context line name values before =
      .assigns name scope.entity ::
        if name = Evaluation.nameProperty then ofService trace context line after else [] := by
  rw [ofAssign, followed_of_ok binding, scopes]
  rfl

theorem openBlock_of_startOf {name : String} {attached : Bool} {descriptor : Descriptor} {start : Entity}
    (described : Registry.describe? name = some descriptor)
    (placed : Evaluation.checkPlace before descriptor attached = .ok ())
    (started : before.startOf descriptor attached = .ok start) :
    Evaluation.openBlock context name line attached before = .ok start (before.noting descriptor attached) := by
  rw [Evaluation.openBlock, described]
  dsimp only
  rw [Running.get_bind, Running.bind_of_ok ((Evaluation.demand_eq_ok _ _ _).mpr ⟨placed, rfl⟩)]
  cases attached with
  | false =>
    obtain rfl := Except.ok.inj started
    rfl
  | true =>
    rw [Evaluation.startOf, if_pos rfl] at started
    exact (Running.bind_eq_ok _ _ _ _ _).mpr ⟨start, before, (Evaluation.demand_eq_ok _ _ _).mpr ⟨started, rfl⟩, rfl⟩

/-- The events of a block are those of its declarations. -/
theorem ofBlock_of_run {name : String} {attached : Bool} {body : Evaluating Unit} {finished : Entity}
    (here : Evaluation → List Event)
    (run : Evaluation.evaluateBlock context name line attached body before = .ok finished after) :
    ∃ descriptor start between, Registry.describe? name = some descriptor ∧
      Evaluation.checkPlace before descriptor attached = .ok () ∧ before.startOf descriptor attached = .ok start ∧
      body { before.noting descriptor attached with
        scopes := .opening start :: (before.noting descriptor attached).scopes } = .ok () between ∧
      finished = (between.scopes.head?.map Scope.entity).getD start ∧
      after = { between with scopes := between.scopes.tail } ∧
      ofBlock context line name attached here before = here { before.noting descriptor attached with
        scopes := .opening start :: (before.noting descriptor attached).scopes } := by
  obtain ⟨descriptor, start, described, placed, started, running⟩ :=
    (Evaluation.evaluateBlock_eq_ok _ _ _ _ _).mp run
  obtain ⟨between, ran, finish, ended⟩ := (Evaluation.inScope_eq_ok _ _ _).mp running
  exact ⟨descriptor, start, between, described, placed, started, ran, finish, ended,
    followed_of_ok (openBlock_of_startOf described placed started) _⟩

end Parts

end Trace

namespace Job

/-- The events of the compilation of a text. -/
def events (job : Job) (path : Path) (text : String) : List Event :=
  Trace.followed (job.opening path text) (fun (context, declarations) =>
    Trace.ofRecipe (Deeper.upTo job.depth) (Trace.upTo job.depth) context declarations) Session.empty

/-- The events of the compilation of a file. -/
def eventsOfFile (job : Job) (file : Path) : List Event :=
  match job.files.canonical file with
  | .error _ => []
  | .ok path =>
    match job.files.readText path with
    | .error _ => []
    | .ok text => job.events path text

theorem eventsOfFile_eq {job : Job} {file path : Path} {text : String}
    (found : job.files.canonical file = .ok path) (read : job.files.readText path = .ok text) :
    job.eventsOfFile file = job.events path text := by
  simp only [eventsOfFile, found, read]

end Job

end DeployRecipe
