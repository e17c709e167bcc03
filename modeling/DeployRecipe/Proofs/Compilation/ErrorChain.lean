import DeployRecipe.Proofs.Compilation.Raised

/-!
The chain of an error. Whatever the declarations of a recipe lead to, the chain of an error and its file are the
files that were being compiled where it was raised.
-/

namespace DeployRecipe

open Running

/-- A file that cannot be read is named as the file of the error. -/
theorem FileTree.readText_eq_error {files : FileTree} {path : Path} {error : CompileError}
    (failed : files.readText path = .error error) : error.file = path ∧ error.chain = [] := by
  rw [readText] at failed
  split at failed
  · split at failed
    · cases failed
    · obtain rfl := Except.error.inj failed
      exact ⟨rfl, rfl⟩
  · obtain rfl := Except.error.inj failed
    exact ⟨rfl, rfl⟩

/-- Inside of a recipe or a fragment that is being compiled. -/
def Session.frame (path : Path) : Frame Session where
  active := Session.active
  placed session := ∃ outer, session.active = path :: outer ∧ Path.AllApart session.active
  same before after := after.active = before.active
  refl _ := rfl
  trans one other := other.trans one
  active_eq same := same
  placed_of same placed := same ▸ placed

namespace Session

variable {path : Path}

/-- The error of a file that is being compiled already. -/
def cyclic (session : Session) (path : Path) : CompileError :=
  .inFile (session.active.head?.getD path) (.circularReference (session.cycle path))

theorem enter_of_busy {session : Session} {path : Path} (busy : session.isActive path = true) :
    enter path session = .error (session.cyclic path) session := by
  rw [enter, Running.get_bind, if_pos busy]
  rfl

/-- Such an error is raised in the innermost file, which the file around it does not add again. -/
theorem cyclic_raised {session : Session} {current : Path} {rest : List Path}
    (active : session.active = current :: rest) (apart : Path.AllApart session.active) (path : Path) :
    (session.cyclic path).Raised session.active session.active ∧ (session.cyclic path).file = current := by
  have file : (session.cyclic path).file = current := by
    rw [cyclic, active]
    rfl
  subst file
  rw [active] at apart ⊢
  exact ⟨.here apart rfl rfl, rfl⟩

/-- An environment is built inside of the same files. -/
theorem recording_tells {α : Type} (action : Recording α) :
    (frame path).Tells (recording action) fun _ => .environment := by
  intro session _
  have kept (sources : Sources) : (frame path).same session { session with sources } := rfl
  rw [Frame.TellsAt, recording]
  cases action session.sources with
  | ok value sources => exact .of_ok (kept sources) value
  | error error sources => exact .of_error (kept sources) trivial

theorem recordSource_tells (source : Path) (text : String) :
    (frame path).Tells (recording (recordSource source text)) site := fun session _ =>
  have kept : (frame path).same session { session with sources := session.sources.record source text } := rfl
  .of_ok kept ()

theorem throw_tells {α : Type} {error : CompileError} (file : error.file = path) (fresh : error.chain = []) :
    (frame path).Tells (throw error : Compiling α) site := by
  subst file
  exact .throw_here fresh fun session ⟨outer, active, apart⟩ => ⟨outer, active, apart⟩

theorem read_tells (job : Job) : (frame path).Tells (read job path) site := by
  refine .bind_here ?_ fun text => (recordSource_tells path text).bind_pure _
  cases read : job.files.readText path with
  | ok text => exact .pure text
  | error error =>
    obtain ⟨file, fresh⟩ := FileTree.readText_eq_error read
    exact throw_tells file fresh

theorem parseText_tells (text : String) : (frame path).Tells (parseText path text) site := by
  intro session placed
  rw [Frame.TellsAt, parseText, Running.get_bind]
  cases session.parsed? path with
  | some declarations => exact .of_ok ((frame path).refl session) declarations
  | none =>
    cases Recipe.readDeclarations text with
    | error error => exact throw_tells rfl rfl session placed
    | ok declarations =>
      have kept : (frame path).same session
          { session with parsed := (path, declarations) :: session.parsed } := rfl
      exact .of_ok kept declarations

theorem parseFile_tells (job : Job) : (frame path).Tells (parseFile job path) site := by
  refine .get_bind fun session => ?_
  split
  · exact .pure _
  · exact (read_tells job).bind_here fun text => parseText_tells text

end Session

namespace Evaluation

/-- The files that are being compiled, the fragments among them and the number of open blocks stay as they are. -/
structure SameFrame (before after : Evaluation) : Prop where
  active : after.session.active = before.session.active
  fragments : after.fragments = before.fragments
  depth : after.scopes.length = before.scopes.length

/-- Inside of the fragments of a recipe, and of the files that were entered since. -/
def frame (context : RecipeContext) (entered : List Path) : Frame Evaluation where
  active state := state.session.active
  placed state := ∃ outer, state.session.active = entered ++ state.fragments ++ context.recipeFile :: outer ∧
    Path.AllApart state.session.active
  same := SameFrame
  refl _ := ⟨rfl, rfl, rfl⟩
  trans one other :=
    ⟨other.active.trans one.active, other.fragments.trans one.fragments, other.depth.trans one.depth⟩
  active_eq same := same.active
  placed_of same placed := by rwa [same.active, same.fragments]

variable {context : RecipeContext} {α : Type}

/-- The current file is the innermost one that is being compiled. -/
theorem active_eq_cons {state : Evaluation} (placed : (frame context []).placed state) :
    ∃ rest, state.session.active = state.currentFile context :: rest ∧ Path.AllApart state.session.active := by
  obtain ⟨outer, active, apart⟩ := placed
  rw [currentFile]
  cases fragments : state.fragments with
  | nil => exact ⟨outer, by rw [active, fragments]; rfl, apart⟩
  | cons path rest => exact ⟨rest ++ context.recipeFile :: outer, by rw [active, fragments]; rfl, apart⟩

theorem fail_tells (line : Nat) (kind : ErrorKind) :
    (frame context []).Tells (fail context line kind : Evaluating α) site := by
  intro state placed
  obtain ⟨rest, active, apart⟩ := active_eq_cons placed
  refine .of_error ((frame context []).refl state) ?_
  show CompileError.Raised state.session.active _ state.session.active
  rw [active] at apart ⊢
  exact (CompileError.Raised.inFile apart kind).atLine line

theorem demand_tells (line : Nat) (outcome : Except ErrorKind α) :
    (frame context []).Tells (demand context line outcome) site := by
  cases outcome with
  | ok value => exact .pure value
  | error kind => exact fail_tells line kind

theorem onePath_tells (line : Nat) (kind : EntityKind) (directive : String) (values : List Value) :
    (frame context []).Tells (onePath context line kind directive values) site := by
  unfold onePath
  split
  · exact .pure _
  · exact fail_tells line _

theorem fragmentPath_tells (line : Nat) (relative : String) :
    (frame context []).Tells (fragmentPath context line relative) site := by
  refine .get_bind fun state => ?_
  dsimp only
  split
  · split
    · exact .pure _
    · exact fail_tells line _
  · exact fail_tells line _

theorem interpolated_tells (deeper : Deeper) (line : Nat) (parts : List TextPart) :
    (frame context []).Tells (evaluate deeper context line (.interpolated parts)) site := by
  refine .get_bind fun state => ?_
  split
  · exact .pure _
  · exact fail_tells line _

theorem reference_tells (deeper : Deeper) (line : Nat) (name : String) :
    (frame context []).Tells (evaluate deeper context line (.reference name)) site := by
  refine .get_bind fun state => ?_
  split
  · exact .pure _
  · exact fail_tells line _

theorem mapInnermost_same (change : Scope → Scope) (state : Evaluation) : SameFrame state (state.mapInnermost change) := by
  obtain ⟨_, _, _, scopes, _⟩ := state
  cases scopes <;> exact ⟨rfl, rfl, rfl⟩

theorem modifyInnermost_tells (change : Scope → Scope) :
    (frame context []).Tells (modify (mapInnermost change) : Evaluating PUnit) site :=
  .modify (mapInnermost_same change)

theorem openBlock_tells (name : String) (line : Nat) (attached : Bool) :
    (frame context []).Tells (openBlock context name line attached) site := by
  unfold openBlock
  split
  · exact fail_tells line _
  · refine .get_bind fun state => .bind_here (demand_tells line _) fun _ => ?_
    split
    · exact .bind_here (demand_tells line _) fun _ => .bind_here (modifyInnermost_tells _) fun _ => .pure _
    · exact .pure _

theorem attach_tells (line : Nat) (entity : Entity) :
    (frame context []).Tells (attach context line entity) site := by
  intro state placed
  rw [Frame.TellsAt, attach, Running.get_bind]
  cases opened : state.scopes with
  | nil => exact .of_ok ⟨rfl, rfl, congrArg List.length opened.symm⟩ ()
  | cons parent outer =>
    dsimp only
    cases parent.entity.bindEntity parent.used entity with
    | ok pair => exact .of_ok ⟨rfl, rfl, by rw [opened]; rfl⟩ ()
    | error kind => exact fail_tells line kind state placed

theorem bindName_tells (line : Nat) (name : String) (values : List Value) :
    (frame context []).Tells (bindName context line name values) site := by
  intro state placed
  rw [Frame.TellsAt, bindName, Running.get_bind]
  cases opened : state.scopes with
  | nil => exact fail_tells line _ state placed
  | cons scope outer =>
    show Ends _ _ ((demand context line (bound scope name values) >>= _) state)
    cases bound scope name values with
    | ok pair => exact .of_ok ⟨rfl, rfl, by rw [opened]; rfl⟩ ()
    | error kind => exact fail_tells line kind state placed

/-- A step of the session inside of a file that was entered. -/
theorem inSession_tells {path : Path} {action : Compiling α} (tells : (Session.frame path).Tells action Session.site) :
    (frame context [path]).Tells (inSession action) site := by
  rintro state ⟨outer, active, apart⟩
  rw [Frame.TellsAt, inSession_eq_carry]
  refine (tells state.session ⟨_, active, apart⟩).carry _ ?_ fun _ raised => raised
  exact fun session kept => ⟨kept, rfl, rfl⟩

theorem readFragment_tells (path : Path) : (frame context [path]).Tells (readFragment context path) site := by
  refine .bind_here (inSession_tells (Session.read_tells context.job)) fun text => ?_
  split
  · exact .pure _
  · exact .throw_here rfl fun state ⟨outer, active, apart⟩ => ⟨_, active, apart⟩

theorem inScope_tells {body : Evaluating Unit} {here : Evaluation → Site} (tells : (frame context []).Tells body here)
    (entity : Entity) :
    (frame context []).Tells (inScope entity body) fun state =>
      here { state with scopes := .opening entity :: state.scopes } := by
  intro state placed
  rw [Frame.TellsAt, inScope_eq_carry]
  refine (tells { state with scopes := .opening entity :: state.scopes } placed).carry _ ?_ fun _ raised => raised
  rintro after ⟨active, fragments, depth⟩
  exact ⟨active, fragments, by simp [depth]⟩

theorem withFragment_tells {action : Evaluating α} {here : Evaluation → Site}
    (tells : (frame context []).Tells action here) (path : Path) :
    (frame context [path]).Tells (withFragment path action) (siteWithFragment path here) := by
  rintro state ⟨outer, active, apart⟩
  rw [Frame.TellsAt, withFragment, Running.modify_bind, ensuring_eq_carry]
  refine (tells { state with fragments := path :: state.fragments } ⟨outer, active, apart⟩).carry _ ?_
    fun _ raised => raised
  rintro after ⟨active, fragments, depth⟩
  exact ⟨active, by rw [fragments]; rfl, depth⟩

theorem inFragment_of_busy {state : Evaluation} {path : Path} (busy : state.session.isActive path = true) (line : Nat)
    (action : Evaluating α) :
    inFragment context line path action state =
      .error (((state.session.cyclic path).atLine line).within (state.currentFile context)) state := by
  rw [inFragment, Running.get_bind]
  refine bind_of_error ?_ _
  rw [adapting_eq_carry, inSession_eq_carry, Session.enter_of_busy busy]
  rfl

theorem inFragment_tells {action : Evaluating α} {here : Evaluation → Site} {path : Path}
    (tells : (frame context [path]).Tells action here) (line : Nat) :
    (frame context []).Tells (inFragment context line path action) (siteInFragment path here) := by
  intro state placed
  obtain ⟨rest, active, apart⟩ := active_eq_cons placed
  rw [Frame.TellsAt, siteInFragment]
  by_cases busy : state.session.isActive path = true
  · obtain ⟨raised, file⟩ := Session.cyclic_raised active apart path
    rw [if_pos busy, inFragment_of_busy busy, CompileError.within_of_same (by rw [CompileError.atLine, file, Path.same_self])]
    exact .of_error ((frame context []).refl state) (raised.atLine line)
  · have free : state.session.isActive path = false := by simpa using busy
    rw [if_neg busy, inFragment_of_free free]
    obtain ⟨outer, around, _⟩ := placed
    let entered : Evaluation :=
      { state with session := { state.session with active := path :: state.session.active } }
    have inside := tells entered ⟨outer, congrArg (List.cons path) around, apart.push free⟩
    -- the fragment is left, and then the file around it adds itself to the error
    have left : Ends (SameFrame state) (fun error => (here entered).ToldBy error (path :: state.session.active))
        (carry id (fun value _ => value) (fun state => { state with session := state.session.leave })
          (action entered)) :=
      inside.carry _ (fun after kept => ⟨congrArg List.tail kept.active, kept.fragments, kept.depth⟩)
        fun _ told => told
    refine left.carry _ (fun _ kept => kept) fun error told => ?_
    show (here entered).ToldBy _ state.session.active
    rw [active] at told ⊢
    exact told.within

end Evaluation

/-- The files that a file leads to leave the frame as it is, and their errors tell where they failed. -/
structure Deeper.Tell (deeper : Deeper) (sites : Sites) : Prop where
  declarations : ∀ context declarations, (Evaluation.frame context []).Tells
    (deeper.declarations context declarations) (sites.declarations context declarations)
  expression : ∀ context expression, (Evaluation.frame context []).Tells
    (deeper.expression context expression) (sites.expression context expression)
  recipe : ∀ context declarations, (Session.frame context.recipeFile).Tells
    (deeper.recipe context declarations) (sites.recipe context declarations)

namespace Evaluation

variable {deeper : Deeper} {sites : Sites} {context : RecipeContext}

section Files

variable (tell : deeper.Tell sites)
include tell

/-- What is done inside of a recipe that another one leads to. -/
theorem evaluateNested_tells (job : Job) (path : Path) (handover : Handover) :
    (Session.frame path).Tells
      (do
        let declarations ← Session.parseFile job path
        let environment ← Session.recording ((handover.inputs job path).build job.files)
        deeper.recipe ⟨job, path, environment⟩ declarations)
      (Site.following (Session.parseFile job path) Session.site fun declarations =>
        Site.following (Session.recording ((handover.inputs job path).build job.files)) (fun _ => .environment)
          fun environment => sites.recipe ⟨job, path, environment⟩ declarations) :=
  (Session.parseFile_tells job).bind fun declarations => (Session.recording_tells _).bind fun environment =>
    tell.recipe ⟨job, path, environment⟩ declarations

/-- A recipe that another one leads to. The file that led to it is put in front of the chain of its error. -/
theorem compileNested_ends (job : Job) (path : Path) (handover : Handover) {session : Session} {current : Path}
    {rest : List Path} (active : session.active = current :: rest) (apart : Path.AllApart session.active) :
    Ends (fun after => after.active = session.active)
      (fun error => (siteNested sites job path handover session).ToldBy (error.within current) session.active)
      (compileNested deeper job path handover session) := by
  rw [siteNested]
  by_cases busy : session.isActive path = true
  · have refused : compileNested deeper job path handover session = .error (session.cyclic path) session :=
      bind_of_error (Session.enter_of_busy busy) _
    obtain ⟨raised, file⟩ := Session.cyclic_raised active apart path
    rw [if_pos busy, refused]
    refine .of_error rfl ?_
    rw [CompileError.within_of_same (by rw [file, Path.same_self])]
    exact raised
  · have free : session.isActive path = false := by simpa using busy
    rw [if_neg busy, compileNested_of_free free]
    have inside := evaluateNested_tells tell job path handover
      { session with active := path :: session.active } ⟨_, rfl, apart.push free⟩
    refine inside.carry _ (fun after kept => congrArg List.tail kept) fun error told => ?_
    have told : Site.ToldBy error (path :: session.active) _ := told
    rw [active] at told ⊢
    exact told.within

theorem compileFrom_tells (path : Path) (handover : Handover) :
    (frame context []).Tells (compileFrom deeper context path handover) (siteFrom sites context path handover) := by
  intro state placed
  obtain ⟨rest, active, apart⟩ := active_eq_cons placed
  rw [Frame.TellsAt, compileFrom_eq_carry, inSession_eq_carry]
  have nested : Ends (SameFrame state)
      (fun error => (siteFrom sites context path handover state).ToldBy (error.within (state.currentFile context))
        state.session.active)
      (carry id (fun value _ => value) (fun session => { state with session })
        (compileNested deeper context.job path handover state.session)) :=
    (compileNested_ends tell context.job path handover active apart).carry _ (fun _ kept => ⟨kept, rfl, rfl⟩)
      fun _ told => told
  exact nested.carry _ (fun _ kept => kept) fun _ told => told

theorem through_tells (path : Path) (handover : Handover) {next : Entity → Evaluating α}
    (rest : ∀ found, (frame context []).Tells (next found) site) :
    (frame context []).Tells (compileFrom deeper context path handover >>= next)
      (siteThrough sites context deeper path handover) :=
  (compileFrom_tells tell path handover).bind rest

theorem splice_tells (line : Nat) {values : Evaluating (List Value)} {here : Evaluation → Site}
    (evaluated : (frame context []).Tells values here) :
    (frame context []).Tells (splice deeper context line values) (siteSplice sites context line values here) := by
  intro state placed
  rw [Frame.TellsAt, splice, Running.get_bind]
  refine (evaluated.bind fun given => (onePath_tells line _ loadWord given).bind fun relative =>
    (fragmentPath_tells line relative).bind fun path => inFragment_tells ?_ line) state placed
  exact (inSession_tells (Session.parseFile_tells context.job)).bind fun declarations =>
    withFragment_tells (tell.declarations context declarations) path

theorem loadValue_tells (line : Nat) (relative : String) :
    (frame context []).Tells (loadValue deeper context line relative) (siteLoad sites context line relative) :=
  (fragmentPath_tells line relative).bind fun path => inFragment_tells ((readFragment_tells path).bind fun expression =>
    withFragment_tells (tell.expression context expression) path) line

theorem extendBase_tells (line : Nat) {values : Evaluating (List Value)} {here : Evaluation → Site}
    (evaluated : (frame context []).Tells values here) :
    (frame context []).Tells (extendBase deeper context line values)
      (siteExtend sites context line deeper values here) := by
  intro state placed
  rw [Frame.TellsAt, extendBase, Running.get_bind]
  refine ((demand_tells line _).bind fun kind => evaluated.bind fun given =>
    (onePath_tells line kind extendWord given).bind fun reference => ?_) state placed
  intro between placed
  rw [Frame.TellsAt, Running.get_bind]
  refine ((demand_tells line _).bind fun path => through_tells tell path _ fun base => ?_) between placed
  split
  · exact (fail_tells line _).bind_here fun _ => modifyInnermost_tells _
  · exact modifyInnermost_tells _

theorem loadService_tells (line : Nat) :
    (frame context []).Tells (loadService deeper context line) (siteService sites context line deeper) := by
  intro state placed
  rw [Frame.TellsAt, loadService, Running.get_bind, siteService]
  cases state.serviceDirectory? context with
  | none => exact .of_ok ((frame context []).refl state) ()
  | some pair =>
    obtain ⟨name, directory⟩ := pair
    refine ((demand_tells line _).bind fun path => through_tells tell path _ fun loaded => ?_) state placed
    have put : (frame context []).Tells (do
        let entity ← demand context line (loaded.setCoerced nameProperty (.text name))
        modify (mapInnermost fun scope => { scope with entity }) : Evaluating Unit) site :=
      (demand_tells line _).bind_here fun _ => modifyInnermost_tells _
    split
    · exact (fail_tells line _).bind_here fun _ => put
    · exact put

theorem assign_tells (line : Nat) (name : String) (values : List Value) :
    (frame context []).Tells (assign deeper context line name values)
      (siteAssign sites context line deeper name values) := by
  refine (bindName_tells line name values).bind fun _ => ?_
  split
  · exact loadService_tells tell line
  · exact .pure ()

end Files

theorem evaluateBlock_tells {body : Evaluating Unit} {here : Evaluation → Site}
    (tells : (frame context []).Tells body here) (name : String) (line : Nat) (attached : Bool) :
    (frame context []).Tells (evaluateBlock context name line attached body)
      (siteBlock context line name attached here) := by
  rw [evaluateBlock_eq]
  exact (openBlock_tells name line attached).bind fun entity => inScope_tells tells entity

mutual

theorem evaluate_tells (tell : deeper.Tell sites) (line : Nat) (expression : Expression) :
    (frame context []).Tells (evaluate deeper context line expression)
      (siteExpression deeper sites context line expression) := by
  cases expression with
  | null => exact .pure _
  | bool value => exact .pure _
  | int value => exact .pure _
  | float value => exact .pure _
  | text value => exact .pure _
  | interpolated parts => exact interpolated_tells deeper line parts
  | reference name => exact reference_tells deeper line name
  | list items =>
    rw [evaluate, siteExpression]
    exact (evaluateItems_tells tell line items).bind_pure _
  | map entries =>
    rw [evaluate, siteExpression]
    exact (evaluateEntries_tells tell line [] entries).bind_pure _
  | block name blockLine body =>
    rw [evaluate, siteExpression]
    exact (evaluateBlock_tells (evaluateStatements_tells tell body) name blockLine false).bind_pure _
  | load path => exact loadValue_tells tell line path
termination_by structural expression

theorem evaluateItems_tells (tell : deeper.Tell sites) (line : Nat) (items : List Expression) :
    (frame context []).Tells (evaluateItems deeper context line items)
      (siteItems deeper sites context line items) := by
  match items with
  | [] => exact .pure _
  | first :: rest =>
    rw [evaluateItems, siteItems]
    exact (evaluate_tells tell line first).bind fun _ => (evaluateItems_tells tell line rest).bind_pure _
termination_by structural items

theorem evaluateEntries_tells (tell : deeper.Tell sites) (line : Nat) (mapping : Mapping)
    (entries : List (String × Expression)) :
    (frame context []).Tells (evaluateEntries deeper context line mapping entries)
      (siteEntries deeper sites context line entries) := by
  match entries with
  | [] => exact .pure _
  | (key, item) :: rest =>
    rw [evaluateEntries, siteEntries]
    exact (evaluate_tells tell line item).bind fun _ => evaluateEntries_tells tell line _ rest
termination_by structural entries

theorem evaluateStatement_tells (tell : deeper.Tell sites) (declaration : Declaration) :
    (frame context []).Tells (evaluateStatement deeper context declaration)
      (siteStatement deeper sites context declaration) := by
  cases declaration with
  | mk name line body =>
    rw [evaluateStatement, siteStatement]
    exact (evaluateBody_tells tell name line body).bind_ok fun _ state =>
      ⟨_, _, rfl, mapInnermost_same _ state⟩
termination_by structural declaration

theorem evaluateBody_tells (tell : deeper.Tell sites) (name : String) (line : Nat) (body : Body) :
    (frame context []).Tells (evaluateBody deeper context name line body)
      (siteBody deeper sites context name line body) := by
  cases body with
  | block declarations =>
    rw [evaluateBody, siteBody]
    exact (evaluateBlock_tells (evaluateStatements_tells tell declarations) name line true).bind
      fun entity => attach_tells line entity
  | arguments expressions =>
    rw [evaluateBody, siteBody]
    split
    · exact extendBase_tells tell line (evaluateItems_tells tell line expressions)
    · split
      · exact splice_tells tell line (evaluateItems_tells tell line expressions)
      · exact (evaluateItems_tells tell line expressions).bind fun values => assign_tells tell line name values
  | assignment expression =>
    rw [evaluateBody, siteBody]
    exact (evaluate_tells tell line expression).bind fun value => assign_tells tell line name [value]
termination_by structural body

theorem evaluateStatements_tells (tell : deeper.Tell sites) (declarations : List Declaration) :
    (frame context []).Tells (evaluateStatements deeper context declarations)
      (siteStatements deeper sites context declarations) := by
  match declarations with
  | [] => exact .pure _
  | first :: rest =>
    rw [evaluateStatements, siteStatements]
    exact (evaluateStatement_tells tell first).bind fun _ => evaluateStatements_tells tell rest
termination_by structural declarations

end

section Recipes

variable (tell : deeper.Tell sites)
include tell

theorem evaluateTopLevel_tells (declaration : Declaration) :
    (frame context []).Tells (evaluateTopLevel deeper context declaration)
      (siteTopLevel deeper sites context declaration) := by
  obtain ⟨name, line, body⟩ := declaration
  cases body with
  | block declarations =>
    exact (evaluateBlock_tells (evaluateStatements_tells tell declarations) name line true).bind
      fun entity => attach_tells line entity
  | arguments expressions =>
    change (frame context []).Tells (if name = loadWord then _ else if name = extendWord then _ else _)
      (if name = loadWord then _ else _)
    split
    · exact splice_tells tell line (evaluateItems_tells tell line expressions)
    · split
      · exact fail_tells line _
      · exact fail_tells line _
  | assignment expression =>
    exact (evaluate_tells tell line expression).bind_ok fun _ _ => ⟨_, _, rfl, rfl, rfl, rfl⟩

theorem evaluateInPlace_tells (declaration : Declaration) :
    (frame context []).Tells (evaluateInPlace deeper context declaration)
      (siteInPlace deeper sites context declaration) := by
  intro state placed
  rw [Frame.TellsAt, evaluateInPlace, Running.get_bind, siteInPlace]
  split
  · exact evaluateTopLevel_tells tell declaration state placed
  · exact evaluateStatement_tells tell declaration state placed

theorem evaluateRecipe_tells (declarations : List Declaration) :
    (Session.frame context.recipeFile).Tells (evaluateRecipe deeper context declarations)
      (siteRecipe deeper sites context declarations) := by
  rintro session ⟨outer, active, apart⟩
  rw [Frame.TellsAt, evaluateRecipe_eq_carry, siteRecipe]
  have placed : (frame context []).placed (start session) := ⟨outer, active, apart⟩
  refine (Frame.TellsAt.forM_bind (evaluateTopLevel_tells tell) declarations placed fun state same => ?_).carry _
    (fun _ kept => kept.active) fun _ told => told
  rw [Frame.TellsAt, Running.get_bind]
  cases state.root with
  | some root => exact .of_ok ((frame context []).refl state) root
  | none =>
    -- all fragments are left again, so that the recipe is the innermost file
    have innermost : state.session.active = context.recipeFile :: outer := same.active.trans active
    refine .of_error ((frame context []).refl state) ?_
    show CompileError.Raised state.session.active _ state.session.active
    rw [innermost]
    exact .inFile (active ▸ apart) .emptyRecipe

end Recipes

end Evaluation

theorem Deeper.upTo_tell (depth : Nat) : (upTo depth).Tell (Sites.upTo depth) := by
  induction depth with
  | zero => exact ⟨fun _ _ => .throw fun _ _ => rfl, fun _ _ => .throw fun _ _ => rfl, fun _ _ => .throw fun _ _ => rfl⟩
  | succ depth deeper =>
    exact ⟨fun _ declarations => .forM (Evaluation.evaluateInPlace_tells deeper) declarations,
      fun _ expression => Evaluation.evaluate_tells deeper 1 expression,
      fun _ declarations => Evaluation.evaluateRecipe_tells deeper declarations⟩

namespace Job

variable {job : Job} {path : Path} {text : String}

/-- The evaluation of a text tells where it fails, once its file is entered. -/
theorem evaluate_tells {error : CompileError} {after : Session}
    (failed : job.evaluate path text Session.empty = .error error after) :
    (job.site path text).ToldBy error [path] := by
  have read : (Session.frame path).Tells (do
      Session.recording (recordSource path text)
      Session.parseText path text : Compiling (List Declaration)) Session.site :=
    (Session.recordSource_tells path text).bind_here fun _ => Session.parseText_tells text
  have recipe (context : RecipeContext) (declarations : List Declaration) :
      (Session.frame context.recipeFile).Tells
        (Evaluation.evaluateRecipe (Deeper.upTo job.depth) context declarations) _ :=
    (Evaluation.evaluateRecipe_tells (Deeper.upTo_tell job.depth) declarations).following fun _ _ => .validation
  have tells := read.bind fun declarations =>
    (Session.recording_tells ((job.inputs path).build job.files)).bind fun environment =>
      recipe ⟨job, path, environment⟩ declarations
  rw [Job.evaluate, bind_of_ok (Session.enter_of_free rfl)] at failed
  have ends := tells { Session.empty with active := [path] } ⟨[], rfl, List.pairwise_singleton _ path⟩
  rw [Frame.TellsAt, bind_assoc] at ends
  exact (ends.error error after failed).2

/-- After an evaluation only the validation is left. -/
theorem site_of_evaluate {root : Entity} {after : Session}
    (evaluated : job.evaluate path text Session.empty = .ok root after) : job.site path text = .validation := by
  rw [Job.evaluate, bind_of_ok (Session.enter_of_free rfl), ← bind_assoc, bind_eq_ok] at evaluated
  obtain ⟨declarations, _, read, evaluated⟩ := evaluated
  obtain ⟨environment, _, built, evaluated⟩ := (bind_eq_ok _ _ _ _ _).mp evaluated
  exact (Site.following_of_ok read _ _).trans <| (Site.following_of_ok built _ _).trans <|
    Site.following_of_ok evaluated _ _

/-- A file whose compilation enters it is compiled as the text that it holds. -/
theorem ofFile_of_siteOfFile? {file : Path} {site : Site} (entered : job.siteOfFile? file = some site) :
    ∃ path text, Compiled.ofFile job file = Compiled.ofText job path text ∧ job.site path text = site := by
  rw [siteOfFile?, Option.ite_none_right_eq_some] at entered
  obtain ⟨present, entered⟩ := entered
  rw [Compiled.ofFile, if_pos present]
  cases found : job.files.canonical file with
  | error error =>
    rw [found] at entered
    cases entered
  | ok path =>
    simp only [found] at entered ⊢
    cases read : job.files.readText path with
    | error error =>
      rw [read] at entered
      cases entered
    | ok text =>
      rw [read] at entered
      exact ⟨path, text, rfl, Option.some.inj entered⟩

end Job

namespace Compiled

/-- An error that is raised neither by an environment nor by the validation tells the files that are being compiled
where it is raised, the outermost one first. -/
theorem chain_of_error (job : Job) (error : CompileError) (shallow : error.kind ≠ .tooDeep) (site : Site)
    (built : site ≠ .environment) (evaluated : site ≠ .validation) :
    (∀ path text, ofText job path text = .error error → job.site path text = site →
      ∃ active, site = .inside active ∧ error.chain ++ [error.file] = active.reverse) ∧
    (∀ file, ofFile job file = .error error → job.siteOfFile? file = some site →
      ∃ active, site = .inside active ∧ error.chain ++ [error.file] = active.reverse) := by
  have text (path : Path) (text : String) (failed : ofText job path text = .error error)
      (place : job.site path text = site) :
      ∃ active, site = .inside active ∧ error.chain ++ [error.file] = active.reverse := by
    subst place
    cases run : job.evaluate path text Session.empty with
    | ok root after => exact absurd (Job.site_of_evaluate run) evaluated
    | error raised after =>
      rw [ofText, run] at failed
      obtain rfl := Except.error.inj failed
      have told := Job.evaluate_tells run
      cases place : job.site path text with
      | inside active =>
        rw [place] at told
        obtain ⟨-, inner, current, rest, same, rfl, chain⟩ := told
        obtain ⟨rfl, rfl⟩ := List.cons.inj same
        exact ⟨_, rfl, by rw [chain, List.reverse_append]; rfl⟩
      | environment => exact absurd place built
      | validation => exact absurd place evaluated
      | tooDeep =>
        rw [place] at told
        exact absurd told shallow
  refine ⟨text, fun file failed entered => ?_⟩
  obtain ⟨path, content, same, place⟩ := Job.ofFile_of_siteOfFile? entered
  exact text path content (same.symm.trans failed) place

/-- The name that a compilation does not find, where it fails because of it. -/
def unresolved? : Except CompileError Compiled → Option String
  | .error ⟨_, _, _, .unresolvedReference name⟩ => some name
  | _ => none

/-- A service of an application that loads a block, which extends a base, which loads a name. -/
theorem chain_of_error_nested :
    let files : FileTree := ⟨[(["r"], .directory), (["r", "web"], .directory),
      (["r", "a-application.recipe"],
        .file (.text "application \x7b\n service \x7b\n  name \"web\"\n \x7d\n\x7d\n")),
      (["r", "web", "web-service.recipe"], .file (.text "load \"root.recipe\"\n")),
      (["r", "web", "root.recipe"], .file (.text "service \x7b\n extend \"../base-service.recipe\"\n\x7d\n")),
      (["r", "base-service.recipe"], .file (.text "service \x7b\n name load(\"name.recipe\")\n\x7d\n")),
      (["r", "name.recipe"], .file (.text "missing\n"))], ["r"]⟩
    let active : List Path := [⟨"/r/name.recipe"⟩, ⟨"/r/base-service.recipe"⟩, ⟨"/r/web/root.recipe"⟩,
      ⟨"/r/web/web-service.recipe"⟩, ⟨"/r/a-application.recipe"⟩]
    let job := Job.plain files .standard
    let file : Path := ⟨"/r/./a-application.recipe"⟩
    ∃ error, ofFile job file = .error error ∧ error.kind ≠ .tooDeep ∧ job.siteOfFile? file = some (.inside active) ∧
      Site.inside active ≠ .environment ∧ Site.inside active ≠ .validation ∧
      error.chain ++ [error.file] = active.reverse := by
  intro files active job file
  have fails : unresolved? (ofFile job file) = some "missing" := by decide +kernel
  have place : job.siteOfFile? file = some (.inside active) := by decide +kernel
  cases run : ofFile job file with
  | ok compiled =>
    rw [run] at fails
    cases fails
  | error error =>
    have shallow : error.kind ≠ .tooDeep := by
      intro deep
      rw [run, unresolved?.eq_def] at fails
      split at fails
      · rename_i same
        cases same
        cases deep
      · cases fails
    obtain ⟨_, same, chain⟩ := (chain_of_error job error shallow (.inside active) nofun nofun).2 file run place
    obtain rfl := Site.inside.inj same
    exact ⟨error, rfl, shallow, place, nofun, nofun, chain⟩

end Compiled

end DeployRecipe
