import DeployRecipe.Proofs.Compilation.Settles

/-!
The evaluation of a recipe settles what it starts, by recursion on its declarations, and so do the files that
it leads to, one after the other.
-/

namespace DeployRecipe

open Running

/-- The files that are being compiled. -/
def Evaluation.active (state : Evaluation) : List Path := state.session.active

section Steps

/-- A step that records files, whatever is being compiled. -/
abbrev CalmRecording {α : Type} (action : Recording α) : Prop :=
  Calm (fun _ : Sources => []) action

theorem recordSource_calm (path : Path) (text : String) : CalmRecording (recordSource path text) :=
  .modify fun _ => rfl

namespace EnvironmentInputs

theorem pushText_calm (environment : Environment) (source : LayerSource) (path : Path) (text : String) :
    CalmRecording (pushText environment source path text) :=
  (recordSource_calm path text).bind fun _ =>
    (Calm.ofExcept (Properties.parse_spares _ _ _)).bind fun _ => .pure _

theorem pushProperties_calm (inputs : EnvironmentInputs) (files : FileTree) (environment : Environment) :
    CalmRecording (inputs.pushProperties files environment) := by
  unfold pushProperties
  split
  · exact .pure _
  · exact (Calm.ofExcept (files.readText_spares _)).bind fun _ => pushText_calm _ _ _ _

theorem pushOverrides_calm (inputs : EnvironmentInputs) (files : FileTree) (environment : Environment) :
    CalmRecording (inputs.pushOverrides files environment) := by
  refine (Calm.ofExcept (inputs.overridesText?_spares files)).bind fun found => ?_
  cases found with
  | none => exact .pure _
  | some pair =>
    dsimp only
    split
    · have tooLarge (fault : PropertiesFault) :
          ¬ (CompileError.inFile pair.1 (.propertiesParseError pair.1 fault)).OfNesting := by rintro ⟨⟩
      exact (Calm.throw (tooLarge _)).bind fun _ => pushText_calm _ _ _ _
    · exact pushText_calm _ _ _ _

theorem build_calm (inputs : EnvironmentInputs) (files : FileTree) : CalmRecording (inputs.build files) :=
  (inputs.pushProperties_calm files _).bind fun _ => (inputs.pushOverrides_calm files _).bind fun _ => .pure _

end EnvironmentInputs

namespace Session

theorem recording_calm {α : Type} {action : Recording α} (calm : CalmRecording action) :
    Calm active (recording action) := by
  intro session
  rw [recording]
  cases run : action session.sources with
  | ok value sources => exact .ok value rfl
  | error error sources => exact .error ((calm _).spares error sources run)

theorem read_calm (job : Job) (path : Path) : Calm active (read job path) :=
  (Calm.ofExcept (job.files.readText_spares path)).bind fun _ =>
    (recording_calm (recordSource_calm path _)).bind fun _ => .pure _

theorem parseText_calm (path : Path) (text : String) : Calm active (parseText path text) := by
  intro session
  rw [parseText, Running.get_bind]
  cases session.parsed? path with
  | some declarations => exact .ok declarations rfl
  | none =>
    cases Recipe.readDeclarations text with
    | ok declarations =>
      have kept : active { session with parsed := (path, declarations) :: session.parsed } = active session := rfl
      exact .ok declarations kept
    | error error => exact .error (by rintro ⟨⟩)

theorem parseFile_calm (job : Job) (path : Path) : Calm active (parseFile job path) := by
  refine Calm.get_bind fun session => ?_
  split
  · exact .pure _
  · exact (read_calm job path).bind fun _ => parseText_calm path _

end Session

namespace Evaluation

variable {α : Type} {context : RecipeContext}

theorem inSession_calm {action : Compiling α} (calm : Calm Session.active action) :
    Calm active (inSession action) := by
  intro state
  rw [inSession]
  cases run : action state.session with
  | ok value session => exact .ok value ((calm _).keeps value session run)
  | error error session => exact .error ((calm _).spares error session run)

theorem fail_calm (line : Nat) {kind : ErrorKind} (good : ¬ kind.OfNesting) :
    Calm active (fail context line kind : Evaluating α) :=
  Calm.get_bind fun _ => .throw good

theorem demand_calm (line : Nat) {outcome : Except ErrorKind α} (spares : Spares ErrorKind.OfNesting outcome) :
    Calm active (demand context line outcome) := by
  cases outcome with
  | ok value => exact .pure value
  | error kind => exact fail_calm line (spares kind rfl)

theorem onePath_calm (line : Nat) (kind : EntityKind) (directive : String) (values : List Value) :
    Calm active (onePath context line kind directive values) := by
  unfold onePath
  split
  · exact .pure _
  · exact fail_calm line (by rintro ⟨⟩)

theorem fragmentPath_calm (line : Nat) (relative : String) : Calm active (fragmentPath context line relative) := by
  refine Calm.get_bind fun state => ?_
  dsimp only
  split
  · split
    · exact .pure _
    · exact fail_calm line (by rintro ⟨⟩)
  · exact fail_calm line (by rintro ⟨⟩)

theorem readFragment_calm (path : Path) : Calm active (readFragment context path) := by
  refine (inSession_calm (Session.read_calm _ _)).bind fun text => ?_
  split
  · exact .pure _
  · exact .throw (by rintro ⟨⟩)

theorem active_mapInnermost (change : Scope → Scope) (state : Evaluation) :
    (state.mapInnermost change).active = state.active :=
  congrArg Session.active (session_mapInnermost state change)

theorem modifyInnermost_calm (change : Scope → Scope) :
    Calm active (modify (mapInnermost change) : Evaluating PUnit) :=
  .modify (active_mapInnermost change)

theorem openBlock_calm (name : String) (line : Nat) (attached : Bool) :
    Calm active (openBlock context name line attached) := by
  unfold openBlock
  split
  · exact fail_calm line (by rintro ⟨⟩)
  · refine Calm.get_bind fun state => (demand_calm line (checkPlace_spares _ _ _)).bind fun _ => ?_
    split
    · exact (demand_calm line (openAttached_spares _ _)).bind fun _ =>
        (modifyInnermost_calm _).bind fun _ => .pure _
    · exact .pure _

theorem attach_calm (line : Nat) (entity : Entity) : Calm active (attach context line entity) := by
  intro state
  rw [attach, Running.get_bind]
  cases state.scopes with
  | nil => exact .ok _ rfl
  | cons parent outer =>
    exact (demand_calm line (Entity.bindEntity_spares _ _ _) state).bind fun _ _ _ _ => .ok _ rfl

theorem bindName_calm (line : Nat) (name : String) (values : List Value) :
    Calm active (bindName context line name values) := by
  intro state
  have unknown : ¬ (ErrorKind.unknownDeclaration name).OfNesting := by rintro ⟨⟩
  rw [bindName, Running.get_bind]
  cases state.scopes with
  | nil => exact fail_calm line unknown state
  | cons scope outer =>
    exact (demand_calm line (bound_spares scope name values) state).bind fun _ _ _ _ => .ok _ rfl

end Evaluation

end Steps

section Files

variable {job : Job} {limit : Nat} {own : List Path} {α : Type}

namespace Session

theorem enter_of_active {session : Session} {path : Path} (busy : session.isActive path = true) :
    ∃ error, enter path session = .error error session ∧ error.IsCircular := by
  rw [enter, Running.get_bind, if_pos busy]
  exact ⟨_, rfl, _, rfl⟩

theorem enter_of_free {session : Session} {path : Path} (free : session.isActive path = false) :
    enter path session = .ok () { session with active := path :: session.active } :=
  (enter_eq_ok _ _ _ _).mpr ⟨free, rfl⟩

end Session

namespace Evaluation

theorem inSession_eq_carry (action : Compiling α) (state : Evaluation) :
    inSession action state =
      carry id (fun value _ => value) (fun session => { state with session }) (action state.session) := by
  rw [inSession]
  cases action state.session <;> rfl

theorem inScope_eq_carry (entity : Entity) (body : Evaluating Unit) (state : Evaluation) :
    inScope entity body state =
      carry id (fun _ after => (after.scopes.head?.map Scope.entity).getD entity)
        (fun after => { after with scopes := after.scopes.tail })
        (body { state with scopes := .opening entity :: state.scopes }) := by
  rw [inScope]
  cases body { state with scopes := .opening entity :: state.scopes } <;> rfl

theorem inSession_settles {one other : Compiling α} {here : Session → List Moment}
    (settles : Settles job Session.active limit own one other here) :
    Settles job active limit own (inSession one) (inSession other) fun state => here state.session := by
  intro state inside tame
  rw [inSession_eq_carry, inSession_eq_carry]
  exact (settles state.session inside tame).carry (fun _ => rfl) _ fun _ kept => kept

theorem inScope_settles {body body' : Evaluating Unit} {here : Evaluation → List Moment}
    (settles : Settles job active limit own body body' here) (entity : Entity) :
    Settles job active limit own (inScope entity body) (inScope entity body') fun state =>
      here { state with scopes := .opening entity :: state.scopes } := by
  intro state inside tame
  rw [inScope_eq_carry, inScope_eq_carry]
  have settled := settles { state with scopes := .opening entity :: state.scopes } inside tame
  exact settled.carry (fun _ => rfl) _ fun _ kept => kept

theorem withFragment_settles {one other : Evaluating α} {here : Evaluation → List Moment}
    (settles : Settles job active limit own one other here) (path : Path) :
    Settles job active limit own (withFragment path one) (withFragment path other)
      (momentsWithFragment path here) := by
  intro state inside tame
  rw [withFragment, withFragment, Running.modify_bind, Running.modify_bind, ensuring_eq_carry,
    ensuring_eq_carry]
  have settled := settles { state with fragments := path :: state.fragments } inside tame
  exact settled.carry (fun _ => rfl) _ fun _ kept => kept

theorem inFragment_of_active (context : RecipeContext) {path : Path} {state : Evaluation}
    (busy : state.session.isActive path = true) (line : Nat) :
    ∃ error, error.IsCircular ∧
      ∀ action : Evaluating α, inFragment context line path action state = .error error state := by
  obtain ⟨error, entered, cycle, circular⟩ := Session.enter_of_active busy
  refine ⟨(error.atLine line).within (state.currentFile context),
    ⟨cycle, (CompileError.kind_within _ _).trans circular⟩, fun action => ?_⟩
  rw [inFragment, Running.get_bind]
  refine bind_of_error ?_ _
  rw [adapting_eq_carry, inSession_eq_carry, entered]
  rfl

theorem inFragment_of_free {context : RecipeContext} {path : Path} {state : Evaluation}
    (free : state.session.isActive path = false) (line : Nat) (action : Evaluating α) :
    inFragment context line path action state =
      carry (fun error => error.within (state.currentFile context)) (fun value _ => value) id
        (carry id (fun value _ => value) (fun state => { state with session := state.session.leave })
          (action { state with session := { state.session with active := path :: state.session.active } })) := by
  have entered : adapting (fun error => (error.atLine line).within (state.currentFile context))
      (inSession (Session.enter path)) state =
        .ok () { state with session := { state.session with active := path :: state.session.active } } := by
    rw [adapting_eq_carry, inSession_eq_carry, Session.enter_of_free free]
    rfl
  rw [inFragment, Running.get_bind, bind_of_ok entered, adapting_eq_carry, ensuring_eq_carry]

/-- What is done inside a fragment, which is entered unless it is being compiled. -/
theorem inFragment_settles {context : RecipeContext} {line : Nat} {path : Path} {one other : Evaluating α}
    {here : Evaluation → List Moment}
    (settles : (own.any fun outer => outer.same path) = false →
      (path :: own).length ≤ limit ∧ Settles job active limit (path :: own) one other here) :
    Settles job active limit own (inFragment context line path one) (inFragment context line path other)
      (momentsInFragment path here) := by
  rintro state rfl tame
  rw [momentsInFragment] at tame ⊢
  by_cases busy : state.session.isActive path = true
  · obtain ⟨error, circular, refused⟩ := inFragment_of_active (α := α) context busy line
    rw [refused, refused, if_pos busy]
    exact .of_isCircular circular (List.forall_mem_nil _)
  · have free : state.session.isActive path = false := by simpa using busy
    obtain ⟨bounded, inner⟩ := settles free
    rw [if_neg busy] at tame ⊢
    have settled := inner { state with session := { state.session with active := path :: state.session.active } }
      rfl fun moment member => tame moment (List.mem_cons_of_mem _ member)
    rw [inFragment_of_free free, inFragment_of_free free]
    refine .cons bounded rfl (.carry ?_ (CompileError.kind_within · _) _ fun _ kept => kept)
    exact settled.carry (fun _ => rfl) _ fun after inside => congrArg List.tail inside

end Evaluation

end Files

/-- The files that a file leads to settle what they start, where there is room for so many more of them. -/
structure Deeper.Settles (job : Job) (places : List Location) (room : Nat) (deeper other : Deeper)
    (watch : Watch) : Prop where
  declarations : ∀ {own context}, Enclosed places own → places.length < room + own.length →
    context.Within job → ∀ declarations, DeployRecipe.Settles job Evaluation.active places.length own
      (deeper.declarations context declarations) (other.declarations context declarations)
      (watch.declarations context declarations)
  expression : ∀ {own context}, Enclosed places own → places.length < room + own.length →
    context.Within job → ∀ expression, DeployRecipe.Settles job Evaluation.active places.length own
      (deeper.expression context expression) (other.expression context expression)
      (watch.expression context expression)
  recipe : ∀ {own context}, Enclosed places own → places.length < room + own.length →
    context.Within job → ∀ declarations, DeployRecipe.Settles job Session.active places.length own
      (deeper.recipe context declarations) (other.recipe context declarations)
      (watch.recipe context declarations)

/-- Where a recipe stands that is being evaluated: among files that are at different places, with room for
all the others. -/
structure Situated (job : Job) (places : List Location) (room : Nat) (deeper other : Deeper) (watch : Watch)
    (own : List Path) (context : RecipeContext) : Prop where
  proper : job.files.Proper
  files : job.files.fileLocations ⊆ places
  enclosed : Enclosed places own
  enough : places.length ≤ room + own.length
  within : context.Within job
  settles : deeper.Settles job places room other watch

namespace Evaluation

variable {job : Job} {places : List Location} {room : Nat} {deeper other : Deeper} {watch : Watch}
  {own : List Path} {context : RecipeContext}

theorem compileNested_of_active {path : Path} {session : Session} (busy : session.isActive path = true) :
    ∃ error, error.IsCircular ∧ ∀ deeper job handover,
      compileNested deeper job path handover session = .error error session := by
  obtain ⟨error, entered, circular⟩ := Session.enter_of_active busy
  exact ⟨error, circular, fun deeper job handover => bind_of_error entered _⟩

theorem compileNested_of_free {path : Path} {session : Session} (free : session.isActive path = false)
    (deeper : Deeper) (job : Job) (handover : Handover) :
    compileNested deeper job path handover session =
      carry id (fun value _ => value) Session.leave
        ((do
          let declarations ← Session.parseFile job path
          let environment ← Session.recording ((handover.inputs job path).build job.files)
          deeper.recipe ⟨job, path, environment⟩ declarations : Compiling Entity)
          { session with active := path :: session.active }) := by
  rw [compileNested, bind_of_ok (Session.enter_of_free free), ensuring_eq_carry]

theorem compileFrom_eq_carry (path : Path) (handover : Handover) (state : Evaluation) :
    compileFrom deeper context path handover state =
      carry (fun error => error.within (state.currentFile context)) (fun value _ => value) id
        (inSession (compileNested deeper context.job path handover) state) := by
  rw [compileFrom, Running.get_bind, adapting_eq_carry]

theorem putService_calm (line : Nat) (name : String) (loaded : Entity) :
    Calm active (do
      if loaded.kind ≠ .service then
        fail context line (.wrongRootType .service loaded.kind)
      let entity ← demand context line (loaded.setCoerced nameProperty (.text name))
      modify (mapInnermost fun scope => { scope with entity }) : Evaluating Unit) := by
  have put : Calm active (do
      let entity ← demand context line (loaded.setCoerced nameProperty (.text name))
      modify (mapInnermost fun scope => { scope with entity }) : Evaluating Unit) :=
    (demand_calm line (loaded.setCoerced_spares nameProperty (.text name))).bind fun _ => modifyInnermost_calm _
  have other : ¬ (ErrorKind.wrongRootType .service loaded.kind).OfNesting := by rintro ⟨⟩
  split
  · exact (fail_calm line other).bind fun _ => put
  · exact put

theorem compileFrom_of_active (context : RecipeContext) {path : Path} {state : Evaluation}
    (busy : state.session.isActive path = true) :
    ∃ error after, error.IsCircular ∧
      ∀ deeper handover, compileFrom deeper context path handover state = .error error after := by
  obtain ⟨error, ⟨cycle, circular⟩, refused⟩ := compileNested_of_active busy
  refine ⟨error.within (state.currentFile context), state, ⟨cycle, (CompileError.kind_within _ _).trans circular⟩,
    fun deeper handover => ?_⟩
  rw [compileFrom_eq_carry, inSession_eq_carry, refused]
  rfl

section Loading

variable {state : Evaluation} {name : String} {directory path : Path}
  (named : state.serviceDirectory? context = some (name, directory))
  (searched : context.job.files.theFileEndingIn directory RecipeKind.service.suffix = .ok path)
  (busy : state.session.isActive path = true)
include named searched busy

theorem loadService_of_active (line : Nat) :
    ∃ error after, error.IsCircular ∧ ∀ deeper, loadService deeper context line state = .error error after := by
  obtain ⟨error, after, circular, refused⟩ := compileFrom_of_active context busy
  refine ⟨error, after, circular, fun deeper => ?_⟩
  rw [loadService, Running.get_bind, named]
  dsimp only
  rw [searched]
  exact bind_of_error (refused deeper _) _

theorem momentsService_of_active (watch : Watch) (line : Nat) :
    momentsService watch context line state = [.named context state] := by
  rw [momentsService, named]
  dsimp only
  rw [searched]
  exact congrArg (List.cons _) (if_pos busy)

end Loading

theorem evaluateBlock_settles {name : String} {line : Nat} {attached : Bool} {body body' : Evaluating Unit}
    {here : Evaluation → List Moment} (settles : Settles job active places.length own body body' here) :
    Settles job active places.length own (evaluateBlock context name line attached body)
      (evaluateBlock context name line attached body') (momentsBlock context line name attached here) := by
  rw [evaluateBlock_eq, evaluateBlock_eq]
  exact Settles.calm_bind (openBlock_calm name line attached) fun entity _ => inScope_settles settles entity

theorem interpolated_calm (deeper : Deeper) (line : Nat) (parts : List TextPart) :
    Calm active (evaluate deeper context line (.interpolated parts)) := by
  refine Calm.get_bind fun state => ?_
  split
  · exact .pure _
  · exact fail_calm line (by rintro ⟨⟩)

theorem reference_calm (deeper : Deeper) (line : Nat) (name : String) :
    Calm active (evaluate deeper context line (.reference name)) := by
  refine Calm.get_bind fun state => ?_
  have unresolved : ¬ (ErrorKind.unresolvedReference name).OfNesting := by rintro ⟨⟩
  split
  · exact .pure _
  · exact fail_calm line unresolved

section Situated

variable (situated : Situated job places room deeper other watch own context)
include situated

/-- A file at a plain path can be entered where it is not being compiled. -/
theorem Situated.push {path : Path} (plain : path.IsPlain) (file : path.moves ∈ job.files.fileLocations)
    (free : (own.any fun outer => outer.same path) = false) :
    Enclosed places (path :: own) ∧ places.length < room + (path :: own).length := by
  refine ⟨situated.enclosed.push plain (situated.files file) free, ?_⟩
  have := situated.enough
  rw [List.length_cons]
  omega

theorem fragmentPath_plain {line : Nat} {relative : String} {path : Path} {before after : Evaluation}
    (run : fragmentPath context line relative before = .ok path after) :
    path.IsPlain ∧ path.moves ∈ job.files.fileLocations := by
  obtain ⟨⟨file, found⟩, -⟩ := (fragmentPath_eq_ok _ _ _).mp run
  rw [situated.within.job] at file found
  exact FileTree.canonical_of_isFile situated.proper file found

theorem splice_settles (line : Nat) {values values' : Evaluating (List Value)} {here : Evaluation → List Moment}
    (evaluated : Settles job active places.length own values values' here) :
    Settles job active places.length own (splice deeper context line values)
      (splice other context line values') (momentsSplice watch context line values here) := by
  intro state inside tame
  rw [splice, splice, Running.get_bind, Running.get_bind]
  refine (evaluated.bind fun given => ?_) state inside tame
  refine Settles.calm_bind (onePath_calm _ _ _ _) fun relative _ => ?_
  refine Settles.calm_bind (fragmentPath_calm _ _) fun path run => inFragment_settles fun free => ?_
  obtain ⟨_, _, run⟩ := run
  obtain ⟨plain, file⟩ := fragmentPath_plain situated run
  obtain ⟨enclosed, enough⟩ := Situated.push situated plain file free
  exact ⟨enclosed.length_le, (Settles.calm_bind (inSession_calm (Session.parseFile_calm _ _))) fun declarations _ =>
    withFragment_settles (situated.settles.declarations enclosed enough situated.within declarations) path⟩

theorem loadValue_settles (line : Nat) (relative : String) :
    Settles job active places.length own (loadValue deeper context line relative)
      (loadValue other context line relative) (momentsLoad watch context line relative) := by
  refine (Settles.calm_bind (fragmentPath_calm _ _)) fun path run => inFragment_settles fun free => ?_
  obtain ⟨_, _, run⟩ := run
  obtain ⟨plain, file⟩ := fragmentPath_plain situated run
  obtain ⟨enclosed, enough⟩ := Situated.push situated plain file free
  exact ⟨enclosed.length_le, (Settles.calm_bind (readFragment_calm _)) fun expression _ =>
    withFragment_settles (situated.settles.expression enclosed enough situated.within expression) path⟩

/-- What is done inside a recipe that another one leads to. -/
theorem evaluateNested_settles {path : Path} (plain : path.IsPlain) (enclosed : Enclosed places (path :: own))
    (enough : places.length < room + (path :: own).length) (handover : Handover) :
    Settles job Session.active places.length (path :: own)
      (do
        let declarations ← Session.parseFile job path
        let environment ← Session.recording ((handover.inputs job path).build job.files)
        deeper.recipe ⟨job, path, environment⟩ declarations)
      (do
        let declarations ← Session.parseFile job path
        let environment ← Session.recording ((handover.inputs job path).build job.files)
        other.recipe ⟨job, path, environment⟩ declarations)
      (followed (Session.parseFile job path) fun declarations =>
        followed (Session.recording ((handover.inputs job path).build job.files)) fun environment =>
          watch.recipe ⟨job, path, environment⟩ declarations) := by
  refine Settles.calm_bind (Session.parseFile_calm _ _) fun declarations _ =>
    Settles.calm_bind (Session.recording_calm (EnvironmentInputs.build_calm _ _)) fun environment _ => ?_
  exact situated.settles.recipe enclosed enough ⟨rfl, plain⟩ declarations

/-- A recipe at a plain path is compiled, unless it is being compiled. -/
theorem compileNested_settles {path : Path} (plain : path.IsPlain)
    (file : path.moves ∈ job.files.fileLocations) (handover : Handover) :
    Settles job Session.active places.length own (compileNested deeper job path handover)
      (compileNested other job path handover) (momentsNested watch job path handover) := by
  rintro session rfl tame
  rw [momentsNested] at tame ⊢
  by_cases busy : session.isActive path = true
  · obtain ⟨error, circular, refused⟩ := compileNested_of_active busy
    rw [refused, refused, if_pos busy]
    exact .of_isCircular circular (List.forall_mem_nil _)
  · have free : session.isActive path = false := by simpa using busy
    obtain ⟨enclosed, enough⟩ := Situated.push situated plain file free
    rw [if_neg busy] at tame ⊢
    rw [compileNested_of_free free, compileNested_of_free free]
    have inner := evaluateNested_settles situated plain enclosed enough handover
      { session with active := path :: session.active } rfl
      fun moment member => tame moment (List.mem_cons_of_mem _ member)
    exact .cons enclosed.length_le rfl
      (inner.carry (fun _ => rfl) _ fun after inside => congrArg List.tail inside)

theorem compileFrom_settles {path : Path} (plain : path.IsPlain)
    (file : path.moves ∈ job.files.fileLocations) (handover : Handover) :
    Settles job active places.length own (compileFrom deeper context path handover)
      (compileFrom other context path handover) (momentsFrom watch context path handover) := by
  have nested : Settles job active places.length own
      (inSession (compileNested deeper context.job path handover))
      (inSession (compileNested other context.job path handover)) (momentsFrom watch context path handover) := by
    unfold momentsFrom
    rw [situated.within.job]
    exact inSession_settles (compileNested_settles situated plain file handover)
  intro state inside tame
  rw [compileFrom_eq_carry, compileFrom_eq_carry]
  exact (nested state inside tame).carry (CompileError.kind_within · _) _ fun _ kept => kept

theorem extendBase_settles (line : Nat) {values values' : Evaluating (List Value)} {here : Evaluation → List Moment}
    (evaluated : Settles job active places.length own values values' here) :
    Settles job active places.length own (extendBase deeper context line values)
      (extendBase other context line values') (momentsExtend watch context line values here) := by
  intro state inside tame
  rw [extendBase, extendBase, Running.get_bind, Running.get_bind]
  refine (Settles.calm_bind (demand_calm line (extendingKind_spares state)) fun kind _ =>
    evaluated.bind fun given => Settles.calm_bind (onePath_calm line kind extendWord given)
      fun reference _ => ?_) state inside tame
  intro between inside tame
  rw [Running.get_bind, Running.get_bind]
  refine (Settles.calm_bind (demand_calm line (BaseReference.resolve_spares _ _ _ _)) fun path run => ?_)
    between inside tame
  obtain ⟨_, _, run⟩ := run
  obtain ⟨candidate, file, found⟩ := resolve_isFile ((demand_eq_ok _ _ _).mp run).1
  rw [situated.within.job] at file found
  obtain ⟨plain, place⟩ := FileTree.canonical_of_isFile situated.proper file found
  refine (compileFrom_settles situated plain place _).bind_calm fun base => ?_
  have other : ¬ (ErrorKind.wrongRootType .service base.kind).OfNesting := by rintro ⟨⟩
  split
  · exact (fail_calm line other).bind fun _ => modifyInnermost_calm _
  · exact modifyInnermost_calm _

/-- A service that is to be loaded from a file that is being compiled leads back to it. -/
theorem isActive_of_closes {state : Evaluation} (inside : state.active = own)
    (tame : (Moment.named context state).Tame job) (closing : (Moment.named context state).closes = true) :
    ∃ name directory path, state.serviceDirectory? context = some (name, directory) ∧
      context.job.files.theFileEndingIn directory RecipeKind.service.suffix = .ok path ∧
      state.session.isActive path = true := by
  rw [Moment.closes] at closing
  split at closing
  · cases closing
  · rename_i path loaded
    obtain ⟨outer, present, together⟩ := List.any_eq_true.mp closing
    have plain := tame situated.within path loaded
    have plain' := situated.enclosed.plain outer (inside ▸ present)
    rw [FileTree.leadTogether] at together
    split at together
    · rename_i place there located reached
      -- plain paths lead to the places that their names spell, so two of them that meet have the same names
      have moves : outer.moves = path.moves :=
        (plain'.place located).symm.trans ((of_decide_eq_true together).trans (plain.place reached))
      obtain ⟨name, directory, named, searched⟩ := Moment.serviceFile?_eq_some.mp loaded
      exact ⟨name, directory, path, named, searched, List.any_eq_true.mpr
        ⟨outer, present, Path.same_of_moves plain'.absolute plain.absolute moves⟩⟩
    · cases together

theorem loadService_settles (line : Nat) :
    Settles job active places.length own (loadService deeper context line) (loadService other context line)
      (momentsService watch context line) := by
  intro state inside tame
  have here : (Moment.named context state).Tame job := tame _ List.mem_cons_self
  have bounded : (Moment.named context state).session.active.length ≤ places.length := by
    have length_le := situated.enclosed.length_le
    rwa [← inside] at length_le
  by_cases closing : (Moment.named context state).closes = true
  · obtain ⟨name, directory, path, named, searched, busy⟩ := isActive_of_closes situated inside here closing
    obtain ⟨error, after, circular, refused⟩ := loadService_of_active named searched busy line
    rw [refused, refused, momentsService_of_active named searched busy]
    exact .of_isCircular circular (List.forall_mem_singleton.mpr bounded)
  · rw [loadService, loadService, Running.get_bind, Running.get_bind]
    rw [momentsService] at tame ⊢
    refine .cons bounded (by simpa using closing) ?_
    cases named : state.serviceDirectory? context with
    | none => exact .of_quiet (.ok () inside)
    | some pair =>
      obtain ⟨name, directory⟩ := pair
      simp only [named] at tame ⊢
      refine (Settles.calm_bind (demand_calm line (FileTree.theFileEndingIn_spares _ _ _)) fun path run => ?_)
        state inside fun moment member => tame moment (List.mem_cons_of_mem _ member)
      obtain ⟨_, _, run⟩ := run
      have searched := ((demand_eq_ok _ _ _).mp run).1
      have file := theFileEndingIn_isFile searched
      rw [situated.within.job] at file
      have plain := here situated.within path (Moment.serviceFile?_eq_some.mpr ⟨name, directory, named, searched⟩)
      exact (compileFrom_settles situated plain (FileTree.mem_fileLocations_of_isPlain plain file) _).bind_calm
        fun compiled => putService_calm line name compiled

theorem assign_settles (line : Nat) (name : String) (values : List Value) :
    Settles job active places.length own (assign deeper context line name values)
      (assign other context line name values) (momentsAssign watch context line name values) := by
  refine Settles.calm_bind (bindName_calm line name values) fun _ _ => ?_
  split
  · exact loadService_settles situated line
  · exact .of_calm (.pure ())

end Situated

mutual

theorem evaluate_settles (situated : Situated job places room deeper other watch own context)
    (line : Nat) (expression : Expression) :
    Settles job active places.length own (evaluate deeper context line expression)
      (evaluate other context line expression) (momentsExpression deeper watch context line expression) := by
  cases expression with
  | null => exact .of_calm (.pure _)
  | bool value => exact .of_calm (.pure _)
  | int value => exact .of_calm (.pure _)
  | float value => exact .of_calm (.pure _)
  | text value => exact .of_calm (.pure _)
  | interpolated parts => exact .of_calm (interpolated_calm deeper line parts)
  | reference name => exact .of_calm (reference_calm deeper line name)
  | list items =>
    rw [evaluate, evaluate, momentsExpression]
    exact (evaluateItems_settles situated line items).bind_calm fun _ => .pure _
  | map entries =>
    rw [evaluate, evaluate, momentsExpression]
    exact (evaluateEntries_settles situated line [] entries).bind_calm fun _ => .pure _
  | block name blockLine body =>
    rw [evaluate, evaluate, momentsExpression]
    exact (evaluateBlock_settles (evaluateStatements_settles situated body)).bind_calm fun _ => .pure _
  | load path => exact loadValue_settles situated line path
termination_by structural expression

theorem evaluateItems_settles (situated : Situated job places room deeper other watch own context)
    (line : Nat) (items : List Expression) :
    Settles job active places.length own (evaluateItems deeper context line items)
      (evaluateItems other context line items) (momentsItems deeper watch context line items) := by
  match items with
  | [] => exact .of_calm (.pure _)
  | first :: rest =>
    rw [evaluateItems, evaluateItems, momentsItems]
    exact (evaluate_settles situated line first).bind fun _ =>
      (evaluateItems_settles situated line rest).bind_calm fun _ => .pure _
termination_by structural items

theorem evaluateEntries_settles (situated : Situated job places room deeper other watch own context)
    (line : Nat) (mapping : Mapping) (entries : List (String × Expression)) :
    Settles job active places.length own (evaluateEntries deeper context line mapping entries)
      (evaluateEntries other context line mapping entries) (momentsEntries deeper watch context line entries) := by
  match entries with
  | [] => exact .of_calm (.pure _)
  | (key, item) :: rest =>
    rw [evaluateEntries, evaluateEntries, momentsEntries]
    exact (evaluate_settles situated line item).bind fun _ => evaluateEntries_settles situated line _ rest
termination_by structural entries

theorem evaluateStatement_settles (situated : Situated job places room deeper other watch own context)
    (declaration : Declaration) :
    Settles job active places.length own (evaluateStatement deeper context declaration)
      (evaluateStatement other context declaration) (momentsStatement deeper watch context declaration) := by
  cases declaration with
  | mk name line body =>
    rw [evaluateStatement, evaluateStatement, momentsStatement]
    exact (evaluateBody_settles situated name line body).bind_calm fun _ => modifyInnermost_calm _
termination_by structural declaration

theorem evaluateBody_settles (situated : Situated job places room deeper other watch own context)
    (name : String) (line : Nat) (body : Body) :
    Settles job active places.length own (evaluateBody deeper context name line body)
      (evaluateBody other context name line body) (momentsBody deeper watch context name line body) := by
  cases body with
  | block declarations =>
    rw [evaluateBody, evaluateBody, momentsBody]
    exact (evaluateBlock_settles (evaluateStatements_settles situated declarations)).bind_calm
      fun entity => attach_calm line entity
  | arguments expressions =>
    rw [evaluateBody, evaluateBody, momentsBody]
    split
    · exact extendBase_settles situated line (evaluateItems_settles situated line expressions)
    · split
      · exact splice_settles situated line (evaluateItems_settles situated line expressions)
      · exact (evaluateItems_settles situated line expressions).bind fun values =>
          assign_settles situated line name values
  | assignment expression =>
    rw [evaluateBody, evaluateBody, momentsBody]
    exact (evaluate_settles situated line expression).bind fun value => assign_settles situated line name [value]
termination_by structural body

theorem evaluateStatements_settles (situated : Situated job places room deeper other watch own context)
    (declarations : List Declaration) :
    Settles job active places.length own (evaluateStatements deeper context declarations)
      (evaluateStatements other context declarations) (momentsStatements deeper watch context declarations) := by
  match declarations with
  | [] => exact .of_calm (.pure _)
  | first :: rest =>
    rw [evaluateStatements, evaluateStatements, momentsStatements]
    exact (evaluateStatement_settles situated first).bind fun _ => evaluateStatements_settles situated rest
termination_by structural declarations

end

theorem evaluateTopLevel_settles (situated : Situated job places room deeper other watch own context)
    (declaration : Declaration) :
    Settles job active places.length own (evaluateTopLevel deeper context declaration)
      (evaluateTopLevel other context declaration) (momentsTopLevel deeper watch context declaration) := by
  obtain ⟨name, line, body⟩ := declaration
  cases body with
  | block declarations =>
    exact (evaluateBlock_settles (evaluateStatements_settles situated declarations)).bind_calm
      fun entity => attach_calm line entity
  | arguments expressions =>
    change Settles job active places.length own
      (if name = loadWord then _ else if name = extendWord then _ else _)
      (if name = loadWord then _ else if name = extendWord then _ else _) (if name = loadWord then _ else _)
    have unknown : ¬ (ErrorKind.unknownDeclaration name).OfNesting := by rintro ⟨⟩
    have unsupported : ¬ (ErrorKind.unsupportedExtension none).OfNesting := by rintro ⟨⟩
    split
    · exact splice_settles situated line (evaluateItems_settles situated line expressions)
    · split
      · exact .of_calm (fail_calm line unsupported)
      · exact .of_calm (fail_calm line unknown)
  | assignment expression =>
    exact (evaluate_settles situated line expression).bind_calm fun _ => .modify fun _ => rfl

theorem evaluateInPlace_settles (situated : Situated job places room deeper other watch own context)
    (declaration : Declaration) :
    Settles job active places.length own (evaluateInPlace deeper context declaration)
      (evaluateInPlace other context declaration) (momentsInPlace deeper watch context declaration) := by
  intro state inside tame
  rw [evaluateInPlace, evaluateInPlace, Running.get_bind, Running.get_bind]
  rw [momentsInPlace] at tame ⊢
  by_cases outside : state.scopes.isEmpty = true
  · rw [if_pos outside] at tame ⊢
    rw [if_pos outside, if_pos outside]
    exact evaluateTopLevel_settles situated declaration state inside tame
  · rw [if_neg outside] at tame ⊢
    rw [if_neg outside, if_neg outside]
    exact evaluateStatement_settles situated declaration state inside tame

/-- The root that a recipe leaves. -/
theorem evaluateRecipe_eq_carry (deeper : Deeper) (declarations : List Declaration) (session : Session) :
    evaluateRecipe deeper context declarations session =
      carry id (fun value _ => value) Evaluation.session
        ((do
          declarations.forM (evaluateTopLevel deeper context)
          match (← get).root with
          | some root => pure root
          | none => throw (.inFile context.recipeFile .emptyRecipe) : Evaluating Entity) (start session)) := by
  rw [evaluateRecipe]
  cases run : declarations.forM (evaluateTopLevel deeper context) (start session) with
  | error error state =>
    rw [bind_of_error run]
    rfl
  | ok value state =>
    rw [bind_of_ok run, Running.get_bind]
    cases root : state.root <;>
    · dsimp only
      rw [root]
      rfl

theorem evaluateRecipe_settles (situated : Situated job places room deeper other watch own context)
    (declarations : List Declaration) :
    Settles job Session.active places.length own (evaluateRecipe deeper context declarations)
      (evaluateRecipe other context declarations) (momentsRecipe deeper watch context declarations) := by
  intro session inside tame
  have whole := Settles.forM (fun item => evaluateTopLevel_settles situated item) declarations
  rw [evaluateRecipe_eq_carry, evaluateRecipe_eq_carry]
  refine .carry ((whole.bind_calm fun _ => Calm.get_bind fun state => ?_) (start session) inside tame)
    (fun _ => rfl) _ fun _ kept => kept
  split
  · exact .pure _
  · exact .throw (by rintro ⟨⟩)

end Evaluation

/-- However often files may lead to files, if it is often enough for the places that are left. -/
theorem Deeper.upTo_settles {job : Job} {places : List Location} (proper : job.files.Proper)
    (files : job.files.fileLocations ⊆ places) {room depth more : Nat} (enough : room ≤ depth)
    (enough' : room ≤ more) : (upTo depth).Settles job places room (upTo more) (Watch.upTo depth) := by
  induction room generalizing depth more with
  | zero =>
    -- the files that are being compiled are at different places, so no place is left to enter
    have full {own : List Path} (enclosed : Enclosed places own) (left : places.length < 0 + own.length) : False := by
      have := enclosed.length_le
      omega
    exact ⟨fun enclosed left => (full enclosed left).elim, fun enclosed left => (full enclosed left).elim,
      fun enclosed left => (full enclosed left).elim⟩
  | succ room inductionHypothesis =>
    obtain ⟨depth, rfl⟩ := Nat.exists_eq_add_of_le' (Nat.le_of_add_left_le enough)
    obtain ⟨more, rfl⟩ := Nat.exists_eq_add_of_le' (Nat.le_of_add_left_le enough')
    have deeper := inductionHypothesis (Nat.le_of_succ_le_succ enough) (Nat.le_of_succ_le_succ enough')
    have situated {own : List Path} {context : RecipeContext} (enclosed : Enclosed places own)
        (left : places.length < room + 1 + own.length) (within : context.Within job) :
        Situated job places room (upTo depth) (upTo more) (Watch.upTo depth) own context :=
      ⟨proper, files, enclosed, by omega, within, deeper⟩
    exact ⟨fun enclosed left within =>
        .forM fun item => Evaluation.evaluateInPlace_settles (situated enclosed left within) item,
      fun enclosed left within => Evaluation.evaluate_settles (situated enclosed left within) 1,
      fun enclosed left within => Evaluation.evaluateRecipe_settles (situated enclosed left within)⟩

end DeployRecipe
