import DeployRecipe.Proofs.Compilation.Onward
import DeployRecipe.Proofs.Compilation.Termination

/-!
Cycles of files. The files that are being compiled are different at every moment, and a file is refused exactly where it
is being compiled already. So the cycle that an error tells leads from that file back to it, and each file of the cycle
was entered while the one before it was being evaluated.
-/

namespace DeployRecipe

open Running Relation

theorem CompileError.ofNesting_of_kind {error : CompileError} {cycle : List Path}
    (kind : error.kind = .circularReference cycle) : error.OfNesting := by
  rw [OfNesting, kind]
  exact .circular cycle

/-- The outcome is the failure that the files of a cycle lead back to each other. -/
def FailsBy {σ α : Type} (cycle : List Path) (outcome : EStateM.Result CompileError σ α) : Prop :=
  ∃ error after, outcome = .error error after ∧ error.kind = .circularReference cycle

namespace FailsBy

variable {σ τ α β : Type} {cycle : List Path} {active : σ → List Path} {state : σ}
  {first : EStateM CompileError σ α} {next : α → EStateM CompileError σ β}

theorem not_ok {value : α} : ¬ FailsBy cycle (.ok value state : EStateM.Result CompileError σ α) := by
  rintro ⟨_, _, ⟨⟩, _⟩

theorem not_throw {error : CompileError} (spares : ¬ error.OfNesting) :
    ¬ FailsBy cycle ((throw error : EStateM CompileError σ α) state) := by
  rintro ⟨_, _, ⟨⟩, kind⟩
  exact spares (CompileError.ofNesting_of_kind kind)

/-- Where files lead to files too often, no cycle is told. -/
theorem not_tooDeep (file : Path) :
    ¬ FailsBy cycle ((throw (.inFile file .tooDeep) : EStateM CompileError σ α) state) := by
  rintro ⟨_, _, ⟨⟩, ⟨⟩⟩

theorem not_calm (calm : Calm active first) : ¬ FailsBy cycle (first state) := by
  rintro ⟨error, after, failed, kind⟩
  exact (calm state).spares error after failed (CompileError.ofNesting_of_kind kind)

theorem bind (fails : FailsBy cycle ((first >>= next) state)) :
    FailsBy cycle (first state) ∨
      ∃ value between, first state = .ok value between ∧ FailsBy cycle (next value between) := by
  cases run : first state with
  | ok value between =>
    rw [bind_of_ok run] at fails
    exact .inr ⟨value, between, rfl, fails⟩
  | error error after =>
    rw [bind_of_error run] at fails
    obtain ⟨_, _, ⟨⟩, kind⟩ := fails
    exact .inl ⟨error, after, rfl, kind⟩

theorem before (fails : FailsBy cycle (first state)) : FailsBy cycle ((first >>= next) state) := by
  obtain ⟨error, after, run, kind⟩ := fails
  exact ⟨error, after, bind_of_error run next, kind⟩

theorem calm_bind (fails : FailsBy cycle ((first >>= next) state)) (calm : Calm active first) :
    ∃ value between, first state = .ok value between ∧ FailsBy cycle (next value between) :=
  fails.bind.resolve_left (not_calm calm)

theorem bind_calm (active : σ → List Path) (fails : FailsBy cycle ((first >>= next) state))
    (calm : ∀ value, Calm active (next value)) :
    FailsBy cycle (first state) :=
  fails.bind.resolve_right fun ⟨value, _, _, later⟩ => not_calm (calm value) later

theorem of_carry {change : CompileError → CompileError} (kind : ∀ error, (change error).kind = error.kind)
    {result : α → σ → β} {put : σ → τ} {outcome : EStateM.Result CompileError σ α}
    (fails : FailsBy cycle (carry change result put outcome)) : FailsBy cycle outcome := by
  obtain ⟨error, after, failed, circular⟩ := fails
  cases outcome with
  | ok value between => cases failed
  | error inner between =>
    obtain ⟨rfl, rfl⟩ := EStateM.Result.error.inj failed
    exact ⟨inner, between, rfl, (kind inner).symm.trans circular⟩

end FailsBy

namespace Evaluation

/-- The file that the call has found is being compiled, which closes the cycle. -/
def Call.Closes (call : Call) (cycle : List Path) : Prop :=
  ∃ path between, call.Seeks path between ∧ between.session.isActive path = true ∧ cycle = between.session.cycle path

/-- The call closes the cycle, or it goes on to one that fails because of the cycle. -/
def Call.Blames (call : Call) (cycle : List Path) : Prop :=
  call.Closes cycle ∨ ∃ next, Onward call next ∧ FailsBy cycle next.outcome

variable {α : Type} {cycle : List Path} {depth line : Nat} {context : RecipeContext} {state : Evaluation}

section Parts

theorem inFragment_failsBy {path : Path} {action : Evaluating α}
    (fails : FailsBy cycle (inFragment context line path action state)) :
    state.session.isActive path = true ∧ cycle = state.session.cycle path ∨
      state.session.isActive path = false ∧ FailsBy cycle
        (action { state with session := { state.session with active := path :: state.session.active } }) := by
  by_cases busy : state.session.isActive path = true
  · rw [inFragment_of_busy busy] at fails
    obtain ⟨_, _, failed, kind⟩ := fails
    obtain ⟨rfl, rfl⟩ := EStateM.Result.error.inj failed
    rw [CompileError.kind_within] at kind
    exact .inl ⟨busy, (ErrorKind.circularReference.inj kind).symm⟩
  · rw [Bool.not_eq_true] at busy
    rw [inFragment_of_free busy] at fails
    exact .inr ⟨busy, (fails.of_carry fun error => CompileError.kind_within error _).of_carry fun _ => rfl⟩

theorem withFragment_failsBy {path : Path} {action : Evaluating α}
    (fails : FailsBy cycle (withFragment path action state)) :
    FailsBy cycle (action { state with fragments := path :: state.fragments }) := by
  rw [withFragment, Running.modify_bind, ensuring_eq_carry] at fails
  exact fails.of_carry fun _ => rfl

/-- A recipe fails because of a cycle where its declarations do. -/
theorem evaluateRecipe_failsBy {declarations : List Declaration} {session : Session}
    (fails : FailsBy cycle (evaluateRecipe (Deeper.upTo depth) context declarations session)) :
    FailsBy cycle (Call.outcome ⟨depth, context, .declarations declarations, start session⟩) := by
  rw [evaluateRecipe_eq_carry] at fails
  rcases (fails.of_carry fun _ => rfl).bind with declared | ⟨_, last, _, fails⟩
  · rw [forM_evaluateTopLevel_eq (Deeper.upTo_sound depth) declarations rfl] at declared
    exact declared
  · rw [Running.get_bind] at fails
    cases root : last.root with
    | none =>
      rw [root] at fails
      exact absurd fails (FailsBy.not_throw (by rintro ⟨⟩))
    | some root =>
      simp only [root] at fails
      exact absurd fails FailsBy.not_ok

/-- A recipe that another one leads to closes the cycle, or it fails because of it. -/
theorem compileFrom_failsBy {path : Path} {handover : Handover}
    (fails : FailsBy cycle (compileFrom (Deeper.upTo depth) context path handover state)) :
    state.session.isActive path = true ∧ cycle = state.session.cycle path ∨
      ∃ less nested declarations session, depth = less + 1 ∧
        openNested context.job path handover state.session = .ok (nested, declarations) session ∧
        FailsBy cycle (Call.outcome ⟨less, nested, .declarations declarations, start session⟩) := by
  rw [compileFrom_eq_carry, inSession_eq_carry] at fails
  have fails := (fails.of_carry fun error => CompileError.kind_within error _).of_carry fun _ => rfl
  by_cases busy : state.session.isActive path = true
  · rw [compileNested, FailsBy, bind_of_error (Session.enter_of_busy busy)] at fails
    obtain ⟨_, _, failed, kind⟩ := fails
    obtain ⟨rfl, rfl⟩ := EStateM.Result.error.inj failed
    exact .inl ⟨busy, (ErrorKind.circularReference.inj kind).symm⟩
  · rw [Bool.not_eq_true] at busy
    rw [compileNested_of_free busy] at fails
    obtain ⟨declarations, parsed, parsing, fails⟩ :=
      (fails.of_carry fun _ => rfl).calm_bind (Session.parseFile_calm context.job path)
    obtain ⟨environment, session, built, fails⟩ :=
      fails.calm_bind (Session.recording_calm (EnvironmentInputs.build_calm _ _))
    cases depth with
    | zero => exact absurd fails (FailsBy.not_tooDeep _)
    | succ less =>
      refine .inr ⟨less, ⟨context.job, path, environment⟩, declarations, session, rfl, ?_, ?_⟩
      · simp only [openNested, bind_eq_ok, pure_eq_ok]
        exact ⟨(), _, Session.enter_of_free busy, declarations, parsed, parsing, environment, session, built, rfl, rfl⟩
      · exact evaluateRecipe_failsBy fails

theorem loadValue_blames {relative : String}
    (fails : FailsBy cycle (loadValue (Deeper.upTo depth) context line relative state)) :
    Call.Blames ⟨depth, context, .expression line (.load relative), state⟩ cycle := by
  obtain ⟨path, _, found, fails⟩ := fails.calm_bind (fragmentPath_calm line relative)
  obtain ⟨named, rfl⟩ := (fragmentPath_eq_ok _ _ _).mp found
  rcases inFragment_failsBy fails with ⟨busy, same⟩ | ⟨free, fails⟩
  · exact .inl ⟨path, state, .value named, busy, same⟩
  · obtain ⟨expression, between, read, fails⟩ := fails.calm_bind (readFragment_calm path)
    have opened : openValue context line relative state =
        .ok expression { between with fragments := path :: between.fragments } := by
      simp only [openValue, bind_eq_ok, inSession_eq_ok, modify_eq_ok, pure_eq_ok]
      exact ⟨path, state, found, (), _, ⟨_, Session.enter_of_free free, rfl⟩, expression, between, read, (), _, rfl,
        rfl, rfl⟩
    have fails := withFragment_failsBy fails
    cases depth with
    | zero => exact absurd fails (FailsBy.not_tooDeep _)
    | succ less =>
      have proceeds : Call.Proceeds ⟨less + 1, context, .expression line (.load relative), state⟩ := by
        intro _ _ _ same
        cases same
      exact .inr ⟨_, ⟨proceeds, .load opened⟩, fails.before⟩

/-- A load in place closes the cycle, or its arguments or its fragment fail because of it. -/
theorem splice_blames {expressions : List Expression}
    (proceeds : Call.Proceeds ⟨depth, context, .declaration (.mk loadWord line (.arguments expressions)), state⟩)
    (fails : FailsBy cycle
      (splice (Deeper.upTo depth) context line (evaluateItems (Deeper.upTo depth) context line expressions) state)) :
    Call.Blames ⟨depth, context, .declaration (.mk loadWord line (.arguments expressions)), state⟩ cycle := by
  rw [splice, Running.get_bind] at fails
  rcases fails.bind with values | ⟨values, between, evaluated, fails⟩
  · exact .inr ⟨_, ⟨proceeds, .arguments⟩, values.before⟩
  · obtain ⟨relative, _, one, fails⟩ := fails.calm_bind (onePath_calm line _ loadWord values)
    obtain ⟨rfl, rfl⟩ := (onePath_eq_ok _ _ _ _ _).mp one
    obtain ⟨path, _, found, fails⟩ := fails.calm_bind (fragmentPath_calm line relative)
    obtain ⟨named, rfl⟩ := (fragmentPath_eq_ok _ _ _).mp found
    rcases inFragment_failsBy fails with ⟨busy, same⟩ | ⟨free, fails⟩
    · exact .inl ⟨path, between, .fragment evaluated named, busy, same⟩
    · obtain ⟨declarations, _, read, fails⟩ :=
        fails.calm_bind (inSession_calm (Session.parseFile_calm context.job path))
      obtain ⟨session, parsed, rfl⟩ := (inSession_eq_ok _ _).mp read
      have fails := withFragment_failsBy fails
      cases depth with
      | zero => exact absurd fails (FailsBy.not_tooDeep _)
      | succ less =>
        have opened := (openFragment_eq_ok line expressions declarations).mpr
          ⟨relative, between, path, session, evaluated, named, free, parsed, rfl⟩
        exact .inr ⟨_, ⟨proceeds, .fragment opened⟩, fails⟩

/-- What leads to a recipe closes the cycle, or the recipe fails because of it. -/
theorem compileFrom_blames {declaration : Declaration} {between : Evaluation} {path : Path} {handover : Handover}
    (inside : state.scopes ≠ [])
    (proceeds : Call.Proceeds ⟨depth, context, .declaration declaration, state⟩)
    (seeks : Call.Seeks ⟨depth, context, .declaration declaration, state⟩ path between)
    (opens : ∀ nested declarations session,
      openNested context.job path handover between.session = .ok (nested, declarations) session →
        Step.opens? ⟨depth, context, declaration, state⟩ state =
          .ok (some (nested, declarations)) { between with session })
    (fails : FailsBy cycle (compileFrom (Deeper.upTo depth) context path handover between)) :
    Call.Blames ⟨depth, context, .declaration declaration, state⟩ cycle := by
  rcases compileFrom_failsBy fails with ⟨busy, same⟩ | ⟨less, nested, declarations, session, rfl, ready, fails⟩
  · exact .inl ⟨path, between, seeks, busy, same⟩
  · exact .inr ⟨_, ⟨proceeds, .recipe inside (opens _ _ _ ready)⟩, fails⟩

theorem extendBase_blames {expressions : List Expression} (inside : state.scopes ≠ [])
    (fails : FailsBy cycle (extendBase (Deeper.upTo depth) context line
      (evaluateItems (Deeper.upTo depth) context line expressions) state)) :
    Call.Blames ⟨depth, context, .declaration (.mk extendWord line (.arguments expressions)), state⟩ cycle := by
  rw [extendBase, Running.get_bind] at fails
  obtain ⟨kind, _, allowed, fails⟩ := fails.calm_bind (demand_calm line (extendingKind_spares state))
  obtain ⟨extending, rfl⟩ := (demand_eq_ok _ _ _).mp allowed
  have proceeds : Call.Proceeds ⟨depth, context, .declaration (.mk extendWord line (.arguments expressions)), state⟩ :=
    fun _ _ _ _ => ⟨fun outside => absurd outside inside, fun _ => ⟨kind, extending⟩⟩
  rcases fails.bind with values | ⟨values, between, evaluated, fails⟩
  · exact .inr ⟨_, ⟨proceeds, .arguments⟩, values.before⟩
  · obtain ⟨reference, _, one, fails⟩ := fails.calm_bind (onePath_calm line kind extendWord values)
    obtain ⟨rfl, rfl⟩ := (onePath_eq_ok _ _ _ _ _).mp one
    rw [Running.get_bind] at fails
    obtain ⟨path, _, found, fails⟩ := fails.calm_bind (demand_calm line (BaseReference.resolve_spares _ _ _ _))
    obtain ⟨resolved, rfl⟩ := (demand_eq_ok _ _ _).mp found
    refine compileFrom_blames inside proceeds (.base extending evaluated resolved)
      (fun nested declarations session ready => opens?_extend evaluated resolved ready)
      (fails.bind_calm active fun base => ?_)
    have other : ¬ (ErrorKind.wrongRootType .service base.kind).OfNesting := by rintro ⟨⟩
    split
    · exact (fail_calm line other).bind fun _ => modifyInnermost_calm _
    · exact modifyInnermost_calm _

/-- Values that are given to a name in an open block lead to the recipe of the directory that it is named after. -/
theorem assign_blames {declaration : Declaration} {name : String} {values : List Value} {between : Evaluation}
    (inside : state.scopes ≠ []) (proceeds : Call.Proceeds ⟨depth, context, .declaration declaration, state⟩)
    (seeks : ∀ path named, name = nameProperty → Call.FindsService context line values between path named →
      Call.Seeks ⟨depth, context, .declaration declaration, state⟩ path named)
    (given : Evaluating (List Value)) (evaluated : given state = .ok values between)
    (opens : name = nameProperty →
      Step.opens? ⟨depth, context, declaration, state⟩ = openService? context line given)
    (fails : FailsBy cycle (assign (Deeper.upTo depth) context line name values between)) :
    Call.Blames ⟨depth, context, .declaration declaration, state⟩ cycle := by
  obtain ⟨_, named, bound, later⟩ := fails.calm_bind (bindName_calm line name values)
  by_cases word : name = nameProperty
  · subst word
    rw [if_pos rfl] at later
    have fails : FailsBy cycle (loadService (Deeper.upTo depth) context line named) := later
    rw [loadService, Running.get_bind] at fails
    cases found : named.serviceDirectory? context with
    | none =>
      rw [found] at fails
      exact absurd fails FailsBy.not_ok
    | some pair =>
      obtain ⟨name, directory⟩ := pair
      simp only [found] at fails
      obtain ⟨path, _, demanded, fails⟩ := fails.calm_bind (demand_calm line (FileTree.theFileEndingIn_spares _ _ _))
      obtain ⟨searched, rfl⟩ := (demand_eq_ok _ _ _).mp demanded
      refine compileFrom_blames inside proceeds (seeks path named rfl ⟨bound, name, directory, found, searched⟩)
        (fun nested declarations session ready => ?_)
        (fails.bind_calm active fun loaded => putService_calm line name loaded)
      rw [opens rfl, openService?]
      refine (bind_eq_ok _ _ _ _ _).mpr ⟨values, between, evaluated, ?_⟩
      refine (bind_eq_ok _ _ _ _ _).mpr ⟨(), named, bound, ?_⟩
      rw [Running.get_bind, found]
      simp only [bind_eq_ok, demand_eq_ok, inSession_eq_ok, pure_eq_ok]
      exact ⟨path, named, ⟨searched, rfl⟩, _, _, ⟨session, ready, rfl⟩, rfl, rfl⟩
  · rw [if_neg word] at later
    exact absurd later FailsBy.not_ok

/-- A block fails because of a cycle where its declarations do. -/
theorem evaluateBlock_failsBy {name : String} {attached : Bool} {declarations : List Declaration}
    (fails : FailsBy cycle
      (evaluateBlock context name line attached (evaluateStatements (Deeper.upTo depth) context declarations) state)) :
    ∃ entity between, openBlock context name line attached state = .ok entity between ∧
      FailsBy cycle (Call.outcome ⟨depth, context, .declarations declarations, between.insideBlock entity⟩) := by
  rw [evaluateBlock_eq] at fails
  obtain ⟨entity, between, opened, fails⟩ := fails.calm_bind (openBlock_calm name line attached)
  rw [inScope_eq_carry,
    evaluateStatements_eq_forM (Deeper.upTo_sound depth) declarations (List.cons_ne_nil _ _)] at fails
  exact ⟨entity, between, opened, fails.of_carry fun _ => rfl⟩

theorem evaluateEntries_failsBy {mapping : Mapping} {entries : List (String × Expression)}
    (fails : FailsBy cycle (evaluateEntries (Deeper.upTo depth) context line mapping entries state)) :
    FailsBy cycle (evaluateItems (Deeper.upTo depth) context line (entries.map Prod.snd) state) := by
  induction entries generalizing mapping state with
  | nil =>
    rw [evaluateEntries] at fails
    exact absurd fails FailsBy.not_ok
  | cons entry rest inductionHypothesis =>
    obtain ⟨key, item⟩ := entry
    rw [evaluateEntries] at fails
    rw [List.map_cons, evaluateItems]
    rcases fails.bind with here | ⟨value, between, evaluated, later⟩
    · exact here.before
    · rw [FailsBy, bind_of_ok evaluated]
      exact (inductionHypothesis later).before

end Parts

theorem evaluate_blames {expression : Expression}
    (fails : FailsBy cycle (evaluate (Deeper.upTo depth) context line expression state)) :
    Call.Blames ⟨depth, context, .expression line expression, state⟩ cycle := by
  cases expression with
  | null | bool | int | float | text =>
    rw [evaluate] at fails
    exact absurd fails FailsBy.not_ok
  | interpolated parts => exact absurd fails (FailsBy.not_calm (interpolated_calm _ line parts))
  | reference name => exact absurd fails (FailsBy.not_calm (reference_calm _ line name))
  | list items =>
    rw [evaluate] at fails
    have fails := fails.bind_calm active fun _ => .pure _
    exact .inr ⟨_, ⟨nofun, .list⟩, fails.before⟩
  | map entries =>
    rw [evaluate] at fails
    have fails := evaluateEntries_failsBy (fails.bind_calm active fun _ => .pure _)
    exact .inr ⟨_, ⟨nofun, .map⟩, fails.before⟩
  | block name blockLine declarations =>
    rw [evaluate] at fails
    obtain ⟨entity, between, opened, fails⟩ := evaluateBlock_failsBy (fails.bind_calm active fun _ => .pure _)
    exact .inr ⟨_, ⟨nofun, .value opened⟩, fails⟩
  | load relative =>
    rw [evaluate] at fails
    exact loadValue_blames fails

theorem evaluateItems_blames {items : List Expression}
    (fails : FailsBy cycle (evaluateItems (Deeper.upTo depth) context line items state)) :
    Call.Blames ⟨depth, context, .items line items, state⟩ cycle := by
  cases items with
  | nil =>
    rw [evaluateItems] at fails
    exact absurd fails FailsBy.not_ok
  | cons first rest =>
    rw [evaluateItems] at fails
    rcases fails.bind with here | ⟨value, between, evaluated, later⟩
    · exact .inr ⟨_, ⟨nofun, .item⟩, here.before⟩
    · have later := later.bind_calm active fun _ => .pure _
      exact .inr ⟨_, ⟨nofun, .items evaluated⟩, later.before⟩

theorem evaluateTopLevel_blames {declaration : Declaration}
    (fails : FailsBy cycle (evaluateTopLevel (Deeper.upTo depth) context declaration state)) :
    Call.Blames ⟨depth, context, .declaration declaration, state⟩ cycle := by
  obtain ⟨name, line, body⟩ := declaration
  cases body with
  | block declarations =>
    have fails : FailsBy cycle ((evaluateBlock context name line true _ >>= _) state) := fails
    obtain ⟨entity, between, opened, fails⟩ :=
      evaluateBlock_failsBy (fails.bind_calm active fun entity => attach_calm line entity)
    exact .inr ⟨_, ⟨nofun, .block opened⟩, fails⟩
  | arguments expressions =>
    change FailsBy cycle ((if name = loadWord then _ else if name = extendWord then _ else _ : Evaluating Unit) state)
      at fails
    have unknown : ¬ (ErrorKind.unknownDeclaration name).OfNesting := by rintro ⟨⟩
    have unsupported : ¬ (ErrorKind.unsupportedExtension none).OfNesting := by rintro ⟨⟩
    split at fails
    · rename_i word
      subst word
      refine splice_blames (fun _ _ _ same => ?_) fails
      cases same
      exact ⟨fun _ => rfl, fun word => absurd word (by decide)⟩
    · split at fails
      · exact absurd fails (FailsBy.not_calm (fail_calm line unsupported))
      · exact absurd fails (FailsBy.not_calm (fail_calm line unknown))
  | assignment expression =>
    have fails : FailsBy cycle ((evaluate _ context line expression >>= _) state) := fails
    have fails := fails.bind_calm active fun value => .modify fun _ => rfl
    exact .inr ⟨_, ⟨nofun, .assignment⟩, fails.before⟩

theorem evaluateStatement_blames {declaration : Declaration} (inside : state.scopes ≠ [])
    (fails : FailsBy cycle (evaluateStatement (Deeper.upTo depth) context declaration state)) :
    Call.Blames ⟨depth, context, .declaration declaration, state⟩ cycle := by
  obtain ⟨name, line, body⟩ := declaration
  rw [evaluateStatement] at fails
  replace fails := fails.bind_calm active fun _ => modifyInnermost_calm _
  cases body with
  | block declarations =>
    rw [evaluateBody] at fails
    obtain ⟨entity, between, opened, fails⟩ :=
      evaluateBlock_failsBy (fails.bind_calm active fun entity => attach_calm line entity)
    exact .inr ⟨_, ⟨nofun, .block opened⟩, fails⟩
  | arguments expressions =>
    rw [evaluateBody] at fails
    by_cases extending : name = extendWord
    · subst extending
      rw [if_pos rfl] at fails
      exact extendBase_blames inside fails
    · have proceeds : Call.Proceeds ⟨depth, context, .declaration (.mk name line (.arguments expressions)), state⟩ := by
        intro _ _ _ same
        cases same
        exact ⟨fun outside => absurd outside inside, fun word => absurd word extending⟩
      rw [if_neg extending] at fails
      by_cases loading : name = loadWord
      · subst loading
        rw [if_pos rfl] at fails
        exact splice_blames proceeds fails
      · rw [if_neg loading] at fails
        rcases fails.bind with values | ⟨values, between, evaluated, fails⟩
        · exact .inr ⟨_, ⟨proceeds, .arguments⟩, values.before⟩
        · refine assign_blames inside proceeds (fun path named word finds => ?_) _ evaluated (fun word => ?_) fails
          · subst word
            exact .service inside evaluated finds
          · exact (if_neg extending).trans (if_pos word)
  | assignment expression =>
    rw [evaluateBody] at fails
    rcases fails.bind with value | ⟨value, between, evaluated, fails⟩
    · exact .inr ⟨_, ⟨nofun, .assignment⟩, value.before⟩
    · refine assign_blames inside nofun (fun path named word finds => ?_) (do
        let value ← evaluate (Deeper.upTo depth) context line expression
        pure [value]) ?_ (fun word => ?_) fails
      · subst word
        exact .assignedService inside evaluated finds
      · exact (bind_eq_ok _ _ _ _ _).mpr ⟨value, between, evaluated, rfl⟩
      · exact if_pos word

/-- A call that fails because of a cycle closes it, or it goes on to one that fails because of it. -/
theorem Call.blames {call : Call} (fails : FailsBy cycle call.outcome) : call.Blames cycle := by
  obtain ⟨depth, context, part, state⟩ := call
  cases part with
  | expression line expression => exact evaluate_blames (fails.bind_calm active fun _ => .pure _)
  | items line items => exact evaluateItems_blames (fails.bind_calm active fun _ => .pure _)
  | declaration declaration =>
    change FailsBy cycle (evaluateInPlace _ context declaration state) at fails
    by_cases outside : state.scopes = []
    · rw [evaluateInPlace_outside outside] at fails
      exact evaluateTopLevel_blames fails
    · rw [evaluateInPlace_inside outside] at fails
      exact evaluateStatement_blames outside fails
  | declarations declarations =>
    change FailsBy cycle (declarations.forM (evaluateInPlace (Deeper.upTo depth) context) state) at fails
    cases declarations with
    | nil => exact absurd fails FailsBy.not_ok
    | cons first rest =>
      rcases fails.bind with here | ⟨_, between, evaluated, later⟩
      · exact .inr ⟨_, ⟨nofun, .declaration⟩, here⟩
      · exact .inr ⟨_, ⟨nofun, .declarations evaluated⟩, later⟩

/-- Where a call fails because of a cycle, the cycle is closed on the way. -/
theorem Call.closes_of_failsBy (call : Call) (fails : FailsBy cycle call.outcome) :
    ∃ closing, ReflTransGen Onward call closing ∧ closing.Closes cycle := by
  rcases Call.blames fails with closes | ⟨next, onward, fails⟩
  · exact ⟨call, .refl, closes⟩
  · obtain ⟨closing, reached, closes⟩ := closes_of_failsBy next fails
    exact ⟨closing, .head onward reached, closes⟩
termination_by (call.depth, sizeOf call.part)
decreasing_by exact onward.leads.descends

end Evaluation

theorem Path.AllApart.reverse {paths : List Path} (apart : Path.AllApart paths) : Path.AllApart paths.reverse := by
  refine List.pairwise_reverse.mpr (apart.imp fun {one other} differs => ?_)
  cases same : other.same one with
  | false => rfl
  | true => exact (Path.same_symm same).symm.trans differs

namespace Session

/-- A file is refused exactly where it is being compiled already. -/
theorem enter_fails_iff {session : Session} {path : Path} :
    (∃ error after, enter path session = .error error after) ↔ ∃ outer ∈ session.active, outer.same path = true := by
  rw [← List.any_eq_true]
  change _ ↔ session.isActive path = true
  by_cases busy : session.isActive path = true
  · exact iff_of_true ⟨_, _, enter_of_busy busy⟩ busy
  · refine iff_of_false ?_ busy
    rintro ⟨error, after, failed⟩
    rw [enter_of_free (by simpa using busy)] at failed
    cases failed

/-- The way from a file back to itself: the files that are being compiled from that one on, and the file again. -/
theorem cycle_of_isActive {session : Session} {path : Path} (apart : Path.AllApart session.active)
    (busy : session.isActive path = true) :
    ∃ first rest, session.cycle path = first :: rest ++ [path] ∧ first :: rest <:+ session.active.reverse ∧
      first.same path = true ∧ Path.AllApart (first :: rest) ∧ ∀ other ∈ rest, other.same path = false := by
  rw [cycle]
  cases files : session.active.reverse.dropWhile (fun outer => !outer.same path) with
  | nil =>
    obtain ⟨outer, member, same⟩ := List.any_eq_true.mp busy
    have differs := List.dropWhile_eq_nil_iff.mp files outer (List.mem_reverse.mpr member)
    rw [same] at differs
    cases differs
  | cons first rest =>
    have suffix : first :: rest <:+ session.active.reverse := files ▸ List.dropWhile_suffix _
    have same : first.same path = true := by
      have head := List.head?_dropWhile_not (fun outer : Path => !outer.same path) session.active.reverse
      rw [files] at head
      simpa using head
    have apart' : Path.AllApart (first :: rest) := apart.reverse.sublist suffix.sublist
    refine ⟨first, rest, rfl, suffix, same, apart', fun other member => ?_⟩
    cases again : other.same path with
    | false => rfl
    | true =>
      have together := Path.same_trans same (Path.same_symm again)
      exact together.symm.trans ((List.pairwise_cons.mp apart').1 other member)

end Session

open Evaluation

namespace Job

variable {job : Job} {path : Path} {text : String}

/-- The files that are being compiled at a moment of the compilation of a text, the innermost first. -/
inductive Chain (job : Job) (path : Path) (text : String) : List Path → Prop
  | outside : Chain job path text []
  | root : Chain job path text [path]
  | before {call} (reaches : job.Reaches path text call) : Chain job path text call.state.session.active
  | after {call after} (reaches : job.Reaches path text call) (run : call.outcome = .ok () after) :
    Chain job path text after.session.active
  | failed {call error after} (reaches : job.Reaches path text call) (run : call.outcome = .error error after) :
    Chain job path text after.session.active
  | seeking {call file between} (reaches : job.Reaches path text call) (seeks : call.Seeks file between) :
    Chain job path text between.session.active
  | entered {call file between session} (reaches : job.Reaches path text call) (seeks : call.Seeks file between)
    (entered : Session.enter file between.session = .ok () session) : Chain job path text session.active

/-- No file is being compiled inside of itself at any moment. -/
theorem Chain.allApart {active : List Path} (chain : job.Chain path text active) : Path.AllApart active := by
  have apart {context : RecipeContext} {state after : Evaluation} (placed : (frame context []).placed state)
      (same : SameFrame state after) : Path.AllApart after.session.active := by
    obtain ⟨_, _, apart⟩ := placed
    exact same.active ▸ apart
  cases chain with
  | outside => exact .nil
  | root => exact List.pairwise_singleton _ path
  | before reaches =>
    obtain ⟨_, _, apart⟩ := reaches.placed
    exact apart
  | after reaches run => exact apart reaches.placed ((Call.sameFrame _).1 _ run)
  | failed reaches run => exact apart reaches.placed ((Call.sameFrame _).2 _ _ run)
  | seeking reaches seeks => exact apart reaches.placed seeks.sameFrame
  | entered reaches seeks entered =>
    obtain ⟨free, rfl⟩ := (Session.enter_eq_ok _ _ _ _).mp entered
    exact (apart reaches.placed seeks.sameFrame).push free

/-- Each of the files around a call, except for the outermost one, was entered by a call in the file around it. -/
def Accounts (job : Job) (path : Path) (text : String) (call : Call) : Prop :=
  ∀ inner outer rest, inner :: outer :: rest <:+ call.state.session.active →
    ∃ entering, job.Reaches path text entering ∧ entering.Enters inner ∧
      entering.state.session.active = outer :: rest

theorem Reaches.accounts {call : Call} (reaches : job.Reaches path text call) : job.Accounts path text call := by
  refine (reaches.induct (job.Accounts path text) ?_ ?_).2
  · intro environment declarations session active inner outer rest suffix
    have short := suffix.length_le
    rw [show (start session).session.active = [path] from active] at short
    simp at short
  · intro call next reaches placed onward earlier inner outer rest suffix
    rcases (onward.placed placed).2 with same | ⟨file, enters, pushed⟩
    · exact earlier inner outer rest (same ▸ suffix)
    · rw [pushed] at suffix
      rcases List.suffix_cons_iff.mp suffix with whole | inside
      · obtain ⟨rfl, around⟩ := List.cons.inj whole
        exact ⟨call, reaches, enters, around.symm⟩
      · exact earlier inner outer rest inside

/-- The call belongs to declarations of the file, which is the innermost one that is being compiled. -/
theorem Reaches.currentFile_eq {call : Call} {file : Path} {rest : List Path} (reaches : job.Reaches path text call)
    (active : call.state.session.active = file :: rest) : call.state.currentFile call.context = file := by
  obtain ⟨_, active', _⟩ := active_eq_cons reaches.placed
  exact (List.cons.inj (active'.symm.trans active)).1

/-- The compilation of a text runs into a cycle of files. -/
structure RunsInto (job : Job) (path : Path) (text : String) (cycle : List Path) : Prop where
  /-- The cycle leads from a file back to it, and the files on the way are different. -/
  around : ∃ first rest last, cycle = first :: rest ++ [last] ∧ first.same last = true ∧
    Path.AllApart (first :: rest) ∧ ∀ other ∈ rest, other.same last = false
  /-- In the last file but one, the first file is found again where the cycle is the end of what is being compiled. -/
  closed : ∃ call last between error after, job.Reaches path text call ∧ call.Seeks last between ∧
    cycle.getLast? = some last ∧ cycle.dropLast <:+ between.session.active.reverse ∧
    cycle.dropLast.getLast? = some (call.state.currentFile call.context) ∧
    Session.enter last between.session = .error error after ∧ error.kind = .circularReference cycle
  /-- Each other file was entered while the one before it was being evaluated. -/
  entered : ∀ outer inner, [outer, inner] <:+: cycle.dropLast →
    ∃ call, job.Reaches path text call ∧ call.state.currentFile call.context = outer ∧ call.Enters inner

theorem Reaches.runsInto {call : Call} {cycle : List Path} (reaches : job.Reaches path text call)
    (closes : call.Closes cycle) : job.RunsInto path text cycle := by
  obtain ⟨last, between, seeks, busy, rfl⟩ := closes
  have same := seeks.sameFrame
  obtain ⟨first, rest, files, suffix, closed, apart, others⟩ :=
    Session.cycle_of_isActive (Chain.seeking reaches seeks).allApart busy
  have init : (between.session.cycle last).dropLast = first :: rest := by rw [files, List.dropLast_concat]
  refine ⟨⟨first, rest, last, files, closed, apart, others⟩, ⟨call, last, between, _, _, reaches, seeks, ?_,
    init ▸ suffix, ?_, Session.enter_of_busy busy, rfl⟩, fun outer inner adjacent => ?_⟩
  · rw [files, List.getLast?_concat]
  · obtain ⟨innermost, active, _⟩ := active_eq_cons reaches.placed
    obtain ⟨outer, chain⟩ := suffix
    rw [same.active, active, List.reverse_cons] at chain
    have last := congrArg List.getLast? chain
    rwa [List.getLast?_concat, List.getLast?_append_of_ne_nil _ (List.cons_ne_nil _ _), ← init] at last
  · rw [init] at adjacent
    obtain ⟨more, less, chain⟩ := adjacent.trans suffix.isInfix
    have active : between.session.active = less.reverse ++ inner :: outer :: more.reverse := by
      rw [← List.reverse_reverse between.session.active, ← chain]
      simp
    obtain ⟨entering, reached, enters, around⟩ :=
      reaches.accounts inner outer more.reverse ⟨less.reverse, active.symm.trans same.active⟩
    exact ⟨entering, reached, reached.currentFile_eq around, enters⟩

end Job

namespace Compiled

open Job

variable {job : Job} {path : Path} {text : String} {error : CompileError} {cycle : List Path}

theorem ofText_runsInto (failed : ofText job path text = .error error)
    (circular : error.kind = .circularReference cycle) : job.RunsInto path text cycle := by
  by_cases fails : FailsBy cycle (job.evaluate path text Session.empty)
  · rw [evaluate_eq_upTo, evaluateUpTo] at fails
    rcases fails.bind with ⟨raised, after, opening, kind⟩ | ⟨⟨context, declarations⟩, session, opened, fails⟩
    · exact absurd (CompileError.ofNesting_of_kind kind) (opening_spares opening)
    · obtain ⟨closing, reached, closes⟩ := Call.closes_of_failsBy _ (evaluateRecipe_failsBy fails)
      exact Reaches.runsInto ⟨context, declarations, session, opened, reached⟩ closes
  · have spares : Spares (fun error => error.kind = .circularReference cycle) (ofText job path text) :=
      ofText_spares (fun _ => CompileError.ofNesting_of_kind) fun error after run kind =>
        fails ⟨error, after, run, kind⟩
    exact absurd circular (spares error failed)

/-- Where a file is compiled, a cycle is told only of the text that it holds. -/
theorem ofFile_runsInto {file : Path} (failed : ofFile job file = .error error)
    (circular : error.kind = .circularReference cycle) :
    ∃ path text, job.files.canonical file = .ok path ∧ job.files.readText path = .ok text ∧
      job.RunsInto path text cycle := by
  rw [ofFile] at failed
  split at failed
  · cases found : job.files.canonical file with
    | error reason =>
      rw [found] at failed
      obtain rfl := Except.error.inj failed
      cases circular
    | ok path =>
      simp only [found] at failed
      cases read : job.files.readText path with
      | error reason =>
        rw [read] at failed
        obtain rfl := Except.error.inj failed
        exact absurd (CompileError.ofNesting_of_kind circular) (job.files.readText_spares path reason read)
      | ok text =>
        rw [read] at failed
        exact ⟨path, text, rfl, read, ofText_runsInto failed circular⟩
  · obtain rfl := Except.error.inj failed
    cases circular

/-- Where a directory is compiled, a cycle is told only of the recipe that is found in it. -/
theorem ofDirectory_fails {directory : Path} {kind : RecipeKind}
    (failed : ofDirectory job directory kind = .error error) (circular : error.kind = .circularReference cycle) :
    ∃ file, job.files.theFileEndingIn directory kind.suffix = .ok file ∧ ofFile job file = .error error := by
  rw [ofDirectory] at failed
  cases found : job.files.theFileEndingIn directory kind.suffix with
  | error reason =>
    rw [found] at failed
    obtain rfl := Except.error.inj failed
    exact absurd (CompileError.ofNesting_of_kind circular) (job.files.theFileEndingIn_spares _ _ reason found)
  | ok file =>
    simp only [found] at failed
    refine ⟨file, rfl, ?_⟩
    cases compiled : ofFile job file with
    | error reason =>
      rw [compiled] at failed
      exact failed
    | ok compiled' =>
      rw [compiled] at failed
      change (compiled'.rootOf kind.rootKind >>= _) = _ at failed
      rw [rootOf] at failed
      split at failed
      · cases failed
      · obtain rfl := Except.error.inj failed
        cases circular

/-- At each moment of each compilation the files that are being compiled are different; a file is refused exactly where
it is being compiled already; and a compilation tells only cycles that it ran into. -/
theorem cycles_real (job : Job) :
    (∀ path text active, job.Chain path text active → Path.AllApart active) ∧
    (∀ session path, (∃ error after, Session.enter path session = .error error after) ↔
      ∃ outer ∈ session.active, outer.same path = true) ∧
    (∀ path text error cycle, ofText job path text = .error error → error.kind = .circularReference cycle →
      job.RunsInto path text cycle) ∧
    (∀ file error cycle, ofFile job file = .error error → error.kind = .circularReference cycle →
      ∃ path text, job.files.canonical file = .ok path ∧ job.files.readText path = .ok text ∧
        job.RunsInto path text cycle) ∧
    ∀ directory kind error cycle, ofDirectory job directory kind = .error error →
      error.kind = .circularReference cycle →
        ∃ file path text, job.files.theFileEndingIn directory kind.suffix = .ok file ∧
          job.files.canonical file = .ok path ∧ job.files.readText path = .ok text ∧ job.RunsInto path text cycle := by
  refine ⟨fun _ _ _ => Chain.allApart, fun _ _ => Session.enter_fails_iff, fun _ _ _ _ => ofText_runsInto,
    fun _ _ _ => ofFile_runsInto, fun directory kind error cycle failed circular => ?_⟩
  obtain ⟨file, found, failed⟩ := ofDirectory_fails failed circular
  obtain ⟨path, text, place, read, runs⟩ := ofFile_runsInto failed circular
  exact ⟨file, path, text, found, place, read, runs⟩

/-- The cycle that a compilation tells. -/
def cycle? : Except CompileError Compiled → Option (List Path)
  | .error ⟨_, _, _, .circularReference cycle⟩ => some cycle
  | _ => none

theorem of_cycle? {outcome : Except CompileError Compiled} (told : cycle? outcome = some cycle) :
    ∃ error, outcome = .error error ∧ error.kind = .circularReference cycle := by
  rw [cycle?.eq_def] at told
  split at told
  · obtain rfl := Option.some.inj told
    exact ⟨_, rfl, rfl⟩
  · cases told

/-- A service extends a base, whose base loads a fragment that extends the first base again. -/
theorem cycles_real_through_fragment :
    let files : FileTree := ⟨[(["r"], .directory),
      (["r", "web-service.recipe"], .file (.text "service \x7b\n extend \"a-service\"\n\x7d\n")),
      (["r", "a-service.recipe"], .file (.text "service \x7b\n extend \"./b-service.recipe\"\n\x7d\n")),
      (["r", "b-service.recipe"], .file (.text "service \x7b\n load \"c.recipe\"\n\x7d\n")),
      (["r", "c.recipe"], .file (.text "extend \"../r/a-service\"\n"))], ["r"]⟩
    let job := Job.plain files .standard
    let cycle : List Path :=
      [⟨"/r/a-service.recipe"⟩, ⟨"/r/b-service.recipe"⟩, ⟨"/r/c.recipe"⟩, ⟨"/r/a-service.recipe"⟩]
    ∃ error path text, ofFile job ⟨"./web-service.recipe"⟩ = .error error ∧ error.kind = .circularReference cycle ∧
      job.files.canonical ⟨"./web-service.recipe"⟩ = .ok path ∧ job.files.readText path = .ok text ∧
        job.RunsInto path text cycle := by
  intro files job cycle
  have told : cycle? (ofFile job ⟨"./web-service.recipe"⟩) = some cycle := by decide +kernel
  obtain ⟨error, failed, circular⟩ := of_cycle? told
  obtain ⟨_, _, _, ofFile_real, _⟩ := cycles_real job
  obtain ⟨path, text, place, read, runs⟩ := ofFile_real _ error cycle failed circular
  exact ⟨error, path, text, failed, circular, place, read, runs⟩

end Compiled

end DeployRecipe
