import DeployRecipe.Proofs.Compilation.Extension
import DeployRecipe.Proofs.Compilation.Law
import DeployRecipe.Proofs.Environment.Recording

/-!
What a compilation keeps while files lead to files only grows: it is inside of the same files after each step,
the record of the files that were read grows, and every recipe that was parsed is recorded.
-/

namespace DeployRecipe

namespace Session

/-- Every recipe that was parsed is recorded. -/
def Recorded (session : Session) : Prop :=
  ∀ entry ∈ session.parsed, session.sources.has entry.1 = true

/-- A session after a step that is inside of the same files as before. -/
structure Grows (files : FileTree) (before after : Session) : Prop where
  active : after.active = before.active
  sources : Sources.Grow files before.sources after.sources
  recorded : before.Recorded → after.Recorded

variable {job : Job} {before between after : Session} {files : FileTree}

theorem Grows.refl (files : FileTree) (session : Session) : Grows files session session := ⟨rfl, .refl _ _, id⟩

theorem Grows.trans (one : Grows files before between) (other : Grows files between after) :
    Grows files before after :=
  ⟨other.active.trans one.active, one.sources.trans other.sources,
    fun recorded => other.recorded (one.recorded recorded)⟩

/-- What is done inside of one more file, and then outside of it again. -/
theorem Grows.leave {path : Path} (inside : Grows files { before with active := path :: before.active } after) :
    Grows files before after.leave :=
  ⟨congrArg List.tail inside.active, inside.sources, inside.recorded⟩

theorem Grows.ofSources {sources : Sources} (grow : Sources.Grow files before.sources sources) :
    Grows files before { before with sources } :=
  ⟨rfl, grow, fun recorded entry member => grow.has _ (recorded entry member)⟩

theorem Recorded.of_parsed? {path : Path} {declarations : List Declaration} (recorded : before.Recorded)
    (known : before.parsed? path = some declarations) : before.sources.has path = true := by
  obtain ⟨entry, found, _⟩ := Option.map_eq_some_iff.mp known
  have same : entry.1.same path = true := by simpa using List.find?_some found
  exact Sources.has_of_same (recorded entry (List.mem_of_find?_eq_some found)) same

theorem parseFile_grows {path : Path} {declarations : List Declaration}
    (run : parseFile job path before = .ok declarations after) : Grows job.files before after := by
  rcases (parseFile_eq_ok _ _ _ _ _).mp run with ⟨_, rfl⟩ | ⟨_, text, read, _, rfl⟩
  · exact .refl _ _
  · have grow := Sources.Grow.record (fun _ => read) before.sources
    refine ⟨rfl, grow, fun recorded => List.forall_mem_cons.mpr ⟨?_, fun entry member => ?_⟩⟩
    · exact Sources.has_record.mpr (Or.inr (Path.same_self path))
    · exact grow.has _ (recorded entry member)

theorem parseFile_records {path : Path} {declarations : List Declaration} (recorded : before.Recorded)
    (run : parseFile job path before = .ok declarations after) : after.sources.has path = true := by
  rcases (parseFile_eq_ok _ _ _ _ _).mp run with ⟨known, rfl⟩ | ⟨_, text, _, _, rfl⟩
  · exact recorded.of_parsed? known
  · exact Sources.has_record.mpr (Or.inr (Path.same_self path))

theorem read_grows {path : Path} {text : String} (run : read job path before = .ok text after) :
    Grows job.files before after := by
  obtain ⟨found, rfl⟩ := (read_eq_ok _ _ _ _ _).mp run
  exact .ofSources (.record (fun _ => found) _)

end Session

namespace Evaluation

/-- An evaluation after a step that stays inside of the same files. -/
structure Grows (files : FileTree) (before after : Evaluation) : Prop where
  session : Session.Grows files before.session after.session
  fragments : after.fragments = before.fragments

variable {files : FileTree} {before between after : Evaluation}

theorem Grows.refl (files : FileTree) (state : Evaluation) : Grows files state state := ⟨.refl _ _, rfl⟩

theorem Grows.trans (one : Grows files before between) (other : Grows files between after) :
    Grows files before after :=
  ⟨one.session.trans other.session, other.fragments.trans one.fragments⟩

theorem Grows.of_eq (session : after.session = before.session) (fragments : after.fragments = before.fragments) :
    Grows files before after :=
  ⟨session ▸ .refl _ _, fragments⟩

theorem fragments_mapInnermost (state : Evaluation) (change : Scope → Scope) :
    (state.mapInnermost change).fragments = state.fragments := by
  obtain ⟨_, _, _, scopes, _⟩ := state
  cases scopes <;> rfl

theorem mapInnermost_grows (state : Evaluation) (change : Scope → Scope) :
    Grows files state (state.mapInnermost change) :=
  .of_eq (session_mapInnermost state change) (fragments_mapInnermost state change)

theorem noting_grows (state : Evaluation) (descriptor : Descriptor) (attached : Bool) :
    Grows files state (state.noting descriptor attached) := by
  cases attached with
  | false => exact .refl _ _
  | true => exact mapInnermost_grows state _

/-- What is done inside a fragment, and then outside of it again. -/
theorem Grows.leaving {path : Path} {session : Session}
    (entered : Session.Grows files { before.session with active := path :: before.session.active } session)
    (inside : Grows files (before.entering path session) after) : Grows files before after.leaving :=
  ⟨(entered.trans inside.session).leave, congrArg List.tail inside.fragments⟩

/-- An action that only grows where it ends well. -/
def Growing {α : Type} (files : FileTree) (action : Evaluating α) : Prop :=
  ∀ before value after, action before = .ok value after → Grows files before after

section Combinators

variable {α β : Type}

theorem Growing.bind {action : Evaluating α} {next : α → Evaluating β} (head : Growing files action)
    (rest : ∀ value, Growing files (next value)) : Growing files (action >>= next) := by
  intro before value after run
  obtain ⟨given, between, one, two⟩ := (Running.bind_eq_ok _ _ _ _ _).mp run
  exact (head _ _ _ one).trans (rest given _ _ _ two)

theorem Growing.branch {test : Evaluation → Bool} {one other : Evaluating α} (first : Growing files one)
    (second : Growing files other) : Growing files fun state => if test state then one state else other state := by
  intro before value after run
  dsimp only at run
  split at run
  · exact first _ _ _ run
  · exact second _ _ _ run

/-- What changes neither the session nor the fragments only grows. -/
theorem growing_modify {change : Evaluation → Evaluation} (session : ∀ state, (change state).session = state.session)
    (fragments : ∀ state, (change state).fragments = state.fragments) : Growing files (modify change) := by
  intro before value after run
  obtain rfl := (Running.modify_eq_ok _ _ _ _).mp run
  exact .of_eq (session before) (fragments before)

theorem growing_mapInnermost (change : Scope → Scope) : Growing files (modify (mapInnermost change)) :=
  growing_modify (session_mapInnermost · change) (fragments_mapInnermost · change)

end Combinators

section Steps

variable {context : RecipeContext} {deeper other : Deeper} {trace : Trace}

theorem bindName_grows {line : Nat} {name : String} {values : List Value} :
    Growing files (bindName context line name values) := by
  intro before _ after run
  obtain ⟨_, _, _, _, _, _, rfl⟩ := (bindName_eq_ok _ _ _).mp run
  exact .of_eq rfl rfl

theorem attach_grows {line : Nat} {entity : Entity} : Growing files (attach context line entity) := by
  intro before _ after run
  rcases (attach_eq_ok _ _).mp run with ⟨_, rfl⟩ | ⟨_, _, _, _, _, _, rfl⟩
  · exact .of_eq rfl rfl
  · exact .of_eq rfl rfl

theorem evaluateBlock_grows {name : String} {line : Nat} {attached : Bool} {body : Evaluating Unit}
    (inner : Growing files body) : Growing files (evaluateBlock context name line attached body) := by
  intro before finished after run
  obtain ⟨descriptor, start, _, _, _, running⟩ := (evaluateBlock_eq_ok _ _ _ _ _).mp run
  obtain ⟨_, ran, _, rfl⟩ := (inScope_eq_ok _ _ _).mp running
  have inside := inner _ _ _ ran
  exact (noting_grows before descriptor attached).trans ⟨inside.session, inside.fragments⟩

end Steps

/-- Every step grows. -/
def growth (files : FileTree) : Judgement where
  holds _ one _ _ := Growing files one
  holdsRecipe one _ _ := ∀ before value after, one before = .ok value after → Session.Grows files before after
  fits context := context.job.files = files
  beside := id

section Nested

variable {context : RecipeContext} {deeper other : Deeper} {trace : Trace}

theorem openNested_grows {job : Job} {path : Path} {handover : Handover} {nested : RecipeContext}
    {declarations : List Declaration} {session opened : Session}
    (run : openNested job path handover session = .ok (nested, declarations) opened) :
    session.isActive path = false ∧ nested.job = job ∧
      Session.Grows job.files { session with active := path :: session.active } opened ∧
      (session.Recorded → opened.sources.has path = true) := by
  simp only [openNested, Running.bind_eq_ok, Session.enter_eq_ok, Session.recording_eq_ok, Running.pure_eq_ok] at run
  obtain ⟨_, _, ⟨free, rfl⟩, _, _, parsed, _, _, ⟨sources, built, rfl⟩, same, rfl⟩ := run
  obtain ⟨rfl, rfl⟩ := Prod.mk.inj same
  have grow := EnvironmentInputs.build_grows built
  refine ⟨free, rfl, (Session.parseFile_grows parsed).trans (.ofSources grow), fun recorded => grow.has path ?_⟩
  have entered : Session.Recorded { session with active := path :: session.active } := recorded
  exact Session.parseFile_records entered parsed

variable (reaches : (growth context.job.files).Reaches deeper other trace)
include reaches

/-- A recipe that another one leads to is recorded. -/
theorem compileNested_grows {path : Path} {handover : Handover} {session later : Session} {entity : Entity}
    (run : compileNested deeper context.job path handover session = .ok entity later) :
    Session.Grows context.job.files session later ∧ (session.Recorded → later.sources.has path = true) := by
  obtain ⟨nested, declarations, between, inner, opened, ran, rfl⟩ := compileNested_iff_openNested.mp run
  obtain ⟨_, job, entered, records⟩ := openNested_grows opened
  have deep := reaches.recipe nested (congrArg Job.files job) _ _ _ _ ran
  exact ⟨(entered.trans deep).leave, fun recorded => deep.sources.has path (records recorded)⟩

theorem assign_grows {line : Nat} {name : String} {values : List Value} :
    Growing context.job.files (assign deeper context line name values) := by
  intro before _ after run
  obtain ⟨_, between, binding, loading⟩ := (Running.bind_eq_ok _ _ _ _ _).mp run
  refine (bindName_grows _ _ _ binding).trans ?_
  split at loading
  · rcases (loadService_eq_ok _ _).mp loading with ⟨_, rfl⟩ | ⟨_, _, _, _, session, _, _, _, compiled, _, _, rfl⟩
    · exact .refl _ _
    · have nested : Grows context.job.files between { between with session } :=
        ⟨(compileNested_grows reaches compiled).1, rfl⟩
      exact nested.trans (mapInnermost_grows _ _)
  · obtain ⟨_, rfl⟩ := (Running.pure_eq_ok _ _ _ _).mp loading
    exact .refl _ _

theorem splice_grows {line : Nat} {values : Evaluating (List Value)} (evaluated : Growing context.job.files values) :
    Growing context.job.files (splice deeper context line values) := by
  intro before _ after run
  obtain ⟨_, _, _, _, _, _, values', _, _, parsed, ran, rfl⟩ := (splice_eq_ok _ _ _).mp run
  exact (evaluated _ _ _ values').trans
    (.leaving (Session.parseFile_grows parsed) (reaches.declarations _ rfl _ _ _ _ ran))

theorem loadValue_grows {line : Nat} {relative : String} :
    Growing context.job.files (loadValue deeper context line relative) := by
  intro before _ after run
  obtain ⟨_, _, _, _, _, _, _, read, _, ran, rfl⟩ := (loadValue_eq_ok _ _ _ _).mp run
  exact .leaving (Session.read_grows read) (reaches.expression _ rfl _ _ _ _ ran)

theorem extendBase_grows {line : Nat} {values : Evaluating (List Value)}
    (evaluated : Growing context.job.files values) :
    Growing context.job.files (extendBase deeper context line values) := by
  intro before _ after run
  obtain ⟨_, _, between, _, _, session, _, values', _, compiled, _, rfl⟩ := (extendBase_eq_ok _ _ _).mp run
  have nested : Grows context.job.files between { between with session } :=
    ⟨(compileNested_grows reaches compiled).1, rfl⟩
  exact ((evaluated _ _ _ values').trans nested).trans (mapInnermost_grows _ _)

end Nested

theorem growth_closed (files : FileTree) : (growth files).Closed where
  environment _ := rfl
  fails _ fails _ before value after run := absurd run (fails before value after)
  still unchanged _ before value after run := by
    obtain ⟨rfl, _⟩ := unchanged before value after run
    exact .refl _ _
  bind head rest := Growing.bind head rest
  branch one other := Growing.branch one other
  locals _ _ := growing_modify (fun _ => rfl) fun _ => rfl
  count := growing_mapInnermost _
  value _ _ _ body := evaluateBlock_grows body
  attached _ _ _ body := Growing.bind (evaluateBlock_grows body) fun _ => attach_grows
  assign _ _ _ fits reaches := by
    subst fits
    exact assign_grows reaches
  load _ _ fits reaches := by
    subst fits
    exact loadValue_grows reaches
  splice _ fits reaches values := by
    subst fits
    exact splice_grows reaches values
  extend _ fits reaches values := by
    subst fits
    exact extendBase_grows reaches values
  recipe _ whole before value after run := by
    obtain ⟨last, ran, _, rfl⟩ := (evaluateRecipe_eq_ok _ _ _ _ _ _).mp run
    exact (whole _ _ _ ran).session

section Files

variable {context : RecipeContext} {depth : Nat}

theorem growth_reaches (files : FileTree) (depth : Nat) :
    (growth files).Reaches (Deeper.upTo depth) (Deeper.upTo depth) (Trace.upTo depth) :=
  (growth_closed files).reaches (Judgement.reaches_zero
    (fun _ _ fails before value after run => absurd run (fails before value after))
    (fun _ _ fails before value after run => absurd run (fails before value after))) (Nat.le_refl depth)

theorem evaluateItems_grows {line : Nat} {items : List Expression} {values : List Value}
    (run : evaluateItems (Deeper.upTo depth) context line items before = .ok values after) :
    Grows context.job.files before after :=
  (growth_closed _).evaluateItems (growth_reaches _ depth) rfl line items _ _ _ run

theorem evaluateInPlace_grows {declaration : Declaration}
    (run : evaluateInPlace (Deeper.upTo depth) context declaration before = .ok () after) :
    Grows context.job.files before after :=
  (growth_closed _).evaluateInPlace (growth_reaches _ depth) rfl declaration _ _ _ run

theorem forM_evaluateInPlace_grows {declarations : List Declaration}
    (run : declarations.forM (evaluateInPlace (Deeper.upTo depth) context) before = .ok () after) :
    Grows context.job.files before after :=
  (growth_closed _).forM ((growth_closed _).evaluateInPlace (growth_reaches _ depth) rfl) declarations _ _ _ run

theorem evaluateRecipe_grows {declarations : List Declaration} {session later : Session} {root : Entity}
    (run : evaluateRecipe (Deeper.upTo depth) context declarations session = .ok root later) :
    Session.Grows context.job.files session later :=
  (growth_closed _).evaluateRecipe (growth_reaches _ depth) rfl declarations _ _ _ run

end Files

end Evaluation

/-- A file is recorded with the files of its environment before it is evaluated. -/
theorem Job.opening_grows {job : Job} {path : Path} {text : String} {context : RecipeContext}
    {declarations : List Declaration} {session : Session} (read : job.files.readText path = .ok text)
    (opened : job.opening path text Session.empty = .ok (context, declarations) session) :
    Sources.Grow job.files [] session.sources ∧ session.Recorded ∧ session.sources.has path = true := by
  obtain ⟨environment, sources, _, laid, rfl, rfl⟩ := (opening_eq_ok _ _ _ _ _ _).mp opened
  have grow := EnvironmentInputs.build_grows laid
  have own : sources.has path = true := grow.has _ (Sources.has_record.mpr (Or.inr (Path.same_self path)))
  exact ⟨(Sources.Grow.record (fun _ => read) []).trans grow, List.forall_mem_singleton.mpr own, own⟩

namespace Compiled

variable {job : Job} {path : Path} {compiled : Compiled}

/-- What a compilation records was read, no file is recorded twice, and the file itself is recorded. -/
theorem ofFile_sources (success : ofFile job path = .ok compiled) :
    compiled.sources.Read job.files ∧ compiled.sources.Distinct ∧ compiled.sources.has compiled.file = true := by
  obtain ⟨text, context, declarations, session, last, _, read, opened, run, sources⟩ := ofFile_evaluates success
  obtain ⟨opening, _, own⟩ := Job.opening_grows read opened
  obtain ⟨_, _, _, _, rfl, _⟩ := (Job.opening_eq_ok _ _ _ _ _ _).mp opened
  have grow := (Evaluation.evaluateRecipe_grows run).sources
  rw [sources]
  exact ⟨(opening.trans grow).read (.nil _), (opening.trans grow).distinct .nil, grow.has _ own⟩

end Compiled

end DeployRecipe
