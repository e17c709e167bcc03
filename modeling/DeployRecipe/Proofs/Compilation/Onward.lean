import DeployRecipe.Proofs.Compilation.Calls

/-!
The calls of an evaluation, one after the other, also those of an evaluation that fails. A call knows which files are
being compiled around it: a step goes on inside of the same files, or it enters the file that the call has found.
-/

namespace DeployRecipe

open Running Relation

namespace Evaluation

/-- Evaluates a part of a recipe for what it does to the state. -/
def evaluatePart (deeper : Deeper) (context : RecipeContext) : Part → Evaluating Unit
  | .expression line expression => do
    let _ ← evaluate deeper context line expression
    pure ()
  | .items line items => do
    let _ ← evaluateItems deeper context line items
    pure ()
  | .declaration declaration => evaluateInPlace deeper context declaration
  | .declarations declarations => declarations.forM (evaluateInPlace deeper context)

namespace Call

def outcome (call : Call) : EStateM.Result CompileError Evaluation Unit :=
  evaluatePart (Deeper.upTo call.depth) call.context call.part call.state

/-- A declaration with arguments is not refused before they are evaluated. -/
def Proceeds (call : Call) : Prop :=
  ∀ name line expressions, call.part = .declaration (.mk name line (.arguments expressions)) →
    (call.state.scopes = [] → name = loadWord) ∧ (name = extendWord → ∃ kind, extendingKind call.state = .ok kind)

/-- The call stands in the innermost file that is being compiled, and no file is being compiled twice. -/
def Placed (call : Call) : Prop :=
  (frame call.context []).placed call.state

/-- A name is given values in an open service that a directory next to the application is named after. -/
def FindsService (context : RecipeContext) (line : Nat) (values : List Value) (state : Evaluation) (path : Path)
    (named : Evaluation) : Prop :=
  bindName context line nameProperty values state = .ok () named ∧
    ∃ name directory, named.serviceDirectory? context = some (name, directory) ∧
      context.job.files.theFileEndingIn directory RecipeKind.service.suffix = .ok path

/-- The call has found the file that it enters next. The state is the one in which it does so. -/
inductive Seeks : Call → Path → Evaluation → Prop
  | value {depth context line relative state path} (named : state.NamesFragment context relative path) :
    Seeks ⟨depth, context, .expression line (.load relative), state⟩ path state
  | fragment {depth context line expressions relative state path between}
    (evaluated : evaluateItems (Deeper.upTo depth) context line expressions state = .ok [.text relative] between)
    (named : between.NamesFragment context relative path) :
    Seeks ⟨depth, context, .declaration (.mk loadWord line (.arguments expressions)), state⟩ path between
  | base {depth context line expressions kind reference state path between}
    (extending : extendingKind state = .ok kind)
    (evaluated : evaluateItems (Deeper.upTo depth) context line expressions state = .ok [.text reference] between)
    (resolved : BaseReference.resolve context.job.files reference (between.currentDirectory context)
      context.job.settings.searchRoots = .ok path) :
    Seeks ⟨depth, context, .declaration (.mk extendWord line (.arguments expressions)), state⟩ path between
  | service {depth context line expressions values state path between named} (inside : state.scopes ≠ [])
    (evaluated : evaluateItems (Deeper.upTo depth) context line expressions state = .ok values between)
    (finds : FindsService context line values between path named) :
    Seeks ⟨depth, context, .declaration (.mk nameProperty line (.arguments expressions)), state⟩ path named
  | assignedService {depth context line expression value state path between named} (inside : state.scopes ≠ [])
    (evaluated : evaluate (Deeper.upTo depth) context line expression state = .ok value between)
    (finds : FindsService context line [value] between path named) :
    Seeks ⟨depth, context, .declaration (.mk nameProperty line (.assignment expression)), state⟩ path named

end Call

/-- A step of an evaluation from a call to one that it leads to. -/
structure Onward (call next : Call) : Prop where
  proceeds : call.Proceeds
  leads : Leads call next

variable {depth : Nat} {context : RecipeContext} {before after between : Evaluation} {path : Path}

theorem evaluatePart_preserves (depth : Nat) (context : RecipeContext) (part : Part) :
    Preserves Grown (evaluatePart (Deeper.upTo depth) context part) := by
  have preserve := Deeper.upTo_preserve depth
  cases part with
  | expression line expression =>
    exact (unchanged_preserves (evaluate_preserves preserve line expression)).bind fun _ => .pure ()
  | items line items =>
    exact (unchanged_preserves (evaluateItems_preserves preserve line items)).bind fun _ => .pure ()
  | declaration declaration => exact evaluateInPlace_preserves preserve declaration
  | declarations declarations => exact .forM (evaluateInPlace_preserves preserve) declarations

/-- However a call ends, every file, fragment and block is left again that it opens. -/
theorem Call.sameFrame (call : Call) :
    (∀ after, call.outcome = .ok () after → SameFrame call.state after) ∧
      ∀ error after, call.outcome = .error error after → SameFrame call.state after := by
  have preserves := evaluatePart_preserves call.depth call.context call.part call.state
  exact ⟨fun after run => (preserves.ok () after run).sameFrame,
    fun error after run => (preserves.error error after run).1.sameFrame⟩

theorem Call.Seeks.sameFrame {call : Call} (seeks : call.Seeks path between) : SameFrame call.state between := by
  have bound {context line values before between after} (unchanged : Unchanged before between)
      (run : bindName context line nameProperty values between = .ok () after) : SameFrame before after := by
    have grown : Grown between after := (bindName_preserves line nameProperty values between).ok () after run
    exact (trans_of Grown unchanged.framed grown).sameFrame
  cases seeks with
  | value => exact ⟨rfl, rfl, rfl⟩
  | fragment values | base _ values => exact (evaluateItems_unchanged values).sameFrame
  | service _ values finds => exact bound (evaluateItems_unchanged values) finds.1
  | assignedService _ value finds => exact bound (evaluate_unchanged value) finds.1

/-- To get ready for the expression of a fragment is to find its file, to enter it and to read it. -/
theorem openValue_eq_ok {line : Nat} {relative : String} {expression : Expression} :
    openValue context line relative before = .ok expression after ↔
      ∃ path text session, before.NamesFragment context relative path ∧ before.session.isActive path = false ∧
        Session.read context.job path { before.session with active := path :: before.session.active } =
          .ok text session ∧
        Recipe.readExpression text = .ok expression ∧ after = before.entering path session := by
  simp only [openValue, readFragment, bind_eq_ok, fragmentPath_eq_ok, inSession_eq_ok, Session.enter_eq_ok,
    modify_eq_ok, pure_eq_ok]
  constructor
  · rintro ⟨path, _, ⟨named, rfl⟩, _, _, ⟨_, ⟨free, rfl⟩, rfl⟩, _, _, ⟨text, _, ⟨session, read, rfl⟩, parsing⟩, _, _,
      rfl, rfl, rfl⟩
    cases parsed : Recipe.readExpression text with
    | error error =>
      rw [parsed] at parsing
      exact absurd parsing (throw_ne_ok _ _ _ _)
    | ok found =>
      rw [parsed] at parsing
      obtain ⟨rfl, rfl⟩ := (pure_eq_ok _ _ _ _).mp parsing
      exact ⟨path, text, session, named, free, read, parsed, rfl⟩
  · rintro ⟨path, text, session, named, free, read, parsed, rfl⟩
    refine ⟨path, before, ⟨named, rfl⟩, (), _, ⟨_, ⟨free, rfl⟩, rfl⟩, expression, { before with session },
      ⟨text, { before with session }, ⟨session, read, rfl⟩, ?_⟩, (), _, rfl, rfl, rfl⟩
    rw [parsed]
    rfl

theorem parseFile_active {job : Job} {before after : Session} {declarations : List Declaration}
    (run : Session.parseFile job path before = .ok declarations after) : after.active = before.active :=
  (Session.parseFile_preserves job path before).ok declarations after run

theorem openNested_active {job : Job} {handover : Handover} {before after : Session} {nested : RecipeContext}
    {declarations : List Declaration} (run : openNested job path handover before = .ok (nested, declarations) after) :
    before.isActive path = false ∧ after.active = path :: before.active := by
  simp only [openNested, bind_eq_ok, Session.enter_eq_ok, Session.recording_eq_ok, pure_eq_ok] at run
  obtain ⟨_, _, ⟨free, rfl⟩, _, _, parsed, _, _, ⟨_, _, rfl⟩, _, rfl⟩ := run
  exact ⟨free, parseFile_active parsed⟩

theorem openService?_seeks {line : Nat} {values : Evaluating (List Value)} {nested : RecipeContext}
    {declarations : List Declaration}
    (opened : openService? context line values before = .ok (some (nested, declarations)) after) :
    ∃ given between path named handover session, values before = .ok given between ∧
      Call.FindsService context line given between path named ∧
      openNested context.job path handover named.session = .ok (nested, declarations) session ∧
      after = { named with session } := by
  rw [openService?] at opened
  obtain ⟨given, between, evaluated, opened⟩ := (bind_eq_ok _ _ _ _ _).mp opened
  obtain ⟨_, named, bound, opened⟩ := (bind_eq_ok _ _ _ _ _).mp opened
  rw [Running.get_bind] at opened
  cases found : named.serviceDirectory? context with
  | none =>
    rw [found] at opened
    cases opened
  | some pair =>
    obtain ⟨name, directory⟩ := pair
    rw [found] at opened
    simp only [bind_eq_ok, demand_eq_ok, inSession_eq_ok, pure_eq_ok] at opened
    obtain ⟨path, _, ⟨searched, rfl⟩, _, _, ⟨session, ready, rfl⟩, same, rfl⟩ := opened
    obtain rfl := Option.some.inj same
    exact ⟨given, between, path, named, _, session, evaluated, ⟨bound, name, directory, found, searched⟩, ready, rfl⟩

/-- A declaration that leads to a recipe has found its file. -/
theorem opens?_seeks {declaration : Declaration} {nested : RecipeContext} {declarations : List Declaration}
    (inside : before.scopes ≠ []) (proceeds : Call.Proceeds ⟨depth, context, .declaration declaration, before⟩)
    (opened : Step.opens? ⟨depth, context, declaration, before⟩ before = .ok (some (nested, declarations)) after) :
    ∃ path between handover session, Call.Seeks ⟨depth, context, .declaration declaration, before⟩ path between ∧
      openNested context.job path handover between.session = .ok (nested, declarations) session ∧
      after = { between with session } := by
  obtain ⟨name, line, body⟩ := declaration
  cases body with
  | block declarations => cases opened
  | arguments expressions =>
    simp only [Step.opens?] at opened
    split at opened
    · rename_i word
      subst word
      obtain ⟨kind, extending⟩ := (proceeds _ _ _ rfl).2 rfl
      simp only [openBase, bind_eq_ok, onePath_eq_ok, get_eq_ok, demand_eq_ok, inSession_eq_ok, pure_eq_ok] at opened
      obtain ⟨_, _, ⟨_, between, evaluated, reference, _, ⟨rfl, rfl⟩, _, _, ⟨rfl, rfl⟩, path, _, ⟨resolved, rfl⟩,
        session, ready, rfl⟩, same, rfl⟩ := opened
      obtain rfl := Option.some.inj same
      exact ⟨path, between, _, session, .base extending evaluated resolved, ready, rfl⟩
    · split at opened
      · rename_i word
        subst word
        obtain ⟨values, middle, path, named, handover, session, evaluated, finds, ready, rfl⟩ :=
          openService?_seeks opened
        exact ⟨path, named, handover, session, .service inside evaluated finds, ready, rfl⟩
      · cases opened
  | assignment expression =>
    simp only [Step.opens?] at opened
    split at opened
    · rename_i word
      subst word
      obtain ⟨values, middle, path, named, handover, session, given, finds, ready, rfl⟩ := openService?_seeks opened
      obtain ⟨value, _, evaluated, same⟩ := (bind_eq_ok _ _ _ _ _).mp given
      obtain ⟨rfl, rfl⟩ := (pure_eq_ok _ _ _ _).mp same
      exact ⟨path, named, handover, session, .assignedService inside evaluated finds, ready, rfl⟩
    · cases opened

/-- The call enters a file: it has found the file, and the file is not being compiled. -/
def Call.Enters (call : Call) (path : Path) : Prop :=
  ∃ between, call.Seeks path between ∧ between.session.isActive path = false

/-- What is found is found inside of the same files, so that it can be put in front of them. -/
theorem Call.Placed.enters {call : Call} {path : Path} {active : List Path} (placed : call.Placed)
    (seeks : call.Seeks path between) (free : between.session.isActive path = false)
    (now : active = path :: between.session.active) :
    Path.AllApart active ∧ ∃ path, call.Enters path ∧ active = path :: call.state.session.active := by
  have same := seeks.sameFrame
  refine ⟨now ▸ Path.AllApart.push ?_ free, path, ⟨between, seeks, free⟩, now.trans (by rw [same.active])⟩
  obtain ⟨_, _, apart⟩ := placed
  exact same.active ▸ apart

/-- A step goes on inside of the files that are being compiled, or it enters one more. -/
theorem Onward.placed {call next : Call} (onward : Onward call next) (placed : call.Placed) :
    next.Placed ∧ (next.state.session.active = call.state.session.active ∨
      ∃ path, call.Enters path ∧ next.state.session.active = path :: call.state.session.active) := by
  obtain ⟨proceeds, leads⟩ := onward
  have inside {context : RecipeContext} {before after : Evaluation} (placed : (frame context []).placed before)
      (same : SameFrame before after) :
      (frame context []).placed after ∧ after.session.active = before.session.active :=
    ⟨(frame context []).placed_of same placed, same.active⟩
  cases leads with
  | list | map | item | declaration | assignment | arguments => exact ⟨placed, .inl rfl⟩
  | value opened | block opened =>
    have grown : Grown _ _ := (openBlock_preserves (fun _ => noteFamily_grown) _ _ _).ok _ _ opened
    obtain ⟨placed', same⟩ := inside placed grown.sameFrame
    exact ⟨placed', .inl same⟩
  | items evaluated =>
    obtain ⟨placed', same⟩ := inside placed (evaluate_unchanged evaluated).sameFrame
    exact ⟨placed', .inl same⟩
  | declarations evaluated =>
    obtain ⟨placed', same⟩ := inside placed (evaluateInPlace_grown evaluated).sameFrame
    exact ⟨placed', .inl same⟩
  | load opened =>
    obtain ⟨path, text, session, named, free, read, _, rfl⟩ := openValue_eq_ok.mp opened
    obtain ⟨_, rfl⟩ := (Session.read_eq_ok _ _ _ _ _).mp read
    obtain ⟨apart, enters⟩ := Call.Placed.enters placed (.value named) free rfl
    obtain ⟨outer, active, _⟩ := placed
    exact ⟨⟨outer, congrArg (List.cons path) active, apart⟩, .inr enters⟩
  | fragment opened =>
    obtain ⟨relative, between, path, session, evaluated, named, free, parsed, rfl⟩ :=
      (openFragment_eq_ok _ _ _).mp opened
    have active := parseFile_active parsed
    obtain ⟨apart, enters⟩ := Call.Placed.enters placed (.fragment evaluated named) free active
    have same := (evaluateItems_unchanged evaluated).sameFrame
    obtain ⟨outer, around, _⟩ := (frame _ []).placed_of same placed
    exact ⟨⟨outer, active.trans (congrArg (List.cons path) around), apart⟩, .inr enters⟩
  | recipe inside opened =>
    obtain ⟨path, between, handover, session, seeks, ready, rfl⟩ := opens?_seeks inside proceeds opened
    obtain ⟨free, active⟩ := openNested_active ready
    obtain ⟨apart, enters⟩ := Call.Placed.enters placed seeks free active
    obtain ⟨_, file, _⟩ := openNested_eq_ok ready
    exact ⟨⟨between.session.active, by rw [file]; exact active, apart⟩, .inr enters⟩

/-- A step goes to a smaller part of the same file, or to another file. -/
theorem Leads.descends {call next : Call} (leads : Leads call next) :
    Prod.Lex (· < ·) (· < ·) (next.depth, sizeOf next.part) (call.depth, sizeOf call.part) := by
  have values (entries : List (String × Expression)) : sizeOf (entries.map Prod.snd) ≤ sizeOf entries := by
    induction entries with
    | nil => exact Nat.le_refl _
    | cons entry rest inductionHypothesis =>
      obtain ⟨key, item⟩ := entry
      simp only [List.map_cons, List.cons.sizeOf_spec, Prod.mk.sizeOf_spec]
      omega
  cases leads with
  | map =>
    rename_i entries
    have := values entries
    exact .right _ (by simp; omega)
  | load | fragment | recipe => exact .left _ _ (Nat.lt_succ_self _)
  | list | items | declarations => exact .right _ (by simp)
  | value | item | declaration | block | assignment | arguments => exact .right _ (by simp; omega)

end Evaluation

open Evaluation

/-- The call is evaluated where a text is compiled that stands for a file at a path. -/
def Job.Reaches (job : Job) (path : Path) (text : String) (call : Call) : Prop :=
  ∃ context declarations session, job.opening path text Session.empty = .ok (context, declarations) session ∧
    ReflTransGen Onward ⟨job.depth, context, .declarations declarations, start session⟩ call

namespace Job.Reaches

variable {job : Job} {path : Path} {text : String} {call : Call}

/-- What holds before the first declaration and is kept by each step holds of each call. -/
theorem induct (Holds : Call → Prop) (reaches : job.Reaches path text call)
    (first : ∀ environment declarations session, session.active = [path] →
      Holds ⟨job.depth, ⟨job, path, environment⟩, .declarations declarations, start session⟩)
    (step : ∀ call next, job.Reaches path text call → call.Placed → Onward call next → Holds call → Holds next) :
    call.Placed ∧ Holds call := by
  obtain ⟨context, declarations, session, opened, reached⟩ := reaches
  induction reached with
  | refl =>
    obtain ⟨environment, sources, _, _, rfl, rfl⟩ := (opening_eq_ok _ _ _ _ _ _).mp opened
    exact ⟨⟨[], rfl, List.pairwise_singleton _ path⟩, first _ _ _ rfl⟩
  | tail earlier onward inductionHypothesis =>
    obtain ⟨placed, holds⟩ := inductionHypothesis
    exact ⟨(onward.placed placed).1, step _ _ ⟨_, _, _, opened, earlier⟩ placed onward holds⟩

theorem placed (reaches : job.Reaches path text call) : call.Placed :=
  (reaches.induct (fun _ => True) (fun _ _ _ _ => trivial) fun _ _ _ _ _ _ => trivial).1

end Job.Reaches

end DeployRecipe
