import DeployRecipe.Proofs.Compilation.Follows

/-!
The declarations of a recipe in the order in which they are evaluated. The declarations of a fragment that is
loaded in place take the place of the load, and between two steps nothing changes that blocks hold.
-/

namespace DeployRecipe

namespace Evaluation

/-- A declaration that is evaluated, with the state before it. -/
structure Step where
  /-- How often files may lead to files from here. -/
  depth : Nat
  context : RecipeContext
  declaration : Declaration
  before : Evaluation

/-- Gets ready to evaluate the declarations of a fragment in place. -/
def openFragment (deeper : Deeper) (context : RecipeContext) (line : Nat) (expressions : List Expression) :
    Evaluating (List Declaration) := do
  let values ← evaluateItems deeper context line expressions
  let path ← fragmentPath context line (← onePath context line .service loadWord values)
  inSession (Session.enter path)
  let declarations ← inSession (Session.parseFile context.job path)
  modify fun state => { state with fragments := path :: state.fragments }
  pure declarations

/-- The declarations that take the place of a load, and the state before the first one. -/
def spliced? (deeper : Deeper) (context : RecipeContext) (declaration : Declaration) (state : Evaluation) :
    Option (List Declaration × Evaluation) :=
  match declaration with
  | .mk name line (.arguments expressions) =>
    if name = loadWord then
      match openFragment deeper context line expressions state with
      | .ok declarations inside => some (declarations, inside)
      | .error _ _ => none
    else none
  | _ => none

/-- The steps of declarations. Those of loaded fragments are given. -/
def stepsWith (depth : Nat) (inner : RecipeContext → List Declaration → Evaluation → List Step)
    (context : RecipeContext) : List Declaration → Evaluation → List Step
  | [], _ => []
  | declaration :: rest, state =>
    let here :=
      match spliced? (Deeper.upTo depth) context declaration state with
      | some (declarations, inside) => inner context declarations inside
      | none => [⟨depth, context, declaration, state⟩]
    match evaluateInPlace (Deeper.upTo depth) context declaration state with
    | .ok () after => here ++ stepsWith depth inner context rest after
    | .error _ _ => here

/-- The steps of declarations from a state on, up to the first one that fails. -/
def steps : Nat → RecipeContext → List Declaration → Evaluation → List Step
  | 0 => stepsWith 0 fun _ _ _ => []
  | depth + 1 => stepsWith (depth + 1) (steps depth)

variable {deeper : Deeper} {context : RecipeContext} {before after : Evaluation}

theorem openFragment_eq_ok (line : Nat) (expressions : List Expression) (declarations : List Declaration) :
    openFragment deeper context line expressions before = .ok declarations after ↔
      ∃ relative between path session,
        evaluateItems deeper context line expressions before = .ok [.text relative] between ∧
        between.NamesFragment context relative path ∧ between.session.isActive path = false ∧
        Session.parseFile context.job path
          { between.session with active := path :: between.session.active } = .ok declarations session ∧
        after = between.entering path session := by
  simp only [openFragment, Running.bind_eq_ok, onePath_eq_ok, fragmentPath_eq_ok, inSession_eq_ok,
    Session.enter_eq_ok, Running.modify_eq_ok, Running.pure_eq_ok]
  constructor
  · rintro ⟨_, between, evaluated, relative, _, ⟨rfl, rfl⟩, path, _, ⟨named, rfl⟩, _, _, ⟨_, ⟨free, rfl⟩, rfl⟩,
      _, _, ⟨session, parsed, rfl⟩, _, _, rfl, rfl, rfl⟩
    exact ⟨relative, between, path, session, evaluated, named, free, parsed, rfl⟩
  · rintro ⟨relative, between, path, session, evaluated, named, free, parsed, rfl⟩
    exact ⟨_, between, evaluated, relative, between, ⟨rfl, rfl⟩, path, between, ⟨named, rfl⟩, (), _,
      ⟨_, ⟨free, rfl⟩, rfl⟩, declarations, _, ⟨session, parsed, rfl⟩, (), _, rfl, rfl, rfl⟩

/-- To evaluate a fragment in place is to get ready, to evaluate its declarations, and to leave it. -/
theorem splice_iff_openFragment (line : Nat) (expressions : List Expression) :
    splice deeper context line (evaluateItems deeper context line expressions) before = .ok () after ↔
      ∃ declarations inside inner,
        openFragment deeper context line expressions before = .ok declarations inside ∧
        deeper.declarations context declarations inside = .ok () inner ∧ after = inner.leaving := by
  rw [splice_eq_ok]
  constructor
  · rintro ⟨relative, between, path, declarations, session, inner, evaluated, named, free, parsed, run, rfl⟩
    exact ⟨declarations, _, inner, (openFragment_eq_ok _ _ _).mpr ⟨relative, between, path, session, evaluated,
      named, free, parsed, rfl⟩, run, rfl⟩
  · rintro ⟨declarations, _, inner, opened, run, rfl⟩
    obtain ⟨relative, between, path, session, evaluated, named, free, parsed, rfl⟩ :=
      (openFragment_eq_ok _ _ _).mp opened
    exact ⟨relative, between, path, declarations, session, inner, evaluated, named, free, parsed, run, rfl⟩

/-- The open blocks where at most the count of the innermost one has grown. -/
inductive SameOpen : List Scope → List Scope → Prop
  | outside : SameOpen [] []
  | inside {scope : Scope} {outer : List Scope} {position : Nat} (later : scope.position ≤ position) :
    SameOpen (scope :: outer) ({ scope with position } :: outer)

theorem SameOpen.refl (scopes : List Scope) : SameOpen scopes scopes := by
  cases scopes with
  | nil => exact .outside
  | cons scope outer => exact .inside (Nat.le_refl scope.position)

theorem SameOpen.trans {first second third : List Scope} (one : SameOpen first second)
    (other : SameOpen second third) : SameOpen first third := by
  cases one with
  | outside => exact other
  | inside later =>
    cases other with
    | inside again => exact .inside (Nat.le_trans later again)

/-- Between two steps the blocks and the root stay; only declarations are counted. -/
structure Passes (before after : Evaluation) : Prop where
  scopes : SameOpen before.scopes after.scopes
  root : after.root = before.root

theorem Passes.refl (state : Evaluation) : Passes state state := ⟨.refl _, rfl⟩

theorem Passes.trans {first second third : Evaluation} (one : Passes first second)
    (other : Passes second third) : Passes first third :=
  ⟨one.scopes.trans other.scopes, other.root.trans one.root⟩

theorem Passes.innermost (passes : Passes before after) {scope : Scope} {outer : List Scope}
    (open' : before.scopes = scope :: outer) :
    ∃ position, scope.position ≤ position ∧ after.scopes = { scope with position } :: outer := by
  have blocks := passes.scopes
  rw [open'] at blocks
  generalize after.scopes = scopes at blocks
  cases blocks with
  | inside grown => exact ⟨_, grown, rfl⟩

theorem Leaves.passes (leaves : Leaves before after) : Passes before after :=
  ⟨leaves.scopes ▸ .refl _, leaves.root⟩

theorem Passes.runs (passes : Passes before after) : Runs before after := by
  obtain ⟨same, root⟩ := passes
  generalize opened : before.scopes = scopes at same
  generalize ended : after.scopes = scopes' at same
  cases same with
  | outside =>
    exact ⟨opened ▸ ended ▸ .outside, fun _ => root, fun kept => ⟨by simp [ended], root ▸ kept.root⟩,
      fun _ => by simp [ended]⟩
  | inside later => exact runs_of_open opened ended rfl id root

theorem countDeclaration_passes (run : countDeclaration before = .ok () after) : Passes before after := by
  obtain rfl := (Running.modify_eq_ok _ _ _ _).mp run
  obtain ⟨_, _, _, scopes, _⟩ := before
  cases scopes with
  | nil => exact .refl _
  | cons scope outer => exact ⟨.inside (Nat.le_succ scope.position), rfl⟩

/-- A run that is made up of steps. -/
inductive Linked (context : RecipeContext) : Evaluation → List Step → Evaluation → Prop
  | done {before after : Evaluation} (passes : Passes before after) : Linked context before [] after
  | step {before start next after : Evaluation} {depth : Nat} {declaration : Declaration} {rest : List Step}
    (passes : Passes before start)
    (single : spliced? (Deeper.upTo depth) context declaration start = none)
    (run : evaluateInPlace (Deeper.upTo depth) context declaration start = .ok () next)
    (linked : Linked context next rest after) :
    Linked context before (⟨depth, context, declaration, start⟩ :: rest) after

theorem Passes.linked {between : Evaluation} {list : List Step} (passes : Passes before between)
    (linked : Linked context between list after) : Linked context before list after := by
  cases linked with
  | done more => exact .done (passes.trans more)
  | step more single run rest => exact .step (passes.trans more) single run rest

theorem Linked.append {between : Evaluation} {list more : List Step}
    (linked : Linked context before list between) (rest : Linked context between more after) :
    Linked context before (list ++ more) after := by
  induction linked with
  | done passes => exact passes.linked rest
  | step passes single run _ inductionHypothesis => exact .step passes single run (inductionHypothesis rest)

theorem Linked.passes {between : Evaluation} {list : List Step} (linked : Linked context before list between)
    (passes : Passes between after) : Linked context before list after := by
  have whole := linked.append (.done passes)
  rwa [List.append_nil] at whole

theorem Linked.runs {list : List Step} (linked : Linked context before list after) : Runs before after := by
  induction linked with
  | done passes => exact passes.runs
  | step passes single run _ inductionHypothesis =>
    exact (passes.runs.trans (evaluateInPlace_runs (Deeper.upTo_sound _) _ run)).trans inductionHypothesis

theorem spliced?_eq_some {declaration : Declaration} {declarations : List Declaration}
    {inside : Evaluation} (spliced : spliced? deeper context declaration before = some (declarations, inside)) :
    ∃ line expressions, declaration = .mk loadWord line (.arguments expressions) ∧
      openFragment deeper context line expressions before = .ok declarations inside := by
  obtain ⟨name, line, body⟩ := declaration
  cases body with
  | arguments expressions =>
    rw [spliced?] at spliced
    split at spliced
    · rename_i load
      cases opened : openFragment deeper context line expressions before with
      | error error state =>
        rw [opened] at spliced
        cases spliced
      | ok found state =>
        rw [opened] at spliced
        cases spliced
        exact ⟨line, expressions, by rw [load], opened⟩
    · cases spliced
  | block | assignment => cases spliced

theorem evaluateInPlace_inside (inside : before.scopes ≠ []) (declaration : Declaration) :
    evaluateInPlace deeper context declaration before = evaluateStatement deeper context declaration before := by
  change (if before.scopes.isEmpty then evaluateTopLevel deeper context declaration
    else evaluateStatement deeper context declaration) before = _
  rw [if_neg (by simpa using inside)]

theorem evaluateInPlace_outside (outside : before.scopes = []) (declaration : Declaration) :
    evaluateInPlace deeper context declaration before = evaluateTopLevel deeper context declaration before := by
  change (if before.scopes.isEmpty then evaluateTopLevel deeper context declaration
    else evaluateStatement deeper context declaration) before = _
  rw [if_pos (by simpa using outside)]

/-- A load that ends well evaluates the declarations of its fragment, and is counted in an open block. -/
theorem evaluateInPlace_load_counts {line : Nat} {expressions : List Expression}
    (run : evaluateInPlace deeper context (.mk loadWord line (.arguments expressions)) before = .ok () after) :
    ∃ declarations inside inner,
      openFragment deeper context line expressions before = .ok declarations inside ∧
      deeper.declarations context declarations inside = .ok () inner ∧
      (before.scopes = [] ∧ after = inner.leaving ∨
        before.scopes ≠ [] ∧ countDeclaration inner.leaving = .ok () after) := by
  by_cases outside : before.scopes = []
  · rw [evaluateInPlace_outside outside] at run
    obtain ⟨declarations, inside, inner, opened, ran, rfl⟩ := (splice_iff_openFragment line expressions).mp run
    exact ⟨declarations, inside, inner, opened, ran, .inl ⟨outside, rfl⟩⟩
  · rw [evaluateInPlace_inside outside, evaluateStatement] at run
    obtain ⟨_, between, evaluated, counted⟩ := (Running.bind_eq_ok _ _ _ _ _).mp run
    rw [evaluateBody, if_neg (by decide), if_pos rfl] at evaluated
    obtain ⟨declarations, inside, inner, opened, ran, rfl⟩ :=
      (splice_iff_openFragment line expressions).mp evaluated
    exact ⟨declarations, inside, inner, opened, ran, .inr ⟨outside, counted⟩⟩

/-- A load that ends well evaluates the declarations of its fragment. -/
theorem evaluateInPlace_load {line : Nat} {expressions : List Expression}
    (run : evaluateInPlace deeper context (.mk loadWord line (.arguments expressions)) before = .ok () after) :
    ∃ declarations inside inner,
      openFragment deeper context line expressions before = .ok declarations inside ∧
      deeper.declarations context declarations inside = .ok () inner ∧ Passes inner.leaving after ∧
      after.session = inner.session.leave := by
  obtain ⟨declarations, inside, inner, opened, ran, ⟨_, rfl⟩ | ⟨_, counted⟩⟩ := evaluateInPlace_load_counts run
  · exact ⟨declarations, inside, inner, opened, ran, .refl _, rfl⟩
  · refine ⟨declarations, inside, inner, opened, ran, countDeclaration_passes counted, ?_⟩
    rw [← (Running.modify_eq_ok _ _ _ _).mp counted, session_mapInnermost]
    rfl

theorem openFragment_passes (sound : deeper.Sound) {line : Nat} {expressions : List Expression}
    {declarations : List Declaration}
    (run : openFragment deeper context line expressions before = .ok declarations after) :
    Passes before after := by
  obtain ⟨relative, between, path, session, evaluated, _, _, _, rfl⟩ := (openFragment_eq_ok _ _ _).mp run
  exact (evaluateItems_leaves sound expressions evaluated).passes.trans ⟨.refl _, rfl⟩

theorem stepsWith_linked (depth : Nat) (inner : RecipeContext → List Declaration → Evaluation → List Step)
    (deeper : ∀ declarations inside last,
      (Deeper.upTo depth).declarations context declarations inside = .ok () last →
        Linked context inside (inner context declarations inside) last)
    (declarations : List Declaration) {before after : Evaluation}
    (run : declarations.forM (evaluateInPlace (Deeper.upTo depth) context) before = .ok () after) :
    Linked context before (stepsWith depth inner context declarations before) after := by
  induction declarations generalizing before with
  | nil =>
    obtain ⟨_, rfl⟩ := (Running.pure_eq_ok _ _ _ _).mp run
    exact .done (.refl before)
  | cons declaration rest inductionHypothesis =>
    obtain ⟨_, between, evaluated, others⟩ := (Running.bind_eq_ok _ _ _ _ _).mp run
    have later := inductionHypothesis others
    rw [stepsWith, evaluated]
    dsimp only
    cases spliced : spliced? (Deeper.upTo depth) context declaration before with
    | none => exact .step (.refl before) spliced evaluated later
    | some pair =>
      obtain ⟨found, inside⟩ := pair
      obtain ⟨line, expressions, rfl, opened⟩ := spliced?_eq_some spliced
      obtain ⟨_, _, last, opened', ran, passes, _⟩ := evaluateInPlace_load evaluated
      rw [opened] at opened'
      cases opened'
      have into := openFragment_passes (Deeper.upTo_sound depth) opened
      have out : Passes last last.leaving := ⟨.refl _, rfl⟩
      exact (into.linked ((deeper _ _ _ ran).passes (out.trans passes))).append later

/-- What is evaluated well is made up of its steps. -/
theorem steps_linked (depth : Nat) (context : RecipeContext) (declarations : List Declaration)
    {before after : Evaluation}
    (run : declarations.forM (evaluateInPlace (Deeper.upTo depth) context) before = .ok () after) :
    Linked context before (steps depth context declarations before) after := by
  induction depth generalizing declarations before after with
  | zero =>
    refine stepsWith_linked 0 _ ?_ declarations run
    intro declarations inside inner ran
    exact absurd ran (Running.throw_ne_ok _ _ _ _)
  | succ depth inductionHypothesis =>
    exact stepsWith_linked (depth + 1) _ (fun _ _ _ ran => inductionHypothesis _ ran) declarations run

theorem spliced?_of_ne_load {declaration : Declaration} (other : declaration.name ≠ loadWord) :
    spliced? deeper context declaration before = none := by
  obtain ⟨name, line, body⟩ := declaration
  cases body with
  | arguments expressions => exact if_neg other
  | block | assignment => rfl

theorem stepsWith_declarations (depth : Nat)
    (inner : RecipeContext → List Declaration → Evaluation → List Step) {declarations : List Declaration}
    {before after : Evaluation}
    (plain : ∀ declaration ∈ declarations, declaration.name ≠ loadWord)
    (run : declarations.forM (evaluateInPlace (Deeper.upTo depth) context) before = .ok () after) :
    (stepsWith depth inner context declarations before).map Step.declaration = declarations := by
  induction declarations generalizing before with
  | nil => rfl
  | cons declaration rest inductionHypothesis =>
    obtain ⟨_, between, evaluated, others⟩ := (Running.bind_eq_ok _ _ _ _ _).mp run
    have later := inductionHypothesis (fun other member => plain other (List.mem_cons_of_mem _ member)) others
    rw [stepsWith, evaluated, spliced?_of_ne_load (plain declaration List.mem_cons_self)]
    exact congrArg (declaration :: ·) later

/-- Declarations without loads are the steps that are taken. -/
theorem steps_declarations (depth : Nat) (context : RecipeContext) {declarations : List Declaration}
    {before after : Evaluation} (plain : ∀ declaration ∈ declarations, declaration.name ≠ loadWord)
    (run : declarations.forM (evaluateInPlace (Deeper.upTo depth) context) before = .ok () after) :
    (steps depth context declarations before).map Step.declaration = declarations := by
  cases depth with
  | zero => exact stepsWith_declarations 0 _ plain run
  | succ depth => exact stepsWith_declarations (depth + 1) _ plain run

/-- A property of states that declarations keep, also where they lead into a fragment. -/
structure Invariant (context : RecipeContext) (Holds : Evaluation → Prop) (depth : Nat) : Prop where
  after : ∀ {declaration before after}, Holds before →
    evaluateInPlace (Deeper.upTo depth) context declaration before = .ok () after → Holds after
  inside : ∀ {line expressions before declarations inside}, Holds before →
    openFragment (Deeper.upTo depth) context line expressions before = .ok declarations inside → Holds inside

theorem of_mem_stepsWith {depth : Nat} {inner : RecipeContext → List Declaration → Evaluation → List Step}
    {Holds : Evaluation → Prop} (invariant : Invariant context Holds depth)
    (deeper : ∀ declarations inside, Holds inside → ∀ step ∈ inner context declarations inside,
      step.context = context ∧ step.depth ≤ depth ∧ Holds step.before)
    (declarations : List Declaration) {state : Evaluation} (holds : Holds state) {step : Step}
    (member : step ∈ stepsWith depth inner context declarations state) :
    step.context = context ∧ step.depth ≤ depth ∧ Holds step.before := by
  induction declarations generalizing state with
  | nil => exact absurd member List.not_mem_nil
  | cons declaration rest inductionHypothesis =>
    rw [stepsWith] at member
    generalize here : (match spliced? (Deeper.upTo depth) context declaration state with
      | some (declarations, inside) => inner context declarations inside
      | none => [⟨depth, context, declaration, state⟩]) = list at member
    have first : ∀ step ∈ list, step.context = context ∧ step.depth ≤ depth ∧ Holds step.before := by
      subst here
      cases spliced : spliced? (Deeper.upTo depth) context declaration state with
      | none =>
        intro step single
        obtain rfl := List.mem_singleton.mp single
        exact ⟨rfl, Nat.le_refl depth, holds⟩
      | some pair =>
        obtain ⟨found, inside⟩ := pair
        obtain ⟨line, expressions, rfl, opened⟩ := spliced?_eq_some spliced
        exact deeper found inside (invariant.inside holds opened)
    cases evaluated : evaluateInPlace (Deeper.upTo depth) context declaration state with
    | error error after =>
      rw [evaluated] at member
      exact first step member
    | ok _ after =>
      rw [evaluated] at member
      rcases List.mem_append.mp member with now | later
      · exact first step now
      · exact inductionHypothesis (invariant.after holds evaluated) later

/-- What declarations keep holds before each step. -/
theorem of_mem_steps (depth : Nat) {Holds : Evaluation → Prop}
    (invariant : ∀ depth, Invariant context Holds depth) {declarations : List Declaration}
    {state : Evaluation} (holds : Holds state) {step : Step}
    (member : step ∈ steps depth context declarations state) :
    step.context = context ∧ step.depth ≤ depth ∧ Holds step.before := by
  induction depth generalizing declarations state step with
  | zero =>
    refine of_mem_stepsWith (invariant 0) ?_ declarations holds member
    exact fun _ _ _ _ member => absurd member List.not_mem_nil
  | succ depth inductionHypothesis =>
    refine of_mem_stepsWith (invariant (depth + 1)) ?_ declarations holds member
    intro _ _ holds step member
    obtain ⟨same, within, before⟩ := inductionHypothesis holds member
    exact ⟨same, Nat.le_succ_of_le within, before⟩

/-- In a block, declarations are evaluated one after the other where they stand. -/
theorem evaluateStatements_eq_forM (sound : deeper.Sound) (declarations : List Declaration)
    {before : Evaluation} (inside : before.scopes ≠ []) :
    evaluateStatements deeper context declarations before =
      declarations.forM (evaluateInPlace deeper context) before := by
  induction declarations generalizing before with
  | nil =>
    rw [evaluateStatements]
    rfl
  | cons first rest inductionHypothesis =>
    rw [evaluateStatements, List.forM]
    have same : evaluateInPlace deeper context first before = evaluateStatement deeper context first before :=
      evaluateInPlace_inside inside first
    cases run : evaluateStatement deeper context first before with
    | ok _ between =>
      have stays := mt (evaluateStatement_runs sound first run).blocks.eq_nil_iff.mp inside
      rw [Running.bind_of_ok run, Running.bind_of_ok (same.trans run)]
      exact inductionHypothesis stays
    | error error after => rw [Running.bind_of_error run, Running.bind_of_error (same.trans run)]

/-- Outside of all blocks, too. -/
theorem forM_evaluateTopLevel_eq (sound : deeper.Sound) (declarations : List Declaration)
    {before : Evaluation} (outside : before.scopes = []) :
    declarations.forM (evaluateTopLevel deeper context) before =
      declarations.forM (evaluateInPlace deeper context) before := by
  induction declarations generalizing before with
  | nil => rfl
  | cons first rest inductionHypothesis =>
    rw [List.forM, List.forM]
    have same : evaluateInPlace deeper context first before = evaluateTopLevel deeper context first before :=
      evaluateInPlace_outside outside first
    cases run : evaluateTopLevel deeper context first before with
    | ok _ between =>
      have stays := (evaluateTopLevel_runs sound first run).blocks.eq_nil_iff.mpr outside
      rw [Running.bind_of_ok run, Running.bind_of_ok (same.trans run)]
      exact inductionHypothesis stays
    | error error after => rw [Running.bind_of_error run, Running.bind_of_error (same.trans run)]

theorem forM_evaluateInPlace (sound : deeper.Sound) {declarations : List Declaration}
    {before after : Evaluation} (inside : before.scopes ≠ [])
    (run : evaluateStatements deeper context declarations before = .ok () after) :
    declarations.forM (evaluateInPlace deeper context) before = .ok () after :=
  (evaluateStatements_eq_forM sound declarations inside).symm.trans run

theorem forM_evaluateInPlace_outside (sound : deeper.Sound) {declarations : List Declaration}
    {before after : Evaluation} (outside : before.scopes = [])
    (run : declarations.forM (evaluateTopLevel deeper context) before = .ok () after) :
    declarations.forM (evaluateInPlace deeper context) before = .ok () after :=
  (forM_evaluateTopLevel_eq sound declarations outside).symm.trans run

/-- The declarations of a block that is declared outside of all others, and the state before the first one. -/
def Step.rootBody? (step : Step) : Option (List Declaration × Evaluation) :=
  match step.declaration with
  | .mk name _ (.block declarations) =>
    (Registry.describe? name).map fun descriptor =>
      (declarations, { step.before with scopes := .opening (.fresh descriptor.kind) :: step.before.scopes })
  | _ => none

/-- The steps of such a block. -/
def Step.inner? (step : Step) : Option (List Step) :=
  step.rootBody?.map fun (declarations, inside) => steps step.depth step.context declarations inside

theorem Step.inner?_eq_some {step : Step} {list : List Step} (inner : step.inner? = some list) :
    ∃ name line declarations descriptor, step.declaration = .mk name line (.block declarations) ∧
      Registry.describe? name = some descriptor ∧
      list = steps step.depth step.context declarations
        { step.before with scopes := .opening (.fresh descriptor.kind) :: step.before.scopes } := by
  obtain ⟨depth, context, ⟨name, line, body⟩, before⟩ := step
  cases body with
  | arguments | assignment => cases inner
  | block declarations =>
    cases described : Registry.describe? name with
    | none =>
      simp only [inner?, rootBody?, described] at inner
      cases inner
    | some descriptor =>
      simp only [inner?, rootBody?, described] at inner
      exact ⟨name, line, declarations, descriptor, rfl, described, (Option.some.inj inner).symm⟩

/-- The steps of the block that becomes the root of a recipe. -/
def rootSteps (depth : Nat) (context : RecipeContext) (declarations : List Declaration) (session : Session) :
    List Step :=
  ((steps depth context declarations (start session)).findSome? Step.inner?).getD []

theorem rootSteps_eq_cons {depth : Nat} {declarations : List Declaration} {session : Session} {first : Step}
    {rest : List Step} (begins : rootSteps depth context declarations session = first :: rest) :
    ∃ above root below, steps depth context declarations (start session) = above ++ root :: below ∧
      root.inner? = some (first :: rest) := by
  rw [rootSteps] at begins
  cases found : (steps depth context declarations (start session)).findSome? Step.inner? with
  | none =>
    rw [found] at begins
    cases begins
  | some inner =>
    rw [found, Option.getD_some] at begins
    obtain ⟨above, root, below, split, opens, _⟩ := List.findSome?_eq_some_iff.mp found
    exact ⟨above, root, below, split, opens.trans (congrArg some begins)⟩

theorem Linked.split {list rest : List Step} {step : Step}
    (linked : Linked context before (list ++ step :: rest) after) :
    ∃ next, step.context = context ∧ Linked context before list step.before ∧
      evaluateInPlace (Deeper.upTo step.depth) context step.declaration step.before = .ok () next ∧
      Linked context next rest after := by
  induction list generalizing before with
  | nil =>
    cases linked with
    | step passes single run linked => exact ⟨_, rfl, .done passes, run, linked⟩
  | cons first others inductionHypothesis =>
    cases linked with
    | step passes single run linked =>
      obtain ⟨next, same, head, ran, tail⟩ := inductionHypothesis linked
      exact ⟨next, same, .step passes single run head, ran, tail⟩

/-- A block outside of all others becomes the root. It starts at the defaults of its kind. -/
theorem evaluateInPlace_rootBlock (sound : deeper.Sound) {name : String} {line : Nat}
    {declarations : List Declaration} (outside : before.scopes = [])
    (run : evaluateInPlace deeper context (.mk name line (.block declarations)) before = .ok () after) :
    ∃ descriptor between scope, Registry.describe? name = some descriptor ∧
      evaluateStatements deeper context declarations
        { before with scopes := .opening (.fresh descriptor.kind) :: before.scopes } = .ok () between ∧
      between.scopes = [scope] ∧ after.scopes = [] ∧ after.root = some scope.entity ∧
      after.session = between.session := by
  rw [evaluateInPlace_outside outside] at run
  obtain ⟨entity, middle, evaluated, attached⟩ := (Running.bind_eq_ok _ _ _ _ _).mp run
  obtain ⟨descriptor, begun, described, _, started, running⟩ := (evaluateBlock_eq_ok _ _ _ _ _).mp evaluated
  obtain ⟨between, ran, rfl, rfl⟩ := (inScope_eq_ok _ _ _).mp running
  have fresh : begun = .fresh descriptor.kind := by
    rw [startOf, if_pos rfl, openAttached, outside] at started
    exact (Except.ok.inj started).symm
  have same : before.noting descriptor true = before := by
    rw [noting, if_pos rfl, mapInnermost, outside]
  rw [same, fresh] at ran
  have blocks := (evaluateStatements_runs sound declarations ran).blocks
  rw [outside] at blocks
  generalize ended : between.scopes = scopes at blocks
  cases blocks with
  | inside kind =>
    rename_i scope
    rcases (attach_eq_ok _ _).mp attached with ⟨_, rfl⟩ | ⟨_, _, _, _, inside, _⟩
    · refine ⟨descriptor, between, scope, described, ran, ended, ?_, ?_, rfl⟩
      · simp [ended]
      · simp [ended]
    · rw [ended] at inside
      cases inside

/-- The run of a block that a recipe declares outside of all others is made up of its steps, and it ends with
the root. -/
theorem inner_linked {depth : Nat} {declarations : List Declaration} {session later : Session} {root : Entity}
    {above below inner : List Step} {block : Step}
    (run : evaluateRecipe (Deeper.upTo depth) context declarations session = .ok root later)
    (split : steps depth context declarations (start session) = above ++ block :: below)
    (opens : block.inner? = some inner) :
    ∃ kind inside finished scope, Linked context inside inner finished ∧
      inside.scopes = [.opening (.fresh kind)] ∧ inside.Kept ∧ finished.scopes = [scope] ∧ root = scope.entity := by
  obtain ⟨last, ran, done, _⟩ := (evaluateRecipe_eq_ok _ _ _ _ _ _).mp run
  have linked := steps_linked depth context declarations
    (forM_evaluateInPlace_outside (Deeper.upTo_sound depth) rfl ran)
  rw [split] at linked
  obtain ⟨next, same, before, run, later⟩ := linked.split
  have outside := before.runs.blocks.eq_nil_iff.mpr rfl
  obtain ⟨name, line, content, descriptor, declared, described, listed⟩ := Step.inner?_eq_some opens
  rw [declared] at run
  obtain ⟨_, between, scope, described', evaluated, ended, after, finished, _⟩ :=
    evaluateInPlace_rootBlock (Deeper.upTo_sound block.depth) outside run
  rw [described] at described'
  cases described'
  have inPlace := forM_evaluateInPlace (Deeper.upTo_sound block.depth) (List.cons_ne_nil _ _) evaluated
  have linked' := steps_linked block.depth context content inPlace
  rw [same] at listed
  rw [← listed] at linked'
  have kept := before.runs.kept ⟨by simp [start], by simp [start]⟩
  refine ⟨descriptor.kind, _, between, scope, linked', congrArg (_ :: ·) outside, ⟨?_, kept.root⟩, ended, ?_⟩
  · simp only [outside, List.forall_mem_singleton]
    exact Entity.kept_fresh _
  · have stays := later.runs.root (Or.inr (by simp [finished]))
    rw [done, finished] at stays
    exact Option.some.inj stays

theorem rootSteps_linked {depth : Nat} {declarations : List Declaration} {session later : Session}
    {root : Entity} {first : Step} {rest : List Step}
    (run : evaluateRecipe (Deeper.upTo depth) context declarations session = .ok root later)
    (begins : rootSteps depth context declarations session = first :: rest) :
    ∃ kind inside finished scope, Linked context inside (first :: rest) finished ∧
      inside.scopes = [.opening (.fresh kind)] ∧ finished.scopes = [scope] ∧ root = scope.entity := by
  obtain ⟨above, block, below, split, opens⟩ := rootSteps_eq_cons begins
  obtain ⟨kind, inside, finished, scope, linked, open', _, ended, same⟩ := inner_linked run split opens
  exact ⟨kind, inside, finished, scope, linked, open', ended, same⟩

end Evaluation

namespace Job

/-- Gets ready to evaluate the declarations of a recipe with the given text. -/
def opening (job : Job) (path : Path) (text : String) : Compiling (RecipeContext × List Declaration) := do
  Session.enter path
  Session.recording (recordSource path text)
  let declarations ← Session.parseText path text
  let environment ← Session.recording ((job.inputs path).build job.files)
  pure (⟨job, path, environment⟩, declarations)

/-- The steps of the root block of a recipe with the given text. -/
def rootSteps (job : Job) (path : Path) (text : String) : List Evaluation.Step :=
  match job.opening path text Session.empty with
  | .ok (context, declarations) session => Evaluation.rootSteps job.depth context declarations session
  | .error _ _ => []

theorem evaluate_eq_ok (job : Job) (path : Path) (text : String) (before after : Session) (root : Entity) :
    job.evaluate path text before = .ok root after ↔
      ∃ context declarations between, job.opening path text before = .ok (context, declarations) between ∧
        Evaluation.evaluateRecipe (Deeper.upTo job.depth) context declarations between = .ok root after := by
  simp only [evaluate, opening, Running.bind_eq_ok, Running.pure_eq_ok]
  constructor
  · rintro ⟨_, _, entered, _, _, recorded, declarations, _, parsed, environment, _, built, run⟩
    exact ⟨_, _, _, ⟨_, _, entered, _, _, recorded, declarations, _, parsed, environment, _, built, rfl, rfl⟩, run⟩
  · rintro ⟨_, _, _, ⟨_, _, entered, _, _, recorded, declarations, _, parsed, environment, _, built, same, rfl⟩,
      run⟩
    cases same
    exact ⟨_, _, entered, _, _, recorded, _, _, parsed, environment, _, built, run⟩

theorem opening_eq_ok (job : Job) (path : Path) (text : String) (context : RecipeContext)
    (declarations : List Declaration) (after : Session) :
    job.opening path text Session.empty = .ok (context, declarations) after ↔
      ∃ environment sources, Recipe.readDeclarations text = .ok declarations ∧
        (job.inputs path).build job.files (Sources.record [] path text) = .ok environment sources ∧
        context = ⟨job, path, environment⟩ ∧ after = ⟨[(path, declarations)], [path], sources⟩ := by
  simp only [opening, Running.bind_eq_ok, Session.enter_eq_ok, Session.recording_eq_ok, recordSource,
    Running.modify_eq_ok, Session.parseText_eq_ok, Running.pure_eq_ok]
  constructor
  · rintro ⟨_, _, ⟨_, rfl⟩, _, _, ⟨_, rfl, rfl⟩, _, _, ⟨known, _⟩ | ⟨_, parsed, rfl⟩, environment, _,
      ⟨sources, built, rfl⟩, same, rfl⟩
    · cases known
    · cases same
      exact ⟨environment, sources, parsed, built, rfl, rfl⟩
  · rintro ⟨environment, sources, parsed, built, rfl, rfl⟩
    exact ⟨(), _, ⟨rfl, rfl⟩, (), _, ⟨_, rfl, rfl⟩, declarations, _, Or.inr ⟨rfl, parsed, rfl⟩, environment, _,
      ⟨sources, built, rfl⟩, rfl, rfl⟩

end Job

end DeployRecipe
