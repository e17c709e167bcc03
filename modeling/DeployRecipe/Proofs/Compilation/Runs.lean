import DeployRecipe.Compilation.Recipe
import DeployRecipe.Proofs.Running

/-!
Inversion of the steps that evaluate a recipe. A step that ends well is made up of smaller ones that end
well, and each small one says which part of the state it changes.
-/

namespace DeployRecipe

namespace Running

variable {ε σ α : Type}

@[simp] theorem adapting_eq_ok (change : ε → ε) (action : EStateM ε σ α) (before after : σ) (result : α) :
    adapting change action before = .ok result after ↔ action before = .ok result after := by
  rw [adapting]
  cases action before <;> simp

theorem ensuring_eq_ok (restore : σ → σ) (action : EStateM ε σ α) (before after : σ) (result : α) :
    ensuring restore action before = .ok result after ↔
      ∃ between, action before = .ok result between ∧ restore between = after := by
  rw [ensuring]
  cases action before with
  | ok value between => simp
  | error error between => simp

end Running

theorem CompileError.kind_within (error : CompileError) (outer : Path) :
    (error.within outer).kind = error.kind := by
  rw [within]
  split <;> rfl

namespace Session

theorem enter_eq_ok (path : Path) (before after : Session) (result : Unit) :
    enter path before = .ok result after ↔
      before.isActive path = false ∧ after = { before with active := path :: before.active } := by
  rw [enter, Running.bind_eq_ok]
  constructor
  · rintro ⟨_, _, got, run⟩
    obtain ⟨rfl, rfl⟩ := (Running.get_eq_ok _ _ _).mp got
    dsimp only at run
    split at run
    · obtain ⟨_, _, thrown, _⟩ := (Running.bind_eq_ok _ _ _ _ _).mp run
      exact absurd thrown (Running.throw_ne_ok _ _ _ _)
    · rename_i free
      exact ⟨by simpa using free, ((Running.set_eq_ok _ _ _ _).mp run).symm⟩
  · rintro ⟨free, rfl⟩
    refine ⟨before, before, (Running.get_eq_ok _ _ _).mpr ⟨rfl, rfl⟩, ?_⟩
    simp only [free]
    exact (Running.set_eq_ok _ _ _ _).mpr rfl

theorem recording_eq_ok {α : Type} (action : Recording α) (before after : Session) (result : α) :
    recording action before = .ok result after ↔
      ∃ sources, action before.sources = .ok result sources ∧ after = { before with sources } := by
  rw [recording]
  cases action before.sources with
  | ok value sources => simp [eq_comm]
  | error error sources => simp

theorem read_eq_ok (job : Job) (path : Path) (before after : Session) (text : String) :
    read job path before = .ok text after ↔
      job.files.readText path = .ok text ∧
        after = { before with sources := before.sources.record path text } := by
  simp only [read, Running.bind_eq_ok, Running.ofExcept_eq_ok, recording_eq_ok, recordSource,
    Running.modify_eq_ok, Running.pure_eq_ok]
  constructor
  · rintro ⟨_, _, ⟨read, rfl⟩, _, _, ⟨_, rfl, rfl⟩, rfl, rfl⟩
    exact ⟨read, rfl⟩
  · rintro ⟨read, rfl⟩
    exact ⟨text, before, ⟨read, rfl⟩, (), _, ⟨_, rfl, rfl⟩, rfl, rfl⟩

/-- A text is parsed unless the recipe was parsed before. -/
theorem parseText_eq_ok (path : Path) (text : String) (before after : Session)
    (declarations : List Declaration) :
    parseText path text before = .ok declarations after ↔
      before.parsed? path = some declarations ∧ after = before ∨
        before.parsed? path = none ∧ Recipe.readDeclarations text = .ok declarations ∧
          after = { before with parsed := (path, declarations) :: before.parsed } := by
  rw [parseText, Running.bind_eq_ok]
  constructor
  · rintro ⟨_, _, got, run⟩
    obtain ⟨rfl, rfl⟩ := (Running.get_eq_ok _ _ _).mp got
    cases known : before.parsed? path with
    | some cached =>
      rw [known] at run
      obtain ⟨rfl, rfl⟩ := (Running.pure_eq_ok _ _ _ _).mp run
      exact Or.inl ⟨rfl, rfl⟩
    | none =>
      cases read : Recipe.readDeclarations text with
      | error error =>
        simp only [known, read] at run
        exact absurd run (Running.throw_ne_ok _ _ _ _)
      | ok parsed =>
        simp only [known, read] at run
        obtain ⟨_, _, put, same⟩ := (Running.bind_eq_ok _ _ _ _ _).mp run
        obtain ⟨rfl, rfl⟩ := (Running.pure_eq_ok _ _ _ _).mp same
        exact Or.inr ⟨rfl, rfl, ((Running.set_eq_ok _ _ _ _).mp put).symm⟩
  · rintro (⟨known, rfl⟩ | ⟨new, read, rfl⟩)
    · refine ⟨after, after, (Running.get_eq_ok _ _ _).mpr ⟨rfl, rfl⟩, ?_⟩
      simp only [known]
      exact (Running.pure_eq_ok _ _ _ _).mpr ⟨rfl, rfl⟩
    · refine ⟨before, before, (Running.get_eq_ok _ _ _).mpr ⟨rfl, rfl⟩, ?_⟩
      simp only [new, read]
      rfl

theorem parseFile_eq_ok (job : Job) (path : Path) (before after : Session)
    (declarations : List Declaration) :
    parseFile job path before = .ok declarations after ↔
      before.parsed? path = some declarations ∧ after = before ∨
        before.parsed? path = none ∧ ∃ text, job.files.readText path = .ok text ∧
          Recipe.readDeclarations text = .ok declarations ∧
          after = { before with
            parsed := (path, declarations) :: before.parsed
            sources := before.sources.record path text } := by
  rw [parseFile, Running.bind_eq_ok]
  constructor
  · rintro ⟨_, _, got, run⟩
    obtain ⟨rfl, rfl⟩ := (Running.get_eq_ok _ _ _).mp got
    cases known : before.parsed? path with
    | some cached =>
      rw [known] at run
      obtain ⟨rfl, rfl⟩ := (Running.pure_eq_ok _ _ _ _).mp run
      exact Or.inl ⟨rfl, rfl⟩
    | none =>
      rw [known] at run
      obtain ⟨text, between, reading, parsing⟩ := (Running.bind_eq_ok _ _ _ _ _).mp run
      obtain ⟨found, rfl⟩ := (read_eq_ok _ _ _ _ _).mp reading
      rcases (parseText_eq_ok _ _ _ _ _).mp parsing with ⟨cached, _⟩ | ⟨_, parsed, rfl⟩
      · exact absurd (known.symm.trans cached) (by simp)
      · exact Or.inr ⟨rfl, text, found, parsed, rfl⟩
  · rintro (⟨known, rfl⟩ | ⟨new, text, found, parsed, rfl⟩)
    · refine ⟨after, after, (Running.get_eq_ok _ _ _).mpr ⟨rfl, rfl⟩, ?_⟩
      simp only [known]
      exact (Running.pure_eq_ok _ _ _ _).mpr ⟨rfl, rfl⟩
    · refine ⟨before, before, (Running.get_eq_ok _ _ _).mpr ⟨rfl, rfl⟩, ?_⟩
      simp only [new]
      exact (Running.bind_eq_ok _ _ _ _ _).mpr ⟨text, _, (read_eq_ok _ _ _ _ _).mpr ⟨found, rfl⟩,
        (parseText_eq_ok _ _ _ _ _).mpr (Or.inr ⟨new, parsed, rfl⟩)⟩

end Session

namespace Evaluation

variable {α : Type} {context : RecipeContext} {before after : Evaluation}

@[simp] theorem inSession_eq_ok (action : Compiling α) (result : α) :
    inSession action before = .ok result after ↔
      ∃ session, action before.session = .ok result session ∧ after = { before with session } := by
  rw [inSession]
  cases action before.session with
  | ok value session => simp [eq_comm]
  | error error session => simp

theorem fail_ne_ok (line : Nat) (kind : ErrorKind) (result : α) :
    fail context line kind before ≠ .ok result after := by
  intro run
  obtain ⟨_, _, _, thrown⟩ := (Running.bind_eq_ok _ _ _ _ _).mp run
  exact Running.throw_ne_ok _ _ _ _ thrown

@[simp] theorem demand_eq_ok (line : Nat) (outcome : Except ErrorKind α) (result : α) :
    demand context line outcome before = .ok result after ↔ outcome = .ok result ∧ before = after := by
  cases outcome with
  | ok value => simp [demand]
  | error kind => simp [demand, fail_ne_ok]

theorem inScope_eq_ok (entity finished : Entity) (body : Evaluating Unit) :
    inScope entity body before = .ok finished after ↔
      ∃ between, body { before with scopes := .opening entity :: before.scopes } = .ok () between ∧
        finished = (between.scopes.head?.map Scope.entity).getD entity ∧
        after = { between with scopes := between.scopes.tail } := by
  rw [inScope]
  cases body { before with scopes := .opening entity :: before.scopes } with
  | ok value between => simp [eq_comm]
  | error error between => simp

theorem inFragment_eq_ok (line : Nat) (path : Path) (action : Evaluating α) (result : α) :
    inFragment context line path action before = .ok result after ↔
      before.session.isActive path = false ∧
        ∃ between, action { before with
            session := { before.session with active := path :: before.session.active } } =
              .ok result between ∧
          after = { between with session := between.session.leave } := by
  simp only [inFragment, Running.bind_eq_ok, Running.get_eq_ok, Running.adapting_eq_ok, inSession_eq_ok,
    Session.enter_eq_ok, Running.ensuring_eq_ok]
  constructor
  · rintro ⟨_, _, ⟨rfl, rfl⟩, _, _, ⟨_, ⟨free, rfl⟩, rfl⟩, between, run, rfl⟩
    exact ⟨free, between, run, rfl⟩
  · rintro ⟨free, between, run, rfl⟩
    exact ⟨before, before, ⟨rfl, rfl⟩, (), _, ⟨_, ⟨free, rfl⟩, rfl⟩, between, run, rfl⟩

theorem withFragment_eq_ok (path : Path) (action : Evaluating α) (result : α) :
    withFragment path action before = .ok result after ↔
      ∃ between, action { before with fragments := path :: before.fragments } = .ok result between ∧
        after = { between with fragments := between.fragments.tail } := by
  simp only [withFragment, Running.bind_eq_ok, Running.modify_eq_ok, Running.ensuring_eq_ok]
  constructor
  · rintro ⟨_, _, rfl, between, run, rfl⟩
    exact ⟨between, run, rfl⟩
  · rintro ⟨between, run, rfl⟩
    exact ⟨(), _, rfl, between, run, rfl⟩

theorem onePath_eq_ok (line : Nat) (kind : EntityKind) (directive : String) (values : List Value)
    (path : String) :
    onePath context line kind directive values before = .ok path after ↔
      values = [.text path] ∧ before = after := by
  rw [onePath.eq_def]
  split
  · simp
  · rename_i other
    constructor
    · intro run
      exact absurd run (fail_ne_ok _ _ _)
    · rintro ⟨rfl, _⟩
      exact absurd rfl (other path)

/-- A fragment that is named in a state stands at an absolute path. -/
def NamesFragment (context : RecipeContext) (state : Evaluation) (relative : String) (path : Path) : Prop :=
  context.job.files.isFile ((state.currentDirectory context).join ⟨relative⟩) = true ∧
    context.job.files.canonical ((state.currentDirectory context).join ⟨relative⟩) = .ok path

theorem fragmentPath_eq_ok (line : Nat) (relative : String) (path : Path) :
    fragmentPath context line relative before = .ok path after ↔
      before.NamesFragment context relative path ∧ before = after := by
  rw [fragmentPath, Running.bind_eq_ok]
  constructor
  · rintro ⟨_, _, got, run⟩
    obtain ⟨rfl, rfl⟩ := (Running.get_eq_ok _ _ _).mp got
    split at run
    · rename_i file
      cases found : context.job.files.canonical ((before.currentDirectory context).join ⟨relative⟩) with
      | ok absolute =>
        rw [found] at run
        obtain ⟨rfl, rfl⟩ := (Running.pure_eq_ok _ _ _ _).mp run
        exact ⟨⟨file, found⟩, rfl⟩
      | error error =>
        rw [found] at run
        exact absurd run (fail_ne_ok _ _ _)
    · exact absurd run (fail_ne_ok _ _ _)
  · rintro ⟨⟨file, found⟩, rfl⟩
    refine ⟨before, before, (Running.get_eq_ok _ _ _).mpr ⟨rfl, rfl⟩, ?_⟩
    simp only [file, found, if_true]
    exact (Running.pure_eq_ok _ _ _ _).mpr ⟨rfl, rfl⟩

/-- The state inside a fragment. -/
def entering (state : Evaluation) (path : Path) (session : Session) : Evaluation :=
  { state with session, fragments := path :: state.fragments }

/-- The state after a fragment. -/
def leaving (state : Evaluation) : Evaluation :=
  { state with session := state.session.leave, fragments := state.fragments.tail }

theorem splice_eq_ok (deeper : Deeper) (line : Nat) (values : Evaluating (List Value)) :
    splice deeper context line values before = .ok () after ↔
      ∃ relative between path declarations session inner,
        values before = .ok [.text relative] between ∧ between.NamesFragment context relative path ∧
        between.session.isActive path = false ∧
        Session.parseFile context.job path
          { between.session with active := path :: between.session.active } = .ok declarations session ∧
        deeper.declarations context declarations (between.entering path session) = .ok () inner ∧
        after = inner.leaving := by
  rw [splice, Running.get_bind]
  simp only [Running.bind_eq_ok, onePath_eq_ok, fragmentPath_eq_ok, inFragment_eq_ok, inSession_eq_ok,
    withFragment_eq_ok]
  constructor
  · rintro ⟨_, between, evaluated, relative, _, ⟨rfl, rfl⟩, path, _, ⟨named, rfl⟩, free, _, ⟨declarations, _,
      ⟨session, parsed, rfl⟩, inner, run, rfl⟩, rfl⟩
    exact ⟨relative, between, path, declarations, session, inner, evaluated, named, free, parsed, run, rfl⟩
  · rintro ⟨relative, between, path, declarations, session, inner, evaluated, named, free, parsed, run, rfl⟩
    exact ⟨_, between, evaluated, relative, between, ⟨rfl, rfl⟩, path, between, ⟨named, rfl⟩, free, _,
      ⟨declarations, _, ⟨session, parsed, rfl⟩, inner, run, rfl⟩, rfl⟩

theorem loadValue_eq_ok (deeper : Deeper) (line : Nat) (relative : String) (result : Value) :
    loadValue deeper context line relative before = .ok result after ↔
      ∃ path text expression session inner,
        before.NamesFragment context relative path ∧ before.session.isActive path = false ∧
        Session.read context.job path
          { before.session with active := path :: before.session.active } = .ok text session ∧
        Recipe.readExpression text = .ok expression ∧
        deeper.expression context expression (before.entering path session) = .ok result inner ∧
        after = inner.leaving := by
  simp only [loadValue, readFragment, Running.bind_eq_ok, fragmentPath_eq_ok, inFragment_eq_ok,
    inSession_eq_ok, withFragment_eq_ok]
  constructor
  · rintro ⟨path, _, ⟨named, rfl⟩, free, _, ⟨expression, _, ⟨text, _, ⟨session, found, rfl⟩, parsing⟩,
      inner, run, rfl⟩, rfl⟩
    cases parsed : Recipe.readExpression text with
    | error error =>
      rw [parsed] at parsing
      exact absurd parsing (Running.throw_ne_ok _ _ _ _)
    | ok known =>
      rw [parsed] at parsing
      obtain ⟨rfl, rfl⟩ := (Running.pure_eq_ok _ _ _ _).mp parsing
      exact ⟨path, text, known, session, inner, named, free, found, parsed, run, rfl⟩
  · rintro ⟨path, text, expression, session, inner, named, free, found, parsed, run, rfl⟩
    refine ⟨path, before, ⟨named, rfl⟩, free, _, ⟨expression, { before with session },
      ⟨text, { before with session }, ⟨session, found, rfl⟩, ?_⟩, inner, run, rfl⟩, rfl⟩
    rw [parsed]
    rfl

theorem compileNested_eq_ok (deeper : Deeper) (job : Job) (path : Path) (handover : Handover)
    (before after : Session) (entity : Entity) :
    compileNested deeper job path handover before = .ok entity after ↔
      before.isActive path = false ∧
        ∃ declarations parsed environment sources inner,
          Session.parseFile job path { before with active := path :: before.active } =
            .ok declarations parsed ∧
          (handover.inputs job path).build job.files parsed.sources = .ok environment sources ∧
          deeper.recipe ⟨job, path, environment⟩ declarations { parsed with sources } = .ok entity inner ∧
          after = inner.leave := by
  simp only [compileNested, Running.bind_eq_ok, Session.enter_eq_ok, Running.ensuring_eq_ok,
    Session.recording_eq_ok]
  constructor
  · rintro ⟨_, _, ⟨free, rfl⟩, inner, ⟨declarations, parsed, parsing, environment, _, ⟨sources, built, rfl⟩,
      run⟩, rfl⟩
    exact ⟨free, declarations, parsed, environment, sources, inner, parsing, built, run, rfl⟩
  · rintro ⟨free, declarations, parsed, environment, sources, inner, parsing, built, run, rfl⟩
    exact ⟨(), _, ⟨free, rfl⟩, inner, ⟨declarations, parsed, parsing, environment, _, ⟨sources, built, rfl⟩,
      run⟩, rfl⟩

theorem compileFrom_eq_ok (deeper : Deeper) (path : Path) (handover : Handover) (entity : Entity) :
    compileFrom deeper context path handover before = .ok entity after ↔
      ∃ session, compileNested deeper context.job path handover before.session = .ok entity session ∧
        after = { before with session } := by
  simp only [compileFrom, Running.get_bind, Running.adapting_eq_ok, inSession_eq_ok]

/-- The open block with a base in its place. -/
def extendedBy (state : Evaluation) (base : Entity) (path : Path) : Evaluation :=
  state.mapInnermost fun scope => { scope with entity := base.addBase path.text }

theorem extendBase_eq_ok (deeper : Deeper) (line : Nat) (values : Evaluating (List Value)) :
    extendBase deeper context line values before = .ok () after ↔
      ∃ kind reference between path base session,
        extendingKind before = .ok kind ∧ values before = .ok [.text reference] between ∧
        BaseReference.resolve context.job.files reference (between.currentDirectory context)
          context.job.settings.searchRoots = .ok path ∧
        compileNested deeper context.job path (.inherited context.environment.inheritable)
          between.session = .ok base session ∧
        base.kind = .service ∧ after = { between with session }.extendedBy base path := by
  rw [extendBase, Running.get_bind]
  simp only [Running.bind_eq_ok, demand_eq_ok, onePath_eq_ok, Running.get_eq_ok, compileFrom_eq_ok]
  constructor
  · rintro ⟨kind, _, ⟨extending, rfl⟩, _, between, evaluated, reference, _, ⟨rfl, rfl⟩, _, _, ⟨rfl, rfl⟩,
      path, _, ⟨resolved, rfl⟩, base, _, ⟨session, compiled, rfl⟩, run⟩
    split at run
    · obtain ⟨_, _, failed, _⟩ := (Running.bind_eq_ok _ _ _ _ _).mp run
      exact absurd failed (fail_ne_ok _ _ _)
    · rename_i service
      exact ⟨kind, reference, between, path, base, session, extending, evaluated, resolved, compiled,
        by simpa using service, ((Running.modify_eq_ok _ _ _ _).mp run).symm⟩
  · rintro ⟨kind, reference, between, path, base, session, extending, evaluated, resolved, compiled,
      service, rfl⟩
    refine ⟨kind, before, ⟨extending, rfl⟩, _, between, evaluated, reference, between, ⟨rfl, rfl⟩, between,
      between, ⟨rfl, rfl⟩, path, between, ⟨resolved, rfl⟩, base, _, ⟨session, compiled, rfl⟩, ?_⟩
    rw [if_neg (by simpa using service)]
    exact (Running.modify_eq_ok _ _ _ _).mpr rfl

/-- An open service of an application that is loaded from a directory. -/
theorem loadService_eq_ok (deeper : Deeper) (line : Nat) :
    loadService deeper context line before = .ok () after ↔
      before.serviceDirectory? context = none ∧ after = before ∨
      ∃ name directory path loaded session entity,
        before.serviceDirectory? context = some (name, directory) ∧
        context.job.files.theFileEndingIn directory RecipeKind.service.suffix = .ok path ∧
        compileNested deeper context.job path (.external context.environment.inheritable)
          before.session = .ok loaded session ∧
        loaded.kind = .service ∧ loaded.setCoerced nameProperty (.text name) = .ok entity ∧
        after = { before with session }.mapInnermost fun scope => { scope with entity } := by
  rw [loadService, Running.get_bind]
  cases found : before.serviceDirectory? context with
  | none => simp [eq_comm]
  | some pair =>
    obtain ⟨name, directory⟩ := pair
    simp only [Running.bind_eq_ok, demand_eq_ok, compileFrom_eq_ok]
    constructor
    · rintro ⟨path, _, ⟨searched, rfl⟩, loaded, _, ⟨session, compiled, rfl⟩, run⟩
      split at run
      · obtain ⟨_, _, failed, _⟩ := (Running.bind_eq_ok _ _ _ _ _).mp run
        exact absurd failed (fail_ne_ok _ _ _)
      · rename_i service
        obtain ⟨entity, _, naming, run⟩ := (Running.bind_eq_ok _ _ _ _ _).mp run
        obtain ⟨named, rfl⟩ := (demand_eq_ok _ _ _).mp naming
        exact Or.inr ⟨name, directory, path, loaded, session, entity, rfl, searched, compiled,
          by simpa using service, named, ((Running.modify_eq_ok _ _ _ _).mp run).symm⟩
    · rintro (⟨absurd, _⟩ | ⟨_, _, path, loaded, session, entity, same, searched, compiled, service, named,
        rfl⟩)
      · cases absurd
      · obtain ⟨rfl, rfl⟩ := Prod.mk.inj (Option.some.inj same)
        refine ⟨path, before, ⟨searched, rfl⟩, loaded, _, ⟨session, compiled, rfl⟩, ?_⟩
        rw [if_neg (by simpa using service)]
        exact (Running.bind_eq_ok _ _ _ _ _).mpr ⟨entity, _, (demand_eq_ok _ _ _).mpr ⟨named, rfl⟩,
          (Running.modify_eq_ok _ _ _ _).mpr rfl⟩

/-- The content with which a block starts: what its parent holds, or the defaults of its kind. -/
def startOf (state : Evaluation) (descriptor : Descriptor) (attached : Bool) : Except ErrorKind Entity :=
  if attached then state.openAttached descriptor else .ok (.fresh descriptor.kind)

/-- The state in which a block is evaluated, after its parent noted it. -/
def noting (state : Evaluation) (descriptor : Descriptor) (attached : Bool) : Evaluation :=
  if attached then state.mapInnermost (noteFamily descriptor) else state

theorem evaluateBlock_eq_ok (name : String) (line : Nat) (attached : Bool) (body : Evaluating Unit)
    (finished : Entity) :
    evaluateBlock context name line attached body before = .ok finished after ↔
      ∃ descriptor start, Registry.describe? name = some descriptor ∧
        checkPlace before descriptor attached = .ok () ∧ before.startOf descriptor attached = .ok start ∧
        inScope start body (before.noting descriptor attached) = .ok finished after := by
  rw [evaluateBlock]
  cases described : Registry.describe? name with
  | none => simp [fail_ne_ok]
  | some descriptor =>
    simp only [Running.get_bind, Option.some.injEq, exists_and_left, exists_eq_left']
    cases attached with
    | false => simp [Running.bind_eq_ok, startOf, noting, Unique.exists_iff]
    | true => simp [Running.bind_eq_ok, startOf, noting, Unique.exists_iff]

theorem attach_eq_ok (line : Nat) (entity : Entity) :
    attach context line entity before = .ok () after ↔
      before.scopes = [] ∧ after = { before with root := some entity } ∨
      ∃ parent outer changed used, before.scopes = parent :: outer ∧
        parent.entity.bindEntity parent.used entity = .ok (changed, used) ∧
        after = { before with scopes := { parent with entity := changed, used } :: outer } := by
  rw [attach, Running.get_bind]
  cases before.scopes with
  | nil => simp [eq_comm]
  | cons parent outer =>
    simp only [Running.bind_eq_ok, demand_eq_ok, Running.set_eq_ok]
    constructor
    · rintro ⟨⟨changed, used⟩, _, ⟨bound, rfl⟩, rfl⟩
      exact Or.inr ⟨parent, outer, changed, used, rfl, bound, rfl⟩
    · rintro (⟨absurd, _⟩ | ⟨_, _, changed, used, same, bound, rfl⟩)
      · cases absurd
      · cases same
        exact ⟨(changed, used), before, ⟨bound, rfl⟩, rfl⟩

/-- A name in an open block is given values, as a path if it is dotted. -/
def bound (scope : Scope) (name : String) (values : List Value) : Except ErrorKind (Entity × UsedNames) :=
  if DottedName.isDotted name then scope.entity.bindPath scope.used name values
  else scope.entity.bind scope.used name values

theorem bindName_eq_ok (line : Nat) (name : String) (values : List Value) :
    bindName context line name values before = .ok () after ↔
      ∃ scope outer changed used, before.scopes = scope :: outer ∧
        bound scope name values = .ok (changed, used) ∧
        after = { before with scopes := { scope with entity := changed, used } :: outer } := by
  rw [bindName, Running.get_bind]
  cases before.scopes with
  | nil => simp [fail_ne_ok]
  | cons scope outer =>
    simp only [Running.bind_eq_ok, demand_eq_ok, Running.set_eq_ok]
    constructor
    · rintro ⟨⟨changed, used⟩, _, ⟨bound, rfl⟩, rfl⟩
      exact ⟨scope, outer, changed, used, rfl, bound, rfl⟩
    · rintro ⟨_, _, changed, used, same, bound, rfl⟩
      cases same
      exact ⟨(changed, used), before, ⟨bound, rfl⟩, rfl⟩

theorem evaluate_interpolated_eq_ok {deeper : Deeper} {line : Nat} {parts : List TextPart} {value : Value} :
    evaluate deeper context line (.interpolated parts) before = .ok value after ↔
      ∃ text, TextPart.interpolate (before.resolve? context) parts = .ok text ∧ value = .text text ∧ after = before := by
  rw [evaluate, Running.get_bind]
  cases TextPart.interpolate (before.resolve? context) parts with
  | ok text => simp [eq_comm]
  | error name => simp [fail_ne_ok]

theorem evaluate_reference_eq_ok {deeper : Deeper} {line : Nat} {name : String} {value : Value} :
    evaluate deeper context line (.reference name) before = .ok value after ↔
      before.resolve? context name = some value ∧ after = before := by
  rw [evaluate, Running.get_bind]
  cases before.resolve? context name with
  | some found => simp [eq_comm]
  | none => simp [fail_ne_ok]

end Evaluation

end DeployRecipe
