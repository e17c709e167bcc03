import DeployRecipe.Proofs.Compilation.Preserves
import DeployRecipe.Proofs.Environment.Alike
import DeployRecipe.Proofs.FileTree

/-!
One compilation beside another one of the same files. If the first one ends well, so does the second one,
with the same result: it may have parsed other files, be inside of fewer files, and see tables that are alike.
-/

namespace DeployRecipe

namespace Session

theorem parsed?_cons (session : Session) (path : Path) (declarations : List Declaration) (other : Path) :
    parsed? { session with parsed := (path, declarations) :: session.parsed } other =
      if path.same other = true then some declarations else session.parsed? other := by
  rw [parsed?, List.find?_cons]
  cases path.same other <;> rfl

/-- What was parsed was read from a file with the components of its path. Only the recipe at one path may
stand for another text. -/
def Faithful (files : FileTree) (own : Path) (session : Session) : Prop :=
  ∀ path declarations, session.parsed? path = some declarations → path.same own = false →
    ∃ known text, known.same path = true ∧ files.readText known = .ok text ∧
      Recipe.readDeclarations text = .ok declarations

section Faithful

variable {job : Job} {own path : Path} {session after : Session} {declarations : List Declaration}
  (faithful : session.Faithful job.files own)
include faithful

theorem Faithful.add {text : String} (read : job.files.readText path = .ok text)
    (parsed : Recipe.readDeclarations text = .ok declarations) (sources : Sources) :
    Faithful job.files own { session with parsed := (path, declarations) :: session.parsed, sources } := by
  intro other found known foreign
  have split := parsed?_cons { session with sources } path declarations other
  rw [split] at known
  split at known
  · rename_i same
    obtain rfl := Option.some.inj known
    exact ⟨path, text, same, read, parsed⟩
  · exact faithful other found known foreign

/-- Parsing gives what the file at the path holds. -/
theorem Faithful.parseFile (reads : job.files.Reads path) (foreign : path.same own = false)
    (run : parseFile job path session = .ok declarations after) :
    (∃ text, job.files.readText path = .ok text ∧ Recipe.readDeclarations text = .ok declarations) ∧
      after.Faithful job.files own ∧ after.active = session.active := by
  rcases (parseFile_eq_ok _ _ _ _ _).mp run with ⟨known, rfl⟩ | ⟨_, text, read, parsed, rfl⟩
  · obtain ⟨place, text, same, read, parsed⟩ := faithful path declarations known foreign
    exact ⟨⟨text, reads place text same read, parsed⟩, faithful, rfl⟩
  · exact ⟨⟨text, read, parsed⟩, faithful.add read parsed _, rfl⟩

/-- What a file holds is what parsing gives. -/
theorem Faithful.gives (foreign : path.same own = false) {text : String}
    (read : job.files.readText path = .ok text) (parsed : Recipe.readDeclarations text = .ok declarations) :
    Running.Gives (Session.parseFile job path) session declarations := by
  cases known : session.parsed? path with
  | none =>
    exact ⟨_, (parseFile_eq_ok _ _ _ _ _).mpr (Or.inr ⟨known, text, read, parsed, rfl⟩)⟩
  | some found =>
    obtain ⟨place, more, same, read', parsed'⟩ := faithful path found known foreign
    obtain rfl := FileTree.readText_of_same same read' read
    obtain rfl := Except.ok.inj (parsed'.symm.trans parsed)
    exact ⟨session, (parseFile_eq_ok _ _ _ _ _).mpr (Or.inl ⟨known, rfl⟩)⟩

end Faithful

end Session

/-- The files that two compilations are inside of. The first one is inside of its own recipe, and of all
that the second one is inside of. -/
structure Enclosing (own : Path) (outer inner : List Path) : Prop where
  own : ∃ path ∈ outer, path.same own = true
  inner : ∀ path, (inner.any fun active => active.same path) = true →
    (outer.any fun active => active.same path) = true

theorem Enclosing.push {own : Path} {outer inner : List Path} (enclosing : Enclosing own outer inner)
    (path : Path) :
    Enclosing own (path :: outer) (path :: inner) := by
  obtain ⟨⟨active, member, same⟩, inside⟩ := enclosing
  refine ⟨⟨active, List.mem_cons_of_mem path member, same⟩, fun other => ?_⟩
  rw [List.any_cons, List.any_cons, Bool.or_eq_true, Bool.or_eq_true]
  exact Or.imp_right (inside other)

/-- What the first one is not inside of, the second one is not inside of either. -/
theorem Enclosing.free {own path : Path} {outer inner : List Path} (enclosing : Enclosing own outer inner)
    (free : (outer.any fun active => active.same path) = false) :
    (inner.any fun active => active.same path) = false ∧ path.same own = false := by
  constructor
  · by_contra busy
    rw [enclosing.inner path (by simpa using busy)] at free
    cases free
  · by_contra same
    obtain ⟨active, member, known⟩ := enclosing.own
    have busy : (outer.any fun active => active.same path) = true :=
      List.any_eq_true.mpr ⟨active, member, Path.same_trans known (Path.same_symm (by simpa using same))⟩
    rw [free] at busy
    cases busy

/-- Two sessions of compilations that are inside of the given files. -/
structure Session.Beside (files : FileTree) (own : Path) (outer inner : List Path) (session other : Session) :
    Prop where
  active : session.active = outer
  active' : other.active = inner
  faithful : session.Faithful files own
  faithful' : other.Faithful files own

namespace Session.Beside

variable {job more : Job} {own path : Path} {outer inner : List Path} {session other after : Session}

theorem enter {files : FileTree} (beside : Beside files own outer inner session other)
    (enclosing : Enclosing own outer inner) (free : session.isActive path = false) :
    other.isActive path = false ∧ path.same own = false ∧
      Beside files own (path :: outer) (path :: inner) { session with active := path :: session.active }
        { other with active := path :: other.active } := by
  obtain ⟨rfl, rfl, faithful, faithful'⟩ := beside
  obtain ⟨free', foreign⟩ := enclosing.free free
  exact ⟨free', foreign, rfl, rfl, faithful, faithful'⟩

theorem leave {files : FileTree} (beside : Beside files own (path :: outer) (path :: inner) session other) :
    Beside files own outer inner session.leave other.leave := by
  obtain ⟨active, active', faithful, faithful'⟩ := beside
  exact ⟨by rw [Session.leave, active]; rfl, by rw [Session.leave, active']; rfl, faithful, faithful'⟩

theorem parseFile (beside : Beside job.files own outer inner session other) (files : more.files = job.files)
    (reads : job.files.Reads path) (foreign : path.same own = false) {declarations : List Declaration}
    (run : Session.parseFile job path session = .ok declarations after) :
    ∃ last, Session.parseFile more path other = .ok declarations last ∧
      Beside job.files own outer inner after last := by
  obtain ⟨rfl, rfl, faithful, faithful'⟩ := beside
  obtain ⟨⟨text, read, parsed⟩, later, active⟩ := faithful.parseFile reads foreign run
  rw [← files] at faithful' read reads
  obtain ⟨last, again⟩ := faithful'.gives foreign read parsed
  obtain ⟨_, later', active'⟩ := faithful'.parseFile reads foreign again
  exact ⟨last, again, active, active', later, files ▸ later'⟩

theorem read (beside : Beside job.files own outer inner session other) (files : more.files = job.files)
    {text : String} (run : Session.read job path session = .ok text after) :
    ∃ last, Session.read more path other = .ok text last ∧
      Beside job.files own outer inner after last := by
  obtain ⟨active, active', faithful, faithful'⟩ := beside
  obtain ⟨found, rfl⟩ := (Session.read_eq_ok _ _ _ _ _).mp run
  rw [← files] at found
  exact ⟨_, (Session.read_eq_ok _ _ _ _ _).mpr ⟨found, rfl⟩, active, active', faithful, faithful'⟩

end Session.Beside

/-- Two contexts of the same recipe and the same files, in environments that are alike. -/
structure RecipeContext.Alike (context more : RecipeContext) : Prop where
  files : more.job.files = context.job.files
  settings : more.job.settings = context.job.settings
  ambient : more.job.ambient = context.job.ambient
  recipeFile : more.recipeFile = context.recipeFile
  environment : context.environment.Alike more.environment

/-- Two compilations that are inside of the given files, in alike contexts. -/
structure Twins (own : Path) (outer inner : List Path) (context more : RecipeContext) : Prop where
  proper : context.job.files.Proper
  enclosing : Enclosing own outer inner
  alike : context.Alike more

theorem Twins.push {own : Path} {outer inner : List Path} {context more : RecipeContext}
    (twins : Twins own outer inner context more) (path : Path) :
    Twins own (path :: outer) (path :: inner) context more :=
  ⟨twins.proper, twins.enclosing.push path, twins.alike⟩

/-- Two states that differ only in their sessions. -/
def Evaluation.Beside (files : FileTree) (own : Path) (outer inner : List Path) (state other : Evaluation) :
    Prop :=
  ∃ session, other = { state with session } ∧ state.session.Beside files own outer inner session

/-- The second way to evaluate the files that a file leads to follows the first one. -/
structure Deeper.Follows (own : Path) (deeper other : Deeper) : Prop where
  declarations : ∀ {outer inner context more}, Twins own outer inner context more → ∀ declarations,
    Running.Follows (Evaluation.Beside context.job.files own outer inner)
      (Evaluation.Beside context.job.files own outer inner)
      (deeper.declarations context declarations) (other.declarations more declarations)
  expression : ∀ {outer inner context more}, Twins own outer inner context more → ∀ expression,
    Running.Follows (Evaluation.Beside context.job.files own outer inner)
      (Evaluation.Beside context.job.files own outer inner)
      (deeper.expression context expression) (other.expression more expression)
  recipe : ∀ {outer inner context more}, Twins own outer inner context more → ∀ declarations,
    Running.Follows (Session.Beside context.job.files own outer inner)
      (Session.Beside context.job.files own outer inner)
      (deeper.recipe context declarations) (other.recipe more declarations)

/-- The table that is handed over is laid at the same side, and it is alike. -/
inductive Evaluation.Handover.Alike : Evaluation.Handover → Evaluation.Handover → Prop
  | inherited {table other : Table} (alike : Table.Alike table other) :
    Alike (.inherited table) (.inherited other)
  | external {table other : Table} (alike : Table.Alike table other) :
    Alike (.external table) (.external other)

namespace BaseReference

variable {files : FileTree} {path : Path}

theorem absolute_eq_ok {candidate : Path} :
    absolute files candidate = .ok path ↔ files.canonical candidate = .ok path := by
  rw [absolute]
  split <;> simp [*]

/-- A directory settles a search with its service recipe, a file with itself, and else a file with one more
extension does. -/
theorem settle?_eq_ok {candidate : Path} (settled : settle? files candidate = some (.ok path)) :
    files.isDirectory candidate = true ∧
        (∃ file, files.theFileEndingIn candidate RecipeKind.service.suffix = .ok file ∧
          files.canonical file = .ok path) ∨
      files.isDirectory candidate = false ∧ files.isFile candidate = true ∧ files.canonical candidate = .ok path ∨
      files.isDirectory candidate = false ∧ files.isFile candidate = false ∧
        files.isFile (candidate.append ".recipe") = true ∧
        files.canonical (candidate.append ".recipe") = .ok path := by
  rw [settle?] at settled
  split at settled
  · obtain ⟨file, single, success⟩ := (Running.attempt_eq_ok _ _ _).mp (Option.some.inj settled)
    exact Or.inl ⟨‹_›, file, single, absolute_eq_ok.mp success⟩
  · rename_i directory
    rw [Bool.not_eq_true] at directory
    split at settled
    · exact Or.inr (Or.inl ⟨directory, ‹_›, absolute_eq_ok.mp (Option.some.inj settled)⟩)
    · rename_i file
      rw [Bool.not_eq_true] at file
      split at settled
      · exact Or.inr (Or.inr ⟨directory, file, ‹_›, absolute_eq_ok.mp (Option.some.inj settled)⟩)
      · cases settled

theorem resolve_eq_ok_iff {reference : String} {directory : Path} {roots : List Path} :
    resolve files reference directory roots = .ok path ↔
      (candidates ⟨reference⟩ directory roots).findSome? (settle? files) = some (.ok path) := by
  rw [resolve]
  cases (candidates ⟨reference⟩ directory roots).findSome? (settle? files) <;> simp

end BaseReference

namespace Evaluation

variable {deeper other : Deeper} {own : Path} {outer inner : List Path} {context more : RecipeContext}

theorem Handover.Alike.inputs {handover given : Handover} (same : handover.Alike given)
    (alike : context.Alike more) (path : Path) :
    (handover.inputs context.job path).Alike (given.inputs more.job path) := by
  obtain ⟨-, settings, ambient, -, -⟩ := alike
  have limit := congrArg Settings.overridesLimit settings.symm
  have base := Environment.Alike.refl [⟨.defaults, context.job.settings.defaults⟩]
  cases same with
  | inherited tables =>
    refine ⟨rfl, rfl, rfl, ambient.symm, limit, ?_, .none⟩
    dsimp only [EnvironmentInputs.given, Handover.inputs]
    rw [settings]
    exact base.push .inherited tables.interchangeable
  | external tables =>
    refine ⟨rfl, rfl, rfl, ambient.symm, limit, ?_, .some tables.interchangeable⟩
    dsimp only [EnvironmentInputs.given, Handover.inputs]
    rw [settings]
    exact base

theorem compileNested_follows (follows : deeper.Follows own other) (twins : Twins own outer inner context more)
    {handover given : Handover} (same : handover.Alike given) {path : Path}
    (reads : context.job.files.Reads path) :
    Running.Follows (Session.Beside context.job.files own outer inner)
      (Session.Beside context.job.files own outer inner)
      (compileNested deeper context.job path handover) (compileNested other more.job path given) := by
  intro session beside' root after beside run
  obtain ⟨free, declarations, parsed, environment, sources, last, parsing, built, recipe, rfl⟩ :=
    (compileNested_eq_ok _ _ _ _ _ _ _).mp run
  obtain ⟨free', foreign, entered⟩ := beside.enter twins.enclosing free
  obtain ⟨parsed', parsing', read⟩ := entered.parseFile twins.alike.files reads foreign parsing
  obtain ⟨environment', ⟨sources', built'⟩, alike⟩ :=
    EnvironmentInputs.build_alike (same.inputs twins.alike path) ⟨_, built⟩ parsed'.sources
  have deeper : Twins own (path :: outer) (path :: inner) ⟨context.job, path, environment⟩
      ⟨more.job, path, environment'⟩ :=
    ⟨twins.proper, twins.enclosing.push path, twins.alike.files, twins.alike.settings, twins.alike.ambient,
      rfl, alike⟩
  have recorded : Session.Beside context.job.files own (path :: outer) (path :: inner) { parsed with sources }
      { parsed' with sources := sources' } :=
    ⟨read.active, read.active', read.faithful, read.faithful'⟩
  obtain ⟨last', recipe', later⟩ := follows.recipe deeper declarations recorded recipe
  refine ⟨last'.leave, (compileNested_eq_ok _ _ _ _ _ _ _).mpr ?_, later.leave⟩
  rw [twins.alike.files]
  exact ⟨free', declarations, parsed', environment', sources', last', parsing', built', recipe', rfl⟩

theorem mapInnermost_session (state : Evaluation) (change : Scope → Scope) (session : Session) :
    { state with session }.mapInnermost change = { state.mapInnermost change with session } := by
  obtain ⟨_, _, _, scopes, _⟩ := state
  cases scopes <;> rfl

theorem session_mapInnermost (state : Evaluation) (change : Scope → Scope) :
    (state.mapInnermost change).session = state.session := by
  obtain ⟨_, _, _, scopes, _⟩ := state
  cases scopes <;> rfl

theorem noting_session (state : Evaluation) (descriptor : Descriptor) (attached : Bool) (session : Session) :
    { state with session }.noting descriptor attached =
      { state.noting descriptor attached with session } := by
  cases attached with
  | false => rfl
  | true => exact mapInnermost_session state _ session

theorem session_noting (state : Evaluation) (descriptor : Descriptor) (attached : Bool) :
    (state.noting descriptor attached).session = state.session := by
  cases attached with
  | false => rfl
  | true => exact session_mapInnermost state _

section Alike

variable (alike : context.Alike more)
include alike

theorem currentDirectory_alike (state : Evaluation) (session : Session) :
    { state with session }.currentDirectory more = state.currentDirectory context := by
  rw [currentDirectory, currentDirectory, currentFile, currentFile, alike.recipeFile]

theorem resolve?_alike (state : Evaluation) (session : Session) :
    { state with session }.resolve? more = state.resolve? context := by
  funext name
  rw [resolve?, resolve?, alike.environment.lookup?]

theorem serviceDirectory?_alike (state : Evaluation) (session : Session) :
    { state with session }.serviceDirectory? more = state.serviceDirectory? context := by
  rw [serviceDirectory?, serviceDirectory?, alike.recipeFile, alike.files]

theorem namesFragment_alike {state : Evaluation} {relative : String} {path : Path}
    (named : state.NamesFragment context relative path) (session : Session) :
    { state with session }.NamesFragment more relative path := by
  rw [NamesFragment, currentDirectory_alike alike, alike.files]
  exact named

end Alike

/-- A state that is changed without a look at its session. -/
theorem beside_update {files : FileTree} {state : Evaluation} {session : Session}
    (beside : state.session.Beside files own outer inner session) (after : Evaluation)
    (same : after.session = state.session) : Beside files own outer inner after { after with session } :=
  ⟨session, rfl, same ▸ beside⟩

theorem beside_mapInnermost {files : FileTree} (state : Evaluation) {session after : Session}
    (beside : session.Beside files own outer inner after) (change : Scope → Scope) :
    Beside files own outer inner ({ state with session }.mapInnermost change)
      ({ state with session := after }.mapInnermost change) :=
  ⟨after, mapInnermost_session { state with session } change after,
    (session_mapInnermost { state with session } change).symm ▸ beside⟩

theorem inScope_follows {files : FileTree} {body body' : Evaluating Unit} (entity : Entity)
    (follows : Running.Follows (Beside files own outer inner) (Beside files own outer inner) body body') :
    Running.Follows (Beside files own outer inner) (Beside files own outer inner)
      (inScope entity body) (inScope entity body') := by
  rintro state _ finished after ⟨session, rfl, beside⟩ run
  obtain ⟨between, ran, rfl, rfl⟩ := (inScope_eq_ok _ _ _).mp run
  obtain ⟨_, ran', session', rfl, beside'⟩ :=
    follows (beside_update beside { state with scopes := .opening entity :: state.scopes } rfl) ran
  exact ⟨_, (inScope_eq_ok _ _ _).mpr ⟨_, ran', rfl, rfl⟩, session', rfl, beside'⟩

theorem evaluateBlock_follows {files : FileTree} {body body' : Evaluating Unit}
    (follows : Running.Follows (Beside files own outer inner) (Beside files own outer inner) body body')
    (name : String) (line : Nat) (attached : Bool) :
    Running.Follows (Beside files own outer inner) (Beside files own outer inner)
      (evaluateBlock context name line attached body) (evaluateBlock more name line attached body') := by
  rintro state _ finished after ⟨session, rfl, beside⟩ run
  obtain ⟨descriptor, begin', described, placed, started, ran⟩ := (evaluateBlock_eq_ok _ _ _ _ _).mp run
  have noted := beside_update beside (state.noting descriptor attached) (session_noting _ _ _)
  obtain ⟨last, ran', later⟩ := inScope_follows begin' follows noted ran
  refine ⟨last, (evaluateBlock_eq_ok _ _ _ _ _).mpr ⟨descriptor, begin', described, placed, started, ?_⟩, later⟩
  rw [noting_session]
  exact ran'

theorem attach_follows {files : FileTree} (line : Nat) (entity : Entity) :
    Running.Follows (Beside files own outer inner) (Beside files own outer inner)
      (attach context line entity) (attach more line entity) := by
  rintro state _ _ after ⟨session, rfl, beside⟩ run
  rcases (attach_eq_ok _ _).mp run with ⟨outside, rfl⟩ | ⟨parent, around, changed, used, scopes, bound, rfl⟩
  · exact ⟨_, (attach_eq_ok _ _).mpr (Or.inl ⟨outside, rfl⟩), session, rfl, beside⟩
  · exact ⟨_, (attach_eq_ok _ _).mpr (Or.inr ⟨parent, around, changed, used, scopes, bound, rfl⟩), session,
      rfl, beside⟩

theorem bindName_follows {files : FileTree} (line : Nat) (name : String) (values : List Value) :
    Running.Follows (Beside files own outer inner) (Beside files own outer inner)
      (bindName context line name values) (bindName more line name values) := by
  rintro state _ _ after ⟨session, rfl, beside⟩ run
  obtain ⟨scope, around, changed, used, scopes, bound, rfl⟩ := (bindName_eq_ok _ _ _).mp run
  exact ⟨_, (bindName_eq_ok _ _ _).mpr ⟨scope, around, changed, used, scopes, bound, rfl⟩, session, rfl, beside⟩

theorem countDeclaration_follows {files : FileTree} :
    Running.Follows (Beside files own outer inner) (Beside files own outer inner)
      countDeclaration countDeclaration := by
  apply Running.Follows.modify
  rintro state _ ⟨session, rfl, beside⟩
  exact beside_mapInnermost state beside _

theorem theFileEndingIn_isFile {files : FileTree} {directory path : Path} {suffix : String}
    (found : files.theFileEndingIn directory suffix = .ok path) : files.isFile path = true := by
  rw [FileTree.theFileEndingIn] at found
  split at found
  · cases found
  · rename_i only single
    obtain rfl := Except.ok.inj found
    have member : only ∈ files.filesEndingIn directory suffix := single ▸ List.mem_cons_self
    rw [FileTree.filesEndingIn, List.mem_mergeSort] at member
    exact (List.mem_filter.mp member).2
  · cases found

theorem resolve_isFile {files : FileTree} {reference : String} {directory path : Path} {roots : List Path}
    (resolved : BaseReference.resolve files reference directory roots = .ok path) :
    ∃ candidate, files.isFile candidate = true ∧ files.canonical candidate = .ok path := by
  obtain ⟨candidate, _, settled⟩ := List.exists_of_findSome?_eq_some (BaseReference.resolve_eq_ok_iff.mp resolved)
  rcases BaseReference.settle?_eq_ok settled with ⟨_, file, single, found⟩ | ⟨_, file, found⟩ | ⟨_, _, file, found⟩
  · exact ⟨file, theFileEndingIn_isFile single, found⟩
  · exact ⟨candidate, file, found⟩
  · exact ⟨_, file, found⟩

theorem resolve_eq_ok {files : FileTree} {reference : String} {directory path : Path} {roots : List Path}
    (resolved : BaseReference.resolve files reference directory roots = .ok path) :
    ∃ candidate, files.canonical candidate = .ok path := by
  obtain ⟨candidate, _, found⟩ := resolve_isFile resolved
  exact ⟨candidate, found⟩

section Follows

variable (follows : deeper.Follows own other) (twins : Twins own outer inner context more)
include follows twins

theorem splice_follows (line : Nat) {values values' : Evaluating (List Value)}
    (evaluated : Running.Follows (Beside context.job.files own outer inner)
      (Beside context.job.files own outer inner) values values') :
    Running.Follows (Beside context.job.files own outer inner) (Beside context.job.files own outer inner)
      (splice deeper context line values) (splice other more line values') := by
  rintro state _ _ after ⟨session, rfl, beside⟩ run
  obtain ⟨relative, between, path, declarations, parsed, last, ready, named, free, parsing, ran, rfl⟩ :=
    (splice_eq_ok _ _ _).mp run
  obtain ⟨_, ready', session', rfl, beside'⟩ := evaluated ⟨session, rfl, beside⟩ ready
  obtain ⟨free', foreign, entered⟩ := beside'.enter twins.enclosing free
  have reads := FileTree.reads_of_canonical twins.proper named.2
  obtain ⟨parsed', parsing', read⟩ := entered.parseFile twins.alike.files reads foreign parsing
  have inside := beside_update read (between.entering path parsed) rfl
  obtain ⟨_, ran', session'', rfl, later⟩ := follows.declarations (twins.push path) declarations inside ran
  refine ⟨_, (splice_eq_ok _ _ _).mpr ⟨relative, _, path, declarations, parsed', _, ready', ?_, free', parsing',
    ran', rfl⟩, session''.leave, rfl, later.leave⟩
  exact namesFragment_alike twins.alike named session'

theorem loadValue_follows (line : Nat) (relative : String) :
    Running.Follows (Beside context.job.files own outer inner) (Beside context.job.files own outer inner)
      (loadValue deeper context line relative) (loadValue other more line relative) := by
  rintro state _ result after ⟨session, rfl, beside⟩ run
  obtain ⟨path, text, expression, found, last, named, free, reading, parsed, ran, rfl⟩ :=
    (loadValue_eq_ok _ _ _ _).mp run
  obtain ⟨free', _, entered⟩ := beside.enter twins.enclosing free
  obtain ⟨found', reading', read⟩ := entered.read twins.alike.files reading
  have inside := beside_update read (state.entering path found) rfl
  obtain ⟨_, ran', session', rfl, later⟩ := follows.expression (twins.push path) expression inside ran
  exact ⟨_, (loadValue_eq_ok _ _ _ _).mpr ⟨path, text, expression, found', _,
    namesFragment_alike twins.alike named session, free', reading', parsed, ran', rfl⟩, session'.leave, rfl,
    later.leave⟩

theorem extendBase_follows (line : Nat) {values values' : Evaluating (List Value)}
    (evaluated : Running.Follows (Beside context.job.files own outer inner)
      (Beside context.job.files own outer inner) values values') :
    Running.Follows (Beside context.job.files own outer inner) (Beside context.job.files own outer inner)
      (extendBase deeper context line values) (extendBase other more line values') := by
  rintro state _ _ after ⟨session, rfl, beside⟩ run
  obtain ⟨kind, reference, between, path, base, compiled, extending, ready, resolved, nested, service, rfl⟩ :=
    (extendBase_eq_ok _ _ _).mp run
  obtain ⟨_, ready', session', rfl, beside'⟩ := evaluated ⟨session, rfl, beside⟩ ready
  obtain ⟨candidate, found⟩ := resolve_eq_ok resolved
  obtain ⟨compiled', nested', later⟩ := compileNested_follows follows twins
    (.inherited twins.alike.environment.inheritable) (FileTree.reads_of_canonical twins.proper found) beside'
    nested
  refine ⟨_, (extendBase_eq_ok _ _ _).mpr ⟨kind, reference, _, path, base, compiled', extending, ready', ?_,
    nested', service, rfl⟩, ?_⟩
  · rw [currentDirectory_alike twins.alike, twins.alike.files, twins.alike.settings]
    exact resolved
  · exact beside_mapInnermost between later _

theorem loadService_follows (line : Nat) :
    Running.Follows (Beside context.job.files own outer inner) (Beside context.job.files own outer inner)
      (loadService deeper context line) (loadService other more line) := by
  rintro state _ _ after ⟨session, rfl, beside⟩ run
  rcases (loadService_eq_ok _ _).mp run with ⟨nowhere, rfl⟩ |
    ⟨name, directory, path, loaded, compiled, entity, found, searched, nested, kind, named, rfl⟩
  · refine ⟨_, (loadService_eq_ok _ _).mpr (Or.inl ⟨?_, rfl⟩), session, rfl, beside⟩
    rw [serviceDirectory?_alike twins.alike, nowhere]
  · obtain ⟨compiled', nested', later⟩ := compileNested_follows follows twins
      (.external twins.alike.environment.inheritable)
      (FileTree.reads_of_isFile (theFileEndingIn_isFile searched)) beside nested
    refine ⟨_, (loadService_eq_ok _ _).mpr (Or.inr ⟨name, directory, path, loaded, compiled', entity, ?_, ?_,
      nested', kind, named, rfl⟩), ?_⟩
    · rw [serviceDirectory?_alike twins.alike, found]
    · rw [twins.alike.files, searched]
    · exact beside_mapInnermost state later _

theorem assign_follows (line : Nat) (name : String) (values : List Value) :
    Running.Follows (Beside context.job.files own outer inner) (Beside context.job.files own outer inner)
      (assign deeper context line name values) (assign other more line name values) := by
  refine (bindName_follows line name values).bind fun _ => ?_
  split
  · exact loadService_follows follows twins line
  · exact .pure _

end Follows

mutual

/-- Expressions are evaluated in the same way. -/
theorem evaluate_follows (follows : deeper.Follows own other) (twins : Twins own outer inner context more)
    (line : Nat) (expression : Expression) :
    Running.Follows (Beside context.job.files own outer inner) (Beside context.job.files own outer inner)
      (evaluate deeper context line expression) (evaluate other more line expression) := by
  cases expression with
  | null | bool | int | float | text =>
    rw [evaluate, evaluate]
    exact .pure _
  | interpolated parts =>
    rintro state _ result after ⟨session, rfl, beside⟩ run
    obtain ⟨text, written, rfl, rfl⟩ := evaluate_interpolated_eq_ok.mp run
    rw [← resolve?_alike twins.alike after session] at written
    exact ⟨_, evaluate_interpolated_eq_ok.mpr ⟨text, written, rfl, rfl⟩, session, rfl, beside⟩
  | reference name =>
    rintro state _ result after ⟨session, rfl, beside⟩ run
    obtain ⟨found, rfl⟩ := evaluate_reference_eq_ok.mp run
    rw [← resolve?_alike twins.alike after session] at found
    exact ⟨_, evaluate_reference_eq_ok.mpr ⟨found, rfl⟩, session, rfl, beside⟩
  | list items =>
    rw [evaluate, evaluate]
    exact (evaluateItems_follows follows twins line items).bind fun _ => .pure _
  | map entries =>
    rw [evaluate, evaluate]
    exact (evaluateEntries_follows follows twins line [] entries).bind fun _ => .pure _
  | block name blockLine body =>
    rw [evaluate, evaluate]
    exact (evaluateBlock_follows (evaluateStatements_follows follows twins body) name blockLine false).bind
      fun _ => .pure _
  | load path =>
    rw [evaluate, evaluate]
    exact loadValue_follows follows twins line path
termination_by structural expression

theorem evaluateItems_follows (follows : deeper.Follows own other) (twins : Twins own outer inner context more)
    (line : Nat) (items : List Expression) :
    Running.Follows (Beside context.job.files own outer inner) (Beside context.job.files own outer inner)
      (evaluateItems deeper context line items) (evaluateItems other more line items) := by
  cases items with
  | nil =>
    rw [evaluateItems, evaluateItems]
    exact .pure _
  | cons first rest =>
    rw [evaluateItems, evaluateItems]
    exact (evaluate_follows follows twins line first).bind fun _ =>
      (evaluateItems_follows follows twins line rest).bind fun _ => .pure _
termination_by structural items

theorem evaluateEntries_follows (follows : deeper.Follows own other)
    (twins : Twins own outer inner context more) (line : Nat) (mapping : Mapping)
    (entries : List (String × Expression)) :
    Running.Follows (Beside context.job.files own outer inner) (Beside context.job.files own outer inner)
      (evaluateEntries deeper context line mapping entries)
      (evaluateEntries other more line mapping entries) := by
  match entries with
  | [] =>
    rw [evaluateEntries, evaluateEntries]
    exact .pure _
  | (key, item) :: rest =>
    rw [evaluateEntries, evaluateEntries]
    exact (evaluate_follows follows twins line item).bind fun value =>
      evaluateEntries_follows follows twins line (mapping.insert key value) rest
termination_by structural entries

theorem evaluateStatement_follows (follows : deeper.Follows own other)
    (twins : Twins own outer inner context more) (declaration : Declaration) :
    Running.Follows (Beside context.job.files own outer inner) (Beside context.job.files own outer inner)
      (evaluateStatement deeper context declaration) (evaluateStatement other more declaration) := by
  cases declaration with
  | mk name line body =>
    rw [evaluateStatement, evaluateStatement]
    exact (evaluateBody_follows follows twins name line body).bind fun _ => countDeclaration_follows
termination_by structural declaration

theorem evaluateBody_follows (follows : deeper.Follows own other)
    (twins : Twins own outer inner context more) (name : String) (line : Nat) (body : Body) :
    Running.Follows (Beside context.job.files own outer inner) (Beside context.job.files own outer inner)
      (evaluateBody deeper context name line body) (evaluateBody other more name line body) := by
  cases body with
  | block declarations =>
    rw [evaluateBody, evaluateBody]
    exact (evaluateBlock_follows (evaluateStatements_follows follows twins declarations) name line true).bind
      fun entity => attach_follows line entity
  | arguments expressions =>
    rw [evaluateBody, evaluateBody]
    have values := evaluateItems_follows follows twins line expressions
    by_cases extending : name = extendWord
    · simp only [if_pos extending]
      exact extendBase_follows follows twins line values
    · by_cases loading : name = loadWord
      · simp only [if_neg extending, if_pos loading]
        exact splice_follows follows twins line values
      · simp only [if_neg extending, if_neg loading]
        exact values.bind fun values => assign_follows follows twins line name values
  | assignment expression =>
    rw [evaluateBody, evaluateBody]
    exact (evaluate_follows follows twins line expression).bind fun value =>
      assign_follows follows twins line name [value]
termination_by structural body

theorem evaluateStatements_follows (follows : deeper.Follows own other)
    (twins : Twins own outer inner context more) (declarations : List Declaration) :
    Running.Follows (Beside context.job.files own outer inner) (Beside context.job.files own outer inner)
      (evaluateStatements deeper context declarations) (evaluateStatements other more declarations) := by
  cases declarations with
  | nil =>
    rw [evaluateStatements, evaluateStatements]
    exact .pure _
  | cons first rest =>
    rw [evaluateStatements, evaluateStatements]
    exact (evaluateStatement_follows follows twins first).bind fun _ =>
      evaluateStatements_follows follows twins rest
termination_by structural declarations

end

theorem forM_follows {step step' : Declaration → Evaluating Unit} {files : FileTree}
    (each : ∀ declaration, Running.Follows (Beside files own outer inner) (Beside files own outer inner)
      (step declaration) (step' declaration)) (declarations : List Declaration) :
    Running.Follows (Beside files own outer inner) (Beside files own outer inner)
      (declarations.forM step) (declarations.forM step') := by
  induction declarations with
  | nil => exact .pure _
  | cons first rest inductionHypothesis => exact (each first).bind fun _ => inductionHypothesis

section Follows

variable (follows : deeper.Follows own other) (twins : Twins own outer inner context more)
include follows twins

theorem evaluateTopLevel_follows (declaration : Declaration) :
    Running.Follows (Beside context.job.files own outer inner) (Beside context.job.files own outer inner)
      (evaluateTopLevel deeper context declaration) (evaluateTopLevel other more declaration) := by
  obtain ⟨name, line, body⟩ := declaration
  cases body with
  | block declarations =>
    exact (evaluateBlock_follows (evaluateStatements_follows follows twins declarations) name line true).bind
      fun entity => attach_follows line entity
  | arguments expressions =>
    change Running.Follows _ _ (if name = loadWord then _ else if name = extendWord then _ else _)
      (if name = loadWord then _ else if name = extendWord then _ else _)
    split
    · exact splice_follows follows twins line (evaluateItems_follows follows twins line expressions)
    · split
      · exact .of_ne_ok fun _ _ _ => fail_ne_ok _ _ _
      · exact .of_ne_ok fun _ _ _ => fail_ne_ok _ _ _
  | assignment expression =>
    refine (evaluate_follows follows twins line expression).bind fun value => .modify ?_
    rintro state _ ⟨session, rfl, beside⟩
    exact beside_update beside { state with locals := state.locals.insert name value } rfl

theorem evaluateInPlace_follows (declaration : Declaration) :
    Running.Follows (Beside context.job.files own outer inner) (Beside context.job.files own outer inner)
      (evaluateInPlace deeper context declaration) (evaluateInPlace other more declaration) := by
  rintro state _ _ after ⟨session, rfl, beside⟩ run
  rw [evaluateInPlace, Running.get_bind] at run
  simp only [evaluateInPlace, Running.get_bind]
  split at run
  · rename_i outside
    rw [if_pos outside]
    exact evaluateTopLevel_follows follows twins declaration ⟨session, rfl, beside⟩ run
  · rename_i inside
    rw [if_neg inside]
    exact evaluateStatement_follows follows twins declaration ⟨session, rfl, beside⟩ run

theorem evaluateRecipe_follows (declarations : List Declaration) :
    Running.Follows (Session.Beside context.job.files own outer inner)
      (Session.Beside context.job.files own outer inner)
      (evaluateRecipe deeper context declarations) (evaluateRecipe other more declarations) := by
  intro session session' root after beside run
  obtain ⟨state, ran, done, rfl⟩ := (evaluateRecipe_eq_ok _ _ _ _ _ _).mp run
  obtain ⟨_, ran', last, rfl, later⟩ := forM_follows (evaluateTopLevel_follows follows twins) declarations
    ⟨session', rfl, beside⟩ ran
  exact ⟨last, (evaluateRecipe_eq_ok _ _ _ _ _ _).mpr ⟨_, ran', done, rfl⟩, later⟩

end Follows

end Evaluation

/-- Where files lead to files a number of times, they do so where they may lead to more. -/
theorem Deeper.upTo_follows (own : Path) {depth bound : Nat} (within : depth ≤ bound) :
    (upTo depth).Follows own (upTo bound) := by
  induction depth generalizing bound with
  | zero =>
    exact ⟨fun _ _ => .of_ne_ok fun _ _ _ => Running.throw_ne_ok _ _ _ _,
      fun _ _ => .of_ne_ok fun _ _ _ => Running.throw_ne_ok _ _ _ _,
      fun _ _ => .of_ne_ok fun _ _ _ => Running.throw_ne_ok _ _ _ _⟩
  | succ depth inductionHypothesis =>
    obtain ⟨bound, rfl⟩ := Nat.exists_eq_add_of_le' (Nat.one_le_of_lt within)
    have follows := inductionHypothesis (Nat.le_of_succ_le_succ within)
    exact ⟨fun twins declarations =>
        Evaluation.forM_follows (Evaluation.evaluateInPlace_follows follows twins) declarations,
      fun twins expression => Evaluation.evaluate_follows follows twins 1 expression,
      fun twins declarations => Evaluation.evaluateRecipe_follows follows twins declarations⟩

end DeployRecipe
