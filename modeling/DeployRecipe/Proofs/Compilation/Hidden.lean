import DeployRecipe.Proofs.Compilation.Growth

/-!
One compilation beside another one that is not inside of a certain file. As long as the first one ends well, it
does not need that file, so the second one does the same: the two differ in the files that they are inside of and
in whether they know that file.
-/

namespace DeployRecipe

open Running

namespace Sources

/-- The record without some files. -/
def without (hides : Path → Bool) (sources : Sources) : Sources :=
  sources.filter fun source => !hides source.path

/-- What hides a path hides it however it is spelled. -/
def Hides (hides : Path → Bool) : Prop :=
  ∀ ⦃path other⦄, path.same other = true → hides path = hides other

variable {hides : Path → Bool} (whole : Hides hides)
include whole

theorem has_without {path : Path} (seen : hides path = false) (sources : Sources) :
    (sources.without hides).has path = sources.has path := by
  rw [Bool.eq_iff_iff, has_iff, has_iff]
  constructor
  · rintro ⟨source, member, same⟩
    exact ⟨source, (List.mem_filter.mp member).1, same⟩
  · rintro ⟨source, member, same⟩
    exact ⟨source, List.mem_filter.mpr ⟨member, by rw [whole same, seen]; rfl⟩, same⟩

theorem without_record (sources : Sources) (path : Path) (text : String) :
    (sources.record path text).without hides =
      if hides path then sources.without hides else (sources.without hides).record path text := by
  cases seen : hides path with
  | true =>
    rw [if_pos rfl, record]
    split
    · rfl
    · simp [without, seen]
  | false =>
    rw [if_neg Bool.false_ne_true, record, record, has_without whole seen]
    split
    · rfl
    · simp [without, seen]

end Sources

/-- Two records that are the same without some files. -/
def Sources.Beside (hides : Path → Bool) (sources other : Sources) : Prop :=
  other.without hides = sources.without hides

section Recording

variable {hides : Path → Bool} {sources other : Sources}

theorem Sources.Beside.record (whole : Sources.Hides hides) (beside : Sources.Beside hides sources other)
    (path : Path) (text : String) : Sources.Beside hides (sources.record path text) (other.record path text) := by
  rw [Sources.Beside, without_record whole, without_record whole, beside]

theorem recordSource_follows (whole : Sources.Hides hides) (path : Path) (text : String) :
    Follows (Sources.Beside hides) (Sources.Beside hides) (recordSource path text) (recordSource path text) :=
  .modify fun _ _ beside => beside.record whole path text

namespace EnvironmentInputs

variable (whole : Sources.Hides hides)
include whole

theorem pushText_follows (environment : Environment) (source : LayerSource) (path : Path) (text : String) :
    Follows (Sources.Beside hides) (Sources.Beside hides) (pushText environment source path text)
      (pushText environment source path text) :=
  (recordSource_follows whole path text).bind fun _ => Follows.bind (.ofExcept _) fun _ => .pure _

theorem pushProperties_follows (inputs : EnvironmentInputs) (files : FileTree) (environment : Environment) :
    Follows (Sources.Beside hides) (Sources.Beside hides) (inputs.pushProperties files environment)
      (inputs.pushProperties files environment) := by
  unfold pushProperties
  split
  · exact .pure _
  · exact Follows.bind (.ofExcept _) fun _ => pushText_follows whole _ _ _ _

theorem pushOverrides_follows (inputs : EnvironmentInputs) (files : FileTree) (environment : Environment) :
    Follows (Sources.Beside hides) (Sources.Beside hides) (inputs.pushOverrides files environment)
      (inputs.pushOverrides files environment) := by
  refine Follows.bind (.ofExcept _) fun found => ?_
  cases found with
  | none => exact .pure _
  | some pair =>
    dsimp only
    split
    · refine Follows.bind (.of_ne_ok fun _ _ _ => throw_ne_ok _ _ _ _) fun _ => pushText_follows whole _ _ _ _
    · exact pushText_follows whole _ _ _ _

/-- The environment of a recipe does not depend on what was recorded. -/
theorem build_follows (inputs : EnvironmentInputs) (files : FileTree) :
    Follows (Sources.Beside hides) (Sources.Beside hides) (inputs.build files) (inputs.build files) :=
  (pushProperties_follows whole inputs files _).bind fun _ =>
    (pushOverrides_follows whole inputs files _).bind fun _ => .pure _

end EnvironmentInputs

end Recording

namespace Session

/-- Two sessions inside of the given files. The other one may know nothing of a file of its own, and it may have
recorded other hidden files. -/
structure Lacks (own : Path) (hides : Path → Bool) (outer inner : List Path) (session other : Session) : Prop where
  active : session.active = outer
  active' : other.active = inner
  parsed : ∀ path, path.same own = false → other.parsed? path = session.parsed? path
  sources : Sources.Beside hides session.sources other.sources

namespace Lacks

variable {job : Job} {own path : Path} {hides : Path → Bool} {outer inner : List Path} {session other after : Session}
  (lacks : Lacks own hides outer inner session other)
include lacks

theorem enter (enclosing : Enclosing own outer inner) (free : session.isActive path = false) :
    other.isActive path = false ∧ path.same own = false ∧
      Lacks own hides (path :: outer) (path :: inner) { session with active := path :: session.active }
        { other with active := path :: other.active } := by
  obtain ⟨rfl, rfl, parsed, sources⟩ := lacks
  obtain ⟨free', foreign⟩ := enclosing.free free
  exact ⟨free', foreign, rfl, rfl, parsed, sources⟩

theorem record (whole : Sources.Hides hides) (text : String) :
    Lacks own hides outer inner { session with sources := session.sources.record path text }
      { other with sources := other.sources.record path text } :=
  ⟨lacks.active, lacks.active', lacks.parsed, lacks.sources.record whole path text⟩

theorem parseFile (whole : Sources.Hides hides) (foreign : path.same own = false) {declarations : List Declaration}
    (run : Session.parseFile job path session = .ok declarations after) :
    ∃ last, Session.parseFile job path other = .ok declarations last ∧ Lacks own hides outer inner after last := by
  rcases (parseFile_eq_ok _ _ _ _ _).mp run with ⟨known, rfl⟩ | ⟨new, text, read, parsed, rfl⟩
  · exact ⟨other, (parseFile_eq_ok _ _ _ _ _).mpr (.inl ⟨(lacks.parsed path foreign).trans known, rfl⟩), lacks⟩
  · refine ⟨_, (parseFile_eq_ok _ _ _ _ _).mpr
      (.inr ⟨(lacks.parsed path foreign).trans new, text, read, parsed, rfl⟩), lacks.active, lacks.active',
      fun path foreign => ?_, lacks.sources.record whole _ text⟩
    simp only [parsed?, List.find?_cons]
    split
    · rfl
    · exact lacks.parsed path foreign

theorem read (whole : Sources.Hides hides) {text : String} (run : Session.read job path session = .ok text after) :
    ∃ last, Session.read job path other = .ok text last ∧ Lacks own hides outer inner after last := by
  obtain ⟨found, rfl⟩ := (read_eq_ok _ _ _ _ _).mp run
  exact ⟨_, (read_eq_ok _ _ _ _ _).mpr ⟨found, rfl⟩, lacks.record whole text⟩

end Lacks

theorem Lacks.leave {own path : Path} {hides : Path → Bool} {outer inner : List Path} {session other : Session}
    (lacks : Lacks own hides (path :: outer) (path :: inner) session other) :
    Lacks own hides outer inner session.leave other.leave := by
  obtain ⟨active, active', parsed, sources⟩ := lacks
  exact ⟨by rw [Session.leave, active]; rfl, by rw [Session.leave, active']; rfl, parsed, sources⟩

end Session

/-- The files that two evaluations are inside of, and the fragments among them. -/
structure Around where
  outer : List Path
  inner : List Path
  fragments : List Path
  fragments' : List Path

namespace Around

/-- Inside of one more fragment. -/
def push (around : Around) (path : Path) : Around :=
  ⟨path :: around.outer, path :: around.inner, path :: around.fragments, path :: around.fragments'⟩

/-- The first evaluation is inside of its own file and of all that the second one is inside of, and both see the
same directory. -/
structure Fits (own : Path) (around : Around) (context : RecipeContext) : Prop where
  enclosing : Enclosing own around.outer around.inner
  directory : ∀ state : Evaluation, { state with fragments := around.fragments' }.currentDirectory context =
    { state with fragments := around.fragments }.currentDirectory context

theorem Fits.push {own : Path} {around : Around} {context : RecipeContext} (fits : around.Fits own context)
    (path : Path) : (around.push path).Fits own context :=
  ⟨fits.enclosing.push path, fun _ => rfl⟩

end Around

namespace Evaluation

/-- Two evaluations that differ in their sessions and in their fragments. -/
def Lacks (own : Path) (hides : Path → Bool) (around : Around) (state other : Evaluation) : Prop :=
  ∃ session, other = { state with session, fragments := around.fragments' } ∧ state.fragments = around.fragments ∧
    state.session.Lacks own hides around.outer around.inner session

/-- A compilation goes on in the same way without the file that it is inside of. -/
def lacking (own : Path) (hides : Path → Bool) : Judgement where
  holds context one other _ := ∀ around : Around, around.Fits own context →
    Follows (Lacks own hides around) (Lacks own hides around) one other
  holdsRecipe one other _ := ∀ outer inner, Enclosing own outer inner →
    Follows (Session.Lacks own hides outer inner) (Session.Lacks own hides outer inner) one other
  fits _ := True
  beside := id

section Steps

variable {own : Path} {hides : Path → Bool} {around : Around} {context : RecipeContext}

/-- A state that is changed without a look at its session and its fragments. -/
theorem lacks_update {state : Evaluation} {session : Session} (fragments : state.fragments = around.fragments)
    (lacks : state.session.Lacks own hides around.outer around.inner session) (after : Evaluation)
    (same : after.session = state.session) (same' : after.fragments = state.fragments) :
    Lacks own hides around after { after with session, fragments := around.fragments' } :=
  ⟨session, rfl, same'.trans fragments, same ▸ lacks⟩

theorem mapInnermost_withFragments (state : Evaluation) (change : Scope → Scope) (session : Session)
    (fragments : List Path) :
    { state with session, fragments }.mapInnermost change = { state.mapInnermost change with session, fragments } := by
  obtain ⟨_, _, _, scopes, _⟩ := state
  cases scopes <;> rfl

theorem lacks_mapInnermost {state : Evaluation} {session : Session} (fragments : state.fragments = around.fragments)
    (lacks : state.session.Lacks own hides around.outer around.inner session) (change : Scope → Scope) :
    Lacks own hides around (state.mapInnermost change)
      ({ state with session, fragments := around.fragments' }.mapInnermost change) :=
  ⟨session, mapInnermost_withFragments state change session around.fragments',
    (fragments_mapInnermost state change).trans fragments, session_mapInnermost state change ▸ lacks⟩

theorem inScope_lacks {body body' : Evaluating Unit} (entity : Entity)
    (follows : Follows (Lacks own hides around) (Lacks own hides around) body body') :
    Follows (Lacks own hides around) (Lacks own hides around) (inScope entity body) (inScope entity body') := by
  rintro state _ finished after ⟨session, rfl, fragments, lacks⟩ run
  obtain ⟨between, ran, rfl, rfl⟩ := (inScope_eq_ok _ _ _).mp run
  have opened := lacks_update fragments lacks { state with scopes := .opening entity :: state.scopes } rfl rfl
  obtain ⟨_, ran', session', rfl, fragments', later⟩ := follows opened ran
  exact ⟨_, (inScope_eq_ok _ _ _).mpr ⟨_, ran', rfl, rfl⟩,
    lacks_update fragments' later { between with scopes := between.scopes.tail } rfl rfl⟩

theorem evaluateBlock_lacks {name : String} {line : Nat} {attached : Bool} {body body' : Evaluating Unit}
    (follows : Follows (Lacks own hides around) (Lacks own hides around) body body') :
    Follows (Lacks own hides around) (Lacks own hides around) (evaluateBlock context name line attached body)
      (evaluateBlock context name line attached body') := by
  rintro state _ finished after ⟨session, rfl, fragments, lacks⟩ run
  obtain ⟨descriptor, start, described, placed, started, running⟩ := (evaluateBlock_eq_ok _ _ _ _ _).mp run
  have noted := lacks_update fragments lacks (state.noting descriptor attached)
    (session_noting state descriptor attached)
    (noting_grows state descriptor attached : Grows context.job.files _ _).fragments
  obtain ⟨last, running', later⟩ := inScope_lacks start follows noted running
  refine ⟨last, (evaluateBlock_eq_ok _ _ _ _ _).mpr ⟨descriptor, start, described, placed, started, ?_⟩, later⟩
  rw [← running']
  congr 1
  cases attached with
  | false => rfl
  | true => exact mapInnermost_withFragments state _ session around.fragments'

theorem attach_lacks (line : Nat) (entity : Entity) :
    Follows (Lacks own hides around) (Lacks own hides around) (attach context line entity)
      (attach context line entity) := by
  rintro state _ _ after ⟨session, rfl, fragments, lacks⟩ run
  rcases (attach_eq_ok _ _).mp run with ⟨outside, rfl⟩ | ⟨parent, outer, changed, used, opened, bound, rfl⟩
  · exact ⟨_, (attach_eq_ok _ _).mpr (.inl ⟨outside, rfl⟩), lacks_update fragments lacks _ rfl rfl⟩
  · exact ⟨_, (attach_eq_ok _ _).mpr (.inr ⟨parent, outer, changed, used, opened, bound, rfl⟩),
      lacks_update fragments lacks _ rfl rfl⟩

theorem bindName_lacks (line : Nat) (name : String) (values : List Value) :
    Follows (Lacks own hides around) (Lacks own hides around) (bindName context line name values)
      (bindName context line name values) := by
  rintro state _ _ after ⟨session, rfl, fragments, lacks⟩ run
  obtain ⟨scope, outer, changed, used, opened, bound, rfl⟩ := (bindName_eq_ok _ _ _).mp run
  exact ⟨_, (bindName_eq_ok _ _ _).mpr ⟨scope, outer, changed, used, opened, bound, rfl⟩,
    lacks_update fragments lacks _ rfl rfl⟩

end Steps

section Files

variable {own : Path} {hides : Path → Bool} {around : Around} {context : RecipeContext} {deeper other : Deeper}
  {trace : Trace} (whole : Sources.Hides hides) (reaches : (lacking own hides).Reaches deeper other trace)
include whole reaches

theorem compileNested_lacks {outer inner : List Path} (enclosing : Enclosing own outer inner) (job : Job) (path : Path)
    (handover : Handover) :
    Follows (Session.Lacks own hides outer inner) (Session.Lacks own hides outer inner)
      (compileNested deeper job path handover) (compileNested other job path handover) := by
  intro session session' root after lacks run
  obtain ⟨free, declarations, parsed, environment, sources, last, parsing, built, recipe, rfl⟩ :=
    (compileNested_eq_ok _ _ _ _ _ _ _).mp run
  obtain ⟨free', foreign, entered⟩ := lacks.enter enclosing free
  obtain ⟨parsed', parsing', read⟩ := entered.parseFile whole foreign parsing
  obtain ⟨sources', built', beside⟩ := EnvironmentInputs.build_follows whole _ _ read.sources built
  have recorded : Session.Lacks own hides (path :: outer) (path :: inner) { parsed with sources }
      { parsed' with sources := sources' } := ⟨read.active, read.active', read.parsed, beside⟩
  obtain ⟨last', recipe', later⟩ := reaches.recipe ⟨job, path, environment⟩ trivial declarations _ _
    (enclosing.push path) recorded recipe
  exact ⟨last'.leave, (compileNested_eq_ok _ _ _ _ _ _ _).mpr ⟨free', declarations, parsed', environment, sources',
    last', parsing', built', recipe', rfl⟩, later.leave⟩

variable (fits : around.Fits own context)
include fits

theorem loadService_lacks (line : Nat) :
    Follows (Lacks own hides around) (Lacks own hides around) (loadService deeper context line)
      (loadService other context line) := by
  rintro state _ _ after ⟨session, rfl, fragments, lacks⟩ run
  rcases (loadService_eq_ok _ _).mp run with ⟨nowhere, rfl⟩ |
    ⟨name, directory, path, loaded, compiled, entity, found, searched, nested, kind, named, rfl⟩
  · exact ⟨_, (loadService_eq_ok _ _).mpr (.inl ⟨nowhere, rfl⟩), session, rfl, fragments, lacks⟩
  · obtain ⟨compiled', nested', later⟩ := compileNested_lacks whole reaches fits.enclosing _ _ _ lacks nested
    refine ⟨_, (loadService_eq_ok _ _).mpr (.inr ⟨name, directory, path, loaded, compiled', entity, found, searched,
      nested', kind, named, rfl⟩), ?_⟩
    have nested : { state with session := compiled }.fragments = around.fragments := fragments
    exact lacks_mapInnermost nested later _

theorem assign_lacks (line : Nat) (name : String) (values : List Value) :
    Follows (Lacks own hides around) (Lacks own hides around) (assign deeper context line name values)
      (assign other context line name values) := by
  refine (bindName_lacks line name values).bind fun _ => ?_
  split
  · exact loadService_lacks whole reaches fits line
  · exact .pure _

omit whole reaches in
theorem currentDirectory_lacks {state : Evaluation} (session : Session) (fragments : state.fragments = around.fragments) :
    { state with session, fragments := around.fragments' }.currentDirectory context =
      state.currentDirectory context := by
  have same : { state with fragments := around.fragments } = state := by rw [← fragments]
  exact (fits.directory state).trans (congrArg (currentDirectory · context) same)

omit whole reaches in
theorem namesFragment_lacks {state : Evaluation} {relative : String} {path : Path} (session : Session)
    (fragments : state.fragments = around.fragments) (named : state.NamesFragment context relative path) :
    { state with session, fragments := around.fragments' }.NamesFragment context relative path := by
  rw [NamesFragment, currentDirectory_lacks fits session fragments]
  exact named

theorem loadValue_lacks (line : Nat) (relative : String) :
    Follows (Lacks own hides around) (Lacks own hides around) (loadValue deeper context line relative)
      (loadValue other context line relative) := by
  rintro state _ result after ⟨session, rfl, fragments, lacks⟩ run
  obtain ⟨path, text, expression, found, last, named, free, reading, parsed, ran, rfl⟩ :=
    (loadValue_eq_ok _ _ _ _).mp run
  obtain ⟨free', _, entered⟩ := lacks.enter fits.enclosing free
  obtain ⟨found', reading', read⟩ := entered.read whole reading
  have inside : Lacks own hides (around.push path) (state.entering path found)
      ({ state with session, fragments := around.fragments' }.entering path found') :=
    ⟨found', rfl, congrArg (List.cons path) fragments, read⟩
  obtain ⟨_, ran', session', rfl, fragments', later⟩ :=
    reaches.expression context trivial expression _ (fits.push path) inside ran
  exact ⟨_, (loadValue_eq_ok _ _ _ _).mpr ⟨path, text, expression, found', _,
    namesFragment_lacks fits session fragments named, free', reading', parsed, ran', rfl⟩, session'.leave, rfl,
    congrArg List.tail fragments', later.leave⟩

section Values

variable {values values' : Evaluating (List Value)}
  (evaluated : Follows (Lacks own hides around) (Lacks own hides around) values values')
include evaluated

theorem splice_lacks (line : Nat) :
    Follows (Lacks own hides around) (Lacks own hides around) (splice deeper context line values)
      (splice other context line values') := by
  intro state state' _ after lacks run
  obtain ⟨relative, between, path, declarations, parsed, last, ready, named, free, parsing, ran, rfl⟩ :=
    (splice_eq_ok _ _ _).mp run
  obtain ⟨_, ready', session, rfl, fragments, lacks⟩ := evaluated lacks ready
  obtain ⟨free', foreign, entered⟩ := lacks.enter fits.enclosing free
  obtain ⟨parsed', parsing', read⟩ := entered.parseFile whole foreign parsing
  have inside : Lacks own hides (around.push path) (between.entering path parsed)
      ({ between with session, fragments := around.fragments' }.entering path parsed') :=
    ⟨parsed', rfl, congrArg (List.cons path) fragments, read⟩
  obtain ⟨_, ran', session', rfl, fragments', later⟩ :=
    reaches.declarations context trivial declarations _ (fits.push path) inside ran
  exact ⟨_, (splice_eq_ok _ _ _).mpr ⟨relative, _, path, declarations, parsed', _, ready',
    namesFragment_lacks fits session fragments named, free', parsing', ran', rfl⟩, session'.leave, rfl,
    congrArg List.tail fragments', later.leave⟩

theorem extendBase_lacks (line : Nat) :
    Follows (Lacks own hides around) (Lacks own hides around) (extendBase deeper context line values)
      (extendBase other context line values') := by
  intro state state' _ after lacks run
  obtain ⟨kind, reference, between, path, base, compiled, extending, ready, resolved, nested, service, rfl⟩ :=
    (extendBase_eq_ok _ _ _).mp run
  obtain ⟨_, ready', session, rfl, fragments, lacks'⟩ := evaluated lacks ready
  obtain ⟨compiled', nested', later⟩ := compileNested_lacks whole reaches fits.enclosing _ _ _ lacks' nested
  obtain ⟨_, rfl, _, _⟩ := lacks
  refine ⟨_, (extendBase_eq_ok _ _ _).mpr ⟨kind, reference, _, path, base, compiled', extending, ready', ?_, nested',
    service, rfl⟩, ?_⟩
  · rw [currentDirectory_lacks fits session fragments]
    exact resolved
  · have nested : { between with session := compiled }.fragments = around.fragments := fragments
    exact lacks_mapInnermost nested later _

end Values

end Files

theorem evaluateRecipe_lacks {own : Path} {hides : Path → Bool} {context : RecipeContext} {deeper other : Deeper}
    {declarations : List Declaration} {outer inner : List Path}
    (evaluated : ∀ around : Around, around.Fits own context → Follows (Lacks own hides around) (Lacks own hides around)
      (declarations.forM (evaluateTopLevel deeper context)) (declarations.forM (evaluateTopLevel other context)))
    (enclosing : Enclosing own outer inner) :
    Follows (Session.Lacks own hides outer inner) (Session.Lacks own hides outer inner)
      (evaluateRecipe deeper context declarations) (evaluateRecipe other context declarations) := by
  intro session session' root after lacks run
  obtain ⟨state, ran, done, rfl⟩ := (evaluateRecipe_eq_ok _ _ _ _ _ _).mp run
  have begun : Lacks own hides ⟨outer, inner, [], []⟩ (start session) (start session') := ⟨session', rfl, rfl, lacks⟩
  obtain ⟨_, ran', last, rfl, _, later⟩ := evaluated ⟨outer, inner, [], []⟩ ⟨enclosing, fun _ => rfl⟩ begun ran
  exact ⟨last, (evaluateRecipe_eq_ok _ _ _ _ _ _).mpr ⟨_, ran', done, rfl⟩, later⟩

theorem lacking_closed (own : Path) {hides : Path → Bool} (whole : Sources.Hides hides) : (lacking own hides).Closed where
  environment _ := rfl
  fails _ none _ _ _ := .of_ne_ok none
  still unchanged _ around _ := by
    rintro state _ value after ⟨session, rfl, fragments, lacks⟩ run
    obtain ⟨rfl, again⟩ := unchanged _ _ _ run
    exact ⟨_, again _ rfl, session, rfl, fragments, lacks⟩
  bind head rest around fits := (head around fits).bind fun value => rest value around fits
  branch one other around fits := by
    rintro state _ value after ⟨session, rfl, fragments, lacks⟩ run
    dsimp only at run ⊢
    split at run
    · rw [if_pos ‹_›]
      exact one around fits ⟨session, rfl, fragments, lacks⟩ run
    · rw [if_neg ‹_›]
      exact other around fits ⟨session, rfl, fragments, lacks⟩ run
  locals name value around _ := by
    refine .modify ?_
    rintro state _ ⟨session, rfl, fragments, lacks⟩
    exact lacks_update fragments lacks { state with locals := state.locals.insert name value } rfl rfl
  count around _ := by
    refine .modify ?_
    rintro state _ ⟨session, rfl, fragments, lacks⟩
    exact lacks_mapInnermost fragments lacks _
  value _ _ _ body around fits := evaluateBlock_lacks (body around fits)
  attached _ line _ body around fits := (evaluateBlock_lacks (body around fits)).bind fun entity => attach_lacks line entity
  assign line name values _ reaches _ fits := assign_lacks whole reaches fits line name values
  load line relative _ reaches _ fits := loadValue_lacks whole reaches fits line relative
  splice line _ reaches values around fits := splice_lacks whole reaches fits (values around fits) line
  extend line _ reaches values around fits := extendBase_lacks whole reaches fits (values around fits) line
  recipe _ evaluated _ _ enclosing := evaluateRecipe_lacks evaluated enclosing

theorem lacking_reaches (own : Path) {hides : Path → Bool} (whole : Sources.Hides hides) {depth more : Nat}
    (enough : depth ≤ more) :
    (lacking own hides).Reaches (Deeper.upTo depth) (Deeper.upTo more) (Trace.upTo depth) :=
  (lacking_closed own whole).reaches (Judgement.reaches_zero
    (fun _ _ fails _ _ => .of_ne_ok fails) (fun _ _ fails _ _ _ => .of_ne_ok fails)) enough

end Evaluation

end DeployRecipe
