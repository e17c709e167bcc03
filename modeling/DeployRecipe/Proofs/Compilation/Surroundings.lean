import DeployRecipe.Proofs.Compilation.Law

/-!
What a step looks at around the innermost open block: the kinds of the other blocks, the files that are being
compiled, and the recipes that the files hold. Where these are the same, it does the same.
-/

namespace DeployRecipe

open Running

namespace Session

/-- The recipe at a path: the one that was parsed before, or the one that the file holds. -/
def recipe? (files : FileTree) (session : Session) (path : Path) : Option (List Declaration) :=
  (session.parsed? path).or
    ((files.readText path).toOption.bind fun text => (Recipe.readDeclarations text).toOption)

/-- What a step looks at in a session. -/
structure View where
  recipe? : Path → Option (List Declaration)
  /-- The files that are being compiled, the innermost first. -/
  active : List Path

/-- The view inside of one more file. -/
def View.inside (view : View) (path : Path) : View :=
  { view with active := path :: view.active }

/-- A session in which a step sees the given view. -/
structure Shows (files : FileTree) (view : View) (session : Session) : Prop where
  recipe? : ∀ path, files.Reads path → session.recipe? files path = view.recipe? path
  active : session.active = view.active

/-- The view of a session. -/
def view (files : FileTree) (session : Session) : View :=
  ⟨session.recipe? files, session.active⟩

theorem shows_view (files : FileTree) (session : Session) : session.Shows files (session.view files) :=
  ⟨fun _ _ => rfl, rfl⟩

theorem parsed?_of_same {path other : Path} (same : path.same other = true) (session : Session) :
    session.parsed? other = session.parsed? path := by
  have either (entry : Path × List Declaration) : entry.1.same other = entry.1.same path :=
    Bool.eq_iff_iff.mpr ⟨fun known => Path.same_trans known (Path.same_symm same),
      fun known => Path.same_trans known same⟩
  simp only [parsed?, either]

variable {job : Job} {view : View} {session other after : Session} {path : Path} {declarations : List Declaration}

theorem parseFile_gives_iff :
    Gives (parseFile job path) session declarations ↔ session.recipe? job.files path = some declarations := by
  simp only [Gives, parseFile_eq_ok, recipe?]
  cases session.parsed? path with
  | some known => simp
  | none =>
    cases read : job.files.readText path with
    | error error => simp [Except.toOption]
    | ok text => cases parsed : Recipe.readDeclarations text <;> simp [Except.toOption, parsed]

namespace Shows

variable {files : FileTree}

theorem enter (shows' : Shows files view session) (path : Path) :
    Shows files (view.inside path) { session with active := path :: session.active } :=
  ⟨shows'.recipe?, congrArg (List.cons path) shows'.active⟩

theorem leave (shows' : Shows files (view.inside path) session) : Shows files view session.leave :=
  ⟨shows'.recipe?, congrArg List.tail shows'.active⟩

theorem ofSources (shows' : Shows files view session) (sources : Sources) :
    Shows files view { session with sources } :=
  ⟨shows'.recipe?, shows'.active⟩

theorem isActive (shows' : Shows files view session) (shows'' : Shows files view other) (path : Path) :
    other.isActive path = session.isActive path := by
  rw [Session.isActive, Session.isActive, shows''.active, shows'.active]

/-- To parse a file does not change what is seen. -/
theorem parsed (shows' : Shows job.files view session)
    (run : parseFile job path session = .ok declarations after) : Shows job.files view after := by
  have known := parseFile_gives_iff.mp ⟨after, run⟩
  rcases (parseFile_eq_ok _ _ _ _ _).mp run with ⟨_, rfl⟩ | ⟨new, text, read, _, rfl⟩
  · exact shows'
  · refine ⟨fun place reads' => ?_, shows'.active⟩
    rw [← shows'.recipe? place reads']
    have split := parsed?_cons { session with sources := session.sources.record path text } path declarations place
    simp only [Session.recipe?, split]
    cases same : path.same place with
    | false => rfl
    | true =>
      rw [Session.recipe?, new, Option.none_or, read] at known
      rw [if_pos rfl, Option.some_or, parsed?_of_same same, new, Option.none_or, reads' path text same read, known]

end Shows

/-- Two sessions in which the same is seen. -/
def Both (files : FileTree) (view : View) (session other : Session) : Prop :=
  session.Shows files view ∧ other.Shows files view

theorem parseFile_both (reads : job.files.Reads path) :
    Follows (Both job.files view) (Both job.files view) (parseFile job path) (parseFile job path) := by
  rintro session other declarations after ⟨shows', shows''⟩ run
  have known := parseFile_gives_iff.mp ⟨after, run⟩
  rw [shows'.recipe? path reads, ← shows''.recipe? path reads] at known
  obtain ⟨last, run'⟩ := parseFile_gives_iff.mpr known
  exact ⟨last, run', shows'.parsed run, shows''.parsed run'⟩

theorem read_both (path : Path) :
    Follows (Both job.files view) (Both job.files view) (Session.read job path) (Session.read job path) := by
  rintro session other text after ⟨shows', shows''⟩ run
  obtain ⟨found, rfl⟩ := (read_eq_ok _ _ _ _ _).mp run
  exact ⟨_, (read_eq_ok _ _ _ _ _).mpr ⟨found, rfl⟩, shows'.ofSources _, shows''.ofSources _⟩

end Session

namespace Evaluation

open Session (View Both)

/-- Two states in which the same is seen of the files, with open blocks that are related. -/
def Aside (files : FileTree) (view : View) (blocks : List Scope → List Scope → Prop) (state other : Evaluation) :
    Prop :=
  ∃ session scopes, other = { state with session, scopes } ∧ blocks state.scopes scopes ∧
    Both files view state.session session

/-- The kinds of open blocks. -/
def kinds (scopes : List Scope) : List EntityKind :=
  scopes.map fun scope => scope.entity.kind

theorem kinds_cons {scope other : Scope} (same : other.entity.kind = scope.entity.kind) (outer : List Scope) :
    kinds (other :: outer) = kinds (scope :: outer) :=
  congrArg (· :: kinds outer) same

/-- The same innermost block inside of others. -/
def Beneath (outer around : List Scope) (scopes others : List Scope) : Prop :=
  ∃ scope, scopes = scope :: outer ∧ others = scope :: around

/-- Open blocks that are the same, or of which the innermost one is the same and the others are of the same kinds. -/
inductive Steady : (List Scope → List Scope → Prop) → Prop
  | same : Steady Eq
  | beneath {outer around : List Scope} (same : kinds around = kinds outer) : Steady (Beneath outer around)

theorem Steady.cases {blocks : List Scope → List Scope → Prop} (steady : Steady blocks) {scopes others : List Scope}
    (related : blocks scopes others) :
    scopes = [] ∧ others = [] ∨ ∃ scope outer around, scopes = scope :: outer ∧ others = scope :: around ∧
      kinds around = kinds outer ∧ ∀ changed, blocks (changed :: outer) (changed :: around) := by
  cases steady with
  | same =>
    subst related
    cases scopes with
    | nil => exact .inl ⟨rfl, rfl⟩
    | cons scope outer => exact .inr ⟨scope, outer, outer, rfl, rfl, rfl, fun _ => rfl⟩
  | beneath same =>
    obtain ⟨scope, rfl, rfl⟩ := related
    exact .inr ⟨scope, _, _, rfl, rfl, same, fun changed => ⟨changed, rfl, rfl⟩⟩

theorem Steady.kinds {blocks : List Scope → List Scope → Prop} (steady : Steady blocks) {scopes others : List Scope}
    (related : blocks scopes others) : kinds others = kinds scopes := by
  rcases steady.cases related with ⟨rfl, rfl⟩ | ⟨scope, outer, around, rfl, rfl, same, _⟩
  · rfl
  · exact congrArg (_ :: ·) same

variable {files : FileTree} {view : View} {blocks : List Scope → List Scope → Prop} {context : RecipeContext}
  {deeper other : Deeper}

theorem checkPlace_of_kinds {state : Evaluation} {scopes : List Scope} (same : kinds scopes = kinds state.scopes)
    (session : Session) (descriptor : Descriptor) (attached : Bool) :
    checkPlace { state with session, scopes } descriptor attached = checkPlace state descriptor attached := by
  obtain ⟨_, _, _, blocks, _⟩ := state
  cases blocks with
  | nil =>
    obtain rfl := List.map_eq_nil_iff.mp same
    rfl
  | cons scope outer =>
    obtain ⟨other, around, rfl, kind, _⟩ := List.map_eq_cons_iff.mp same
    dsimp only at kind
    simp only [checkPlace, List.head?_cons, Option.isNone_some, Option.map_some, kind]
    rfl

/-- A block that is evaluated inside of related ones. -/
theorem inScope_aside {body body' : Evaluating Unit} (entity : Entity)
    (inner : ∀ ⦃scopes others⦄, blocks scopes others →
      Follows (Aside files view (Beneath scopes others)) (Aside files view (Beneath scopes others)) body body') :
    Follows (Aside files view blocks) (Aside files view blocks) (inScope entity body) (inScope entity body') := by
  rintro state _ finished after ⟨session, scopes, rfl, related, both⟩ run
  obtain ⟨between, ran, rfl, rfl⟩ := (inScope_eq_ok _ _ _).mp run
  have opened : Aside files view (Beneath state.scopes scopes)
      { state with scopes := .opening entity :: state.scopes }
      { state with session, scopes := .opening entity :: scopes } :=
    ⟨session, _, rfl, ⟨_, rfl, rfl⟩, both⟩
  obtain ⟨_, ran', session', _, rfl, ⟨scope, same, rfl⟩, both'⟩ := inner related opened ran
  refine ⟨_, (inScope_eq_ok _ _ _).mpr ⟨_, ran', ?_, rfl⟩, session', scopes, rfl, ?_, both'⟩
  · rw [same]
    rfl
  · rw [same]
    exact related

/-- A block that stands for a value looks at the kind of the block around it. -/
theorem evaluateValue_aside {body body' : Evaluating Unit} (same : ∀ ⦃scopes others⦄, blocks scopes others →
      kinds others = kinds scopes)
    (inner : ∀ ⦃scopes others⦄, blocks scopes others →
      Follows (Aside files view (Beneath scopes others)) (Aside files view (Beneath scopes others)) body body')
    (name : String) (line : Nat) :
    Follows (Aside files view blocks) (Aside files view blocks) (evaluateBlock context name line false body)
      (evaluateBlock context name line false body') := by
  rintro state _ finished after ⟨session, scopes, rfl, related, both⟩ run
  obtain ⟨descriptor, start, described, placed, started, running⟩ := (evaluateBlock_eq_ok _ _ _ _ _).mp run
  obtain ⟨last, running', later⟩ := inScope_aside start inner ⟨session, scopes, rfl, related, both⟩ running
  refine ⟨last, (evaluateBlock_eq_ok _ _ _ _ _).mpr ⟨descriptor, start, described, ?_, started, running'⟩, later⟩
  rw [checkPlace_of_kinds (same related), placed]

theorem loadValue_aside (inner : ∀ path expression, Follows (Aside files (view.inside path) blocks)
      (Aside files (view.inside path) blocks) (deeper.expression context expression)
      (other.expression context expression)) (fits : context.job.files = files) (line : Nat) (relative : String) :
    Follows (Aside files view blocks) (Aside files view blocks) (loadValue deeper context line relative)
      (loadValue other context line relative) := by
  subst fits
  rintro state _ result after ⟨session, scopes, rfl, related, shows', shows''⟩ run
  obtain ⟨path, text, expression, found, last, named, free, reading, parsed, ran, rfl⟩ :=
    (loadValue_eq_ok _ _ _ _).mp run
  obtain ⟨found', reading', both⟩ := Session.read_both path ⟨shows'.enter path, shows''.enter path⟩ reading
  have inside : Aside context.job.files (view.inside path) blocks (state.entering path found)
      ({ state with session, scopes }.entering path found') := ⟨found', scopes, rfl, related, both⟩
  obtain ⟨_, ran', session', scopes', rfl, related', both'⟩ := inner path expression inside ran
  exact ⟨_, (loadValue_eq_ok _ _ _ _).mpr ⟨path, text, expression, found', _, named,
    (shows'.isActive shows'' path).trans free, reading', parsed, ran', rfl⟩, session'.leave, scopes', rfl, related',
    both'.1.leave, both'.2.leave⟩

/-- The files that a file leads to do the same inside of steady blocks. -/
def surroundings (files : FileTree) : Judgement where
  holds _ one other _ := ∀ view blocks, Steady blocks →
    Follows (Aside files view blocks) (Aside files view blocks) one other
  holdsRecipe one other _ := ∀ view, Follows (Both files view) (Both files view) one other
  fits context := context.job.files = files
  beside := id

section Steps

variable (steady : Steady blocks)
include steady

theorem mapInnermost_aside {state other : Evaluation} (aside : Aside files view blocks state other)
    (change : Scope → Scope) : Aside files view blocks (state.mapInnermost change) (other.mapInnermost change) := by
  obtain ⟨session, scopes, rfl, related, both⟩ := aside
  obtain ⟨_, _, _, open', _⟩ := state
  rcases steady.cases related with ⟨rfl, rfl⟩ | ⟨scope, outer, around, rfl, rfl, _, changes⟩
  · exact ⟨session, [], rfl, related, both⟩
  · exact ⟨session, change scope :: around, rfl, changes _, both⟩

theorem bindName_aside (line : Nat) (name : String) (values : List Value) :
    Follows (Aside files view blocks) (Aside files view blocks) (bindName context line name values)
      (bindName context line name values) := by
  rintro state _ _ after ⟨session, scopes, rfl, related, both⟩ run
  obtain ⟨scope, outer, changed, used, opened, bound, rfl⟩ := (bindName_eq_ok _ _ _).mp run
  rcases steady.cases related with ⟨outside, _⟩ | ⟨_, _, around, opened', rfl, _, changes⟩
  · rw [opened] at outside
    cases outside
  · obtain ⟨rfl, rfl⟩ := List.cons.inj (opened.symm.trans opened')
    exact ⟨_, (bindName_eq_ok _ _ _).mpr ⟨scope, around, changed, used, rfl, bound, rfl⟩, session, _, rfl, changes _,
      both⟩

theorem attach_aside (line : Nat) (entity : Entity) :
    Follows (Aside files view blocks) (Aside files view blocks) (attach context line entity)
      (attach context line entity) := by
  rintro state _ _ after ⟨session, scopes, rfl, related, both⟩ run
  rcases (attach_eq_ok _ _).mp run with ⟨outside, rfl⟩ | ⟨parent, outer, changed, used, opened, bound, rfl⟩
  · rcases steady.cases related with ⟨_, rfl⟩ | ⟨_, _, _, opened', _⟩
    · exact ⟨_, (attach_eq_ok _ _).mpr (.inl ⟨rfl, rfl⟩), session, [], rfl, related, both⟩
    · rw [outside] at opened'
      cases opened'
  · rcases steady.cases related with ⟨outside, _⟩ | ⟨_, _, around, opened', rfl, _, changes⟩
    · rw [opened] at outside
      cases outside
    · obtain ⟨rfl, rfl⟩ := List.cons.inj (opened.symm.trans opened')
      exact ⟨_, (attach_eq_ok _ _).mpr (.inr ⟨parent, around, changed, used, rfl, bound, rfl⟩), session, _, rfl,
        changes _, both⟩

theorem openAttached_aside {state : Evaluation} {scopes : List Scope} (related : blocks state.scopes scopes)
    (session : Session) (descriptor : Descriptor) :
    openAttached { state with session, scopes } descriptor = openAttached state descriptor := by
  obtain ⟨_, _, _, open', _⟩ := state
  rcases steady.cases related with ⟨rfl, rfl⟩ | ⟨scope, outer, around, rfl, rfl, _, _⟩ <;> rfl

theorem evaluateAttached_aside {body body' : Evaluating Unit}
    (inner : ∀ ⦃scopes others⦄, kinds others = kinds scopes →
      Follows (Aside files view (Beneath scopes others)) (Aside files view (Beneath scopes others)) body body')
    (name : String) (line : Nat) :
    Follows (Aside files view blocks) (Aside files view blocks) (evaluateBlock context name line true body)
      (evaluateBlock context name line true body') := by
  rintro state _ finished after aside run
  obtain ⟨descriptor, start, described, placed, started, running⟩ := (evaluateBlock_eq_ok _ _ _ _ _).mp run
  obtain ⟨last, running', later⟩ := inScope_aside start (fun _ _ related => inner (steady.kinds related))
    (mapInnermost_aside steady aside (noteFamily descriptor)) running
  obtain ⟨session, scopes, rfl, related, both⟩ := aside
  refine ⟨last, (evaluateBlock_eq_ok _ _ _ _ _).mpr ⟨descriptor, start, described, ?_, ?_, running'⟩, later⟩
  · rw [checkPlace_of_kinds (steady.kinds related), placed]
  · rw [← started, startOf, startOf, if_pos rfl, if_pos rfl, openAttached_aside steady related]

theorem serviceDirectory?_aside {state : Evaluation} {scopes : List Scope} (related : blocks state.scopes scopes)
    (session : Session) :
    { state with session, scopes }.serviceDirectory? context = state.serviceDirectory? context := by
  obtain ⟨_, _, _, open', _⟩ := state
  rcases steady.cases related with ⟨rfl, rfl⟩ | ⟨service, outer, around, rfl, rfl, same, _⟩
  · rfl
  · match outer with
    | [] =>
      obtain rfl := List.map_eq_nil_iff.mp same
      rfl
    | [application] =>
      obtain ⟨other, _, rfl, kind, none⟩ := List.map_eq_cons_iff.mp same
      obtain rfl := List.map_eq_nil_iff.mp none
      dsimp only at kind
      simp only [serviceDirectory?, kind]
    | _ :: _ :: _ =>
      obtain ⟨_, _, rfl, _, more⟩ := List.map_eq_cons_iff.mp same
      obtain ⟨_, _, rfl, _, _⟩ := List.map_eq_cons_iff.mp more
      rfl

end Steps

section Files

variable {trace : Trace} (proper : files.Proper) (reaches : (surroundings files).Reaches deeper other trace)
  (fits : context.job.files = files)
include proper reaches fits

theorem compileNested_both {path : Path} (reads : files.Reads path) (handover : Handover) :
    Follows (Both files view) (Both files view) (compileNested deeper context.job path handover)
      (compileNested other context.job path handover) := by
  subst fits
  rintro session session' root after ⟨shows', shows''⟩ run
  obtain ⟨free, declarations, parsed, environment, sources, last, parsing, built, recipe, rfl⟩ :=
    (compileNested_eq_ok _ _ _ _ _ _ _).mp run
  obtain ⟨parsed', parsing', read, read'⟩ :=
    Session.parseFile_both reads ⟨shows'.enter path, shows''.enter path⟩ parsing
  have built' : Gives ((handover.inputs context.job path).build context.job.files) parsed'.sources environment :=
    EnvironmentInputs.build_gives.mpr (EnvironmentInputs.build_gives.mp ⟨_, built⟩)
  obtain ⟨sources', built'⟩ := built'
  obtain ⟨last', recipe', later, later'⟩ := reaches.recipe ⟨context.job, path, environment⟩ rfl declarations
    (view.inside path) ⟨read.ofSources sources, read'.ofSources sources'⟩ recipe
  exact ⟨last'.leave, (compileNested_eq_ok _ _ _ _ _ _ _).mpr ⟨(shows'.isActive shows'' path).trans free, declarations,
    parsed', _, sources', last', parsing', built', recipe', rfl⟩, later.leave, later'.leave⟩

section Blocks

variable (steady : Steady blocks)
include steady

theorem loadService_aside (line : Nat) :
    Follows (Aside files view blocks) (Aside files view blocks) (loadService deeper context line)
      (loadService other context line) := by
  rintro state _ _ after ⟨session, scopes, rfl, related, both⟩ run
  have same : { state with session, scopes }.serviceDirectory? context = state.serviceDirectory? context :=
    serviceDirectory?_aside steady related session
  rcases (loadService_eq_ok _ _).mp run with ⟨nowhere, rfl⟩ |
    ⟨name, directory, path, loaded, compiled, entity, found, searched, nested, kind, named, rfl⟩
  · exact ⟨_, (loadService_eq_ok _ _).mpr (.inl ⟨same.trans nowhere, rfl⟩), session, scopes, rfl, related, both⟩
  · have reads := fits ▸ FileTree.reads_of_isFile (theFileEndingIn_isFile searched)
    obtain ⟨compiled', nested', both'⟩ := compileNested_both proper reaches fits reads _ both nested
    have inside : Aside files view blocks { state with session := compiled }
        { state with session := compiled', scopes } := ⟨compiled', scopes, rfl, related, both'⟩
    exact ⟨_, (loadService_eq_ok _ _).mpr (.inr ⟨name, directory, path, loaded, compiled', entity, same.trans found,
      searched, nested', kind, named, rfl⟩), mapInnermost_aside steady inside _⟩

theorem assign_aside (line : Nat) (name : String) (values : List Value) :
    Follows (Aside files view blocks) (Aside files view blocks) (assign deeper context line name values)
      (assign other context line name values) := by
  refine (bindName_aside steady line name values).bind fun _ => ?_
  split
  · exact loadService_aside proper reaches fits steady line
  · exact .pure _

theorem extendBase_aside {values values' : Evaluating (List Value)}
    (evaluated : Follows (Aside files view blocks) (Aside files view blocks) values values') (line : Nat) :
    Follows (Aside files view blocks) (Aside files view blocks) (extendBase deeper context line values)
      (extendBase other context line values') := by
  intro state state' _ after aside run
  obtain ⟨kind, reference, between, path, base, compiled, extending, ready, resolved, nested, service, rfl⟩ :=
    (extendBase_eq_ok _ _ _).mp run
  obtain ⟨_, ready', session, scopes, rfl, related, both⟩ := evaluated aside ready
  obtain ⟨candidate, found⟩ := resolve_eq_ok resolved
  have reads := fits ▸ FileTree.reads_of_canonical (fits.symm ▸ proper) found
  obtain ⟨compiled', nested', both'⟩ := compileNested_both proper reaches fits reads _ both nested
  have inside : Aside files view blocks { between with session := compiled }
      { between with session := compiled', scopes } := ⟨compiled', scopes, rfl, related, both'⟩
  refine ⟨_, (extendBase_eq_ok _ _ _).mpr ⟨kind, reference, _, path, base, compiled', ?_, ready', resolved, nested',
    service, rfl⟩, mapInnermost_aside steady inside _⟩
  obtain ⟨session', scopes', rfl, related', _⟩ := aside
  rw [← extending]
  obtain ⟨_, _, _, open', _⟩ := state
  rcases steady.cases related' with ⟨rfl, rfl⟩ | ⟨scope, outer, around, rfl, rfl, _, _⟩ <;> rfl

end Blocks

end Files

/-- Declarations that are evaluated in place of a load, for any relation of the open blocks. -/
theorem splice_aside {values values' : Evaluating (List Value)} (proper : files.Proper)
    (fits : context.job.files = files)
    (evaluated : Follows (Aside files view blocks) (Aside files view blocks) values values')
    (inner : ∀ path declarations, Follows (Aside files (view.inside path) blocks)
      (Aside files (view.inside path) blocks) (deeper.declarations context declarations)
      (other.declarations context declarations)) (line : Nat) :
    Follows (Aside files view blocks) (Aside files view blocks) (splice deeper context line values)
      (splice other context line values') := by
  subst fits
  intro state state' _ after aside run
  obtain ⟨relative, between, path, declarations, parsed, last, ready, named, free, parsing, ran, rfl⟩ :=
    (splice_eq_ok _ _ _).mp run
  obtain ⟨_, ready', session, scopes, rfl, related, shows', shows''⟩ := evaluated aside ready
  obtain ⟨parsed', parsing', both⟩ := Session.parseFile_both (FileTree.reads_of_canonical proper named.2)
    ⟨shows'.enter path, shows''.enter path⟩ parsing
  have inside : Aside context.job.files (view.inside path) blocks (between.entering path parsed)
      ({ between with session, scopes }.entering path parsed') := ⟨parsed', scopes, rfl, related, both⟩
  obtain ⟨_, ran', session', scopes', rfl, related', both'⟩ := inner path declarations inside ran
  exact ⟨_, (splice_eq_ok _ _ _).mpr ⟨relative, _, path, declarations, parsed', _, ready', named,
    (shows'.isActive shows'' path).trans free, parsing', ran', rfl⟩, session'.leave, scopes', rfl, related',
    both'.1.leave, both'.2.leave⟩

theorem surroundings_closed (proper : files.Proper) : (surroundings files).Closed where
  environment _ := rfl
  fails _ fails _ _ _ _ := .of_ne_ok fails
  still unchanged _ view blocks _ := by
    rintro state _ value after ⟨session, scopes, rfl, related, both⟩ run
    obtain ⟨rfl, again⟩ := unchanged _ _ _ run
    exact ⟨_, again _ rfl, session, scopes, rfl, related, both⟩
  bind head rest view blocks steady := (head view blocks steady).bind fun value => rest value view blocks steady
  branch one other view blocks steady := by
    rintro state _ value after ⟨session, scopes, rfl, related, both⟩ run
    have same : scopes.isEmpty = state.scopes.isEmpty := by
      rcases steady.cases related with ⟨none, none'⟩ | ⟨_, _, _, some, some', _⟩
      · rw [none, none']
      · rw [some, some']
        rfl
    dsimp only at run ⊢
    rw [same]
    split at run
    · rw [if_pos ‹_›]
      exact one view blocks steady ⟨session, scopes, rfl, related, both⟩ run
    · rw [if_neg ‹_›]
      exact other view blocks steady ⟨session, scopes, rfl, related, both⟩ run
  locals name value view blocks _ := by
    refine .modify ?_
    rintro state _ ⟨session, scopes, rfl, related, both⟩
    exact ⟨session, scopes, rfl, related, both⟩
  count view blocks steady := .modify fun _ _ aside => mapInnermost_aside steady aside _
  value name line _ body view blocks steady :=
    evaluateValue_aside (fun _ _ => steady.kinds)
      (fun _ _ related => body view _ (.beneath (steady.kinds related))) name line
  attached name line _ body view blocks steady :=
    (evaluateAttached_aside steady (fun _ _ same => body view _ (.beneath same)) name line).bind fun entity =>
      attach_aside steady line entity
  assign line name values fits reaches view blocks steady := assign_aside proper reaches fits steady line name values
  load line relative fits reaches view blocks steady :=
    loadValue_aside (fun path expression => reaches.expression _ fits expression _ _ steady) fits line relative
  splice line fits reaches values view blocks steady :=
    splice_aside proper fits (values view blocks steady)
      (fun path declarations => reaches.declarations _ fits declarations _ _ steady) line
  extend line fits reaches values view blocks steady :=
    extendBase_aside proper reaches fits steady (values view blocks steady) line
  recipe fits evaluated view := by
    intro session session' root after both run
    obtain ⟨state, ran, done, rfl⟩ := (evaluateRecipe_eq_ok _ _ _ _ _ _).mp run
    have begun : Aside files view Eq (start session) (start session') := ⟨session', [], rfl, rfl, both⟩
    obtain ⟨_, ran', last, scopes, rfl, _, both'⟩ := evaluated view Eq .same begun ran
    exact ⟨last, (evaluateRecipe_eq_ok _ _ _ _ _ _).mpr ⟨_, ran', done, rfl⟩, both'⟩

theorem surroundings_reaches (proper : files.Proper) (depth : Nat) :
    (surroundings files).Reaches (Deeper.upTo depth) (Deeper.upTo depth) (Trace.upTo depth) :=
  (surroundings_closed proper).reaches (Judgement.reaches_zero
    (fun _ _ fails _ _ _ => .of_ne_ok fails) (fun _ _ fails _ => .of_ne_ok fails)) (Nat.le_refl depth)

section Values

variable {depth : Nat} {scopes others : List Scope}

/-- Open blocks that stay as they are. -/
def Exactly (scopes others : List Scope) (one two : List Scope) : Prop :=
  one = scopes ∧ two = others

/-- The value of an expression is the same inside of blocks of the same kinds. -/
def Elsewhere (files : FileTree) (scopes others : List Scope) {α : Type} (step : Evaluating α) : Prop :=
  ∀ view, Follows (Aside files view (Exactly scopes others)) (Aside files view (Exactly scopes others)) step step

theorem Elsewhere.bind {α β : Type} {step : Evaluating α} {next : α → Evaluating β}
    (head : Elsewhere files scopes others step) (rest : ∀ value, Elsewhere files scopes others (next value)) :
    Elsewhere files scopes others (step >>= next) :=
  fun view => (head view).bind fun value => rest value view

theorem Elsewhere.pure {α : Type} (value : α) : Elsewhere files scopes others (pure value) :=
  fun _ => .pure value

/-- A step that only looks at the names that the recipe defines. -/
theorem Elsewhere.still {α : Type} {step : Evaluating α} (unchanged : ∀ before value after,
    step before = .ok value after → after = before ∧
      ∀ state : Evaluation, state.locals = before.locals → step state = .ok value state) :
    Elsewhere files scopes others step := by
  rintro view state _ value after ⟨session, scopes, rfl, related, both⟩ run
  obtain ⟨rfl, again⟩ := unchanged _ _ _ run
  exact ⟨_, again _ rfl, session, scopes, rfl, related, both⟩

mutual

theorem evaluate_elsewhere (proper : files.Proper) (fits : context.job.files = files)
    (same : kinds others = kinds scopes)
    (inner : ∀ expression, Elsewhere files scopes others ((Deeper.upTo depth).expression context expression))
    (line : Nat) (expression : Expression) :
    Elsewhere files scopes others (evaluate (Deeper.upTo depth) context line expression) := by
  cases expression with
  | null | bool | int | float | text =>
    rw [evaluate]
    exact .pure _
  | interpolated parts => exact .still fun _ _ _ run => evaluate_interpolated_still rfl run
  | reference name => exact .still fun _ _ _ run => evaluate_reference_still rfl run
  | list items =>
    rw [evaluate]
    exact (evaluateItems_elsewhere proper fits same inner line items).bind fun _ => .pure _
  | map entries =>
    rw [evaluate]
    exact (evaluateEntries_elsewhere proper fits same inner line [] entries).bind fun _ => .pure _
  | block name blockLine body =>
    rw [evaluate]
    refine Elsewhere.bind (fun view => evaluateValue_aside ?_ ?_ name blockLine) fun _ => .pure _
    · rintro _ _ ⟨rfl, rfl⟩
      exact same
    · rintro _ _ ⟨rfl, rfl⟩
      exact (surroundings_closed proper).evaluateStatements (surroundings_reaches proper depth) fits body view _
        (.beneath same)
  | load path => exact fun view => loadValue_aside (fun _ expression => inner expression _) fits line path
termination_by structural expression

theorem evaluateItems_elsewhere (proper : files.Proper) (fits : context.job.files = files)
    (same : kinds others = kinds scopes)
    (inner : ∀ expression, Elsewhere files scopes others ((Deeper.upTo depth).expression context expression))
    (line : Nat) (items : List Expression) :
    Elsewhere files scopes others (evaluateItems (Deeper.upTo depth) context line items) := by
  cases items with
  | nil =>
    rw [evaluateItems]
    exact .pure _
  | cons first rest =>
    rw [evaluateItems]
    exact (evaluate_elsewhere proper fits same inner line first).bind fun _ =>
      (evaluateItems_elsewhere proper fits same inner line rest).bind fun _ => .pure _
termination_by structural items

theorem evaluateEntries_elsewhere (proper : files.Proper) (fits : context.job.files = files)
    (same : kinds others = kinds scopes)
    (inner : ∀ expression, Elsewhere files scopes others ((Deeper.upTo depth).expression context expression))
    (line : Nat) (mapping : Mapping) (entries : List (String × Expression)) :
    Elsewhere files scopes others (evaluateEntries (Deeper.upTo depth) context line mapping entries) := by
  match entries with
  | [] =>
    rw [evaluateEntries]
    exact .pure _
  | (key, item) :: rest =>
    rw [evaluateEntries]
    exact (evaluate_elsewhere proper fits same inner line item).bind fun _ =>
      evaluateEntries_elsewhere proper fits same inner line _ rest
termination_by structural entries

end

theorem upTo_elsewhere (proper : files.Proper) (fits : context.job.files = files) (same : kinds others = kinds scopes)
    (depth : Nat) (expression : Expression) :
    Elsewhere files scopes others ((Deeper.upTo depth).expression context expression) := by
  induction depth generalizing expression with
  | zero => exact fun _ => .of_ne_ok fun _ _ _ => throw_ne_ok _ _ _ _
  | succ depth inductionHypothesis => exact evaluate_elsewhere proper fits same inductionHypothesis 1 expression

end Values

end Evaluation

end DeployRecipe
