import DeployRecipe.Proofs.Compilation.Growth
import DeployRecipe.Proofs.MatchingTrees

/-!
Two compilations of one recipe in two trees. As long as what is asked for does not lead up, they go on alike while
they read the same files: what one of them finds in its tree and reads, the other one finds too, and a file that
neither of them reads has no say.
-/

namespace DeployRecipe

/-- The base or the service that is asked for does not lead up. -/
def Event.Straight : Event → Prop
  | .extends reference _ => ".." ∉ (Path.mk reference).pieces
  | .loads _ => True
  | .names name => ".." ∉ (Path.mk name).pieces
  | .assigns _ _ => True

instance : DecidablePred Event.Straight
  | .extends reference _ => inferInstanceAs (Decidable (".." ∉ (Path.mk reference).pieces))
  | .loads _ => .isTrue trivial
  | .names name => inferInstanceAs (Decidable (".." ∉ (Path.mk name).pieces))
  | .assigns _ _ => .isTrue trivial

/-- The context in another tree. -/
def RecipeContext.inTree (context : RecipeContext) (files : FileTree) : RecipeContext :=
  { context with job := { context.job with files } }

/-- The recipe is compiled in the tree, it stands at a plain path, and no search leads up from a root. -/
structure RecipeContext.Upright (files : FileTree) (context : RecipeContext) : Prop where
  files : context.job.files = files
  plain : context.recipeFile.IsPlain
  roots : ∀ root ∈ context.job.settings.searchRoots, ".." ∉ root.pieces

theorem BaseReference.candidates_straight {reference directory : Path} {roots : List Path}
    (straight : ".." ∉ reference.pieces) (here : ".." ∉ directory.pieces)
    (below : ∀ root ∈ roots, ".." ∉ root.pieces) :
    ∀ candidate ∈ candidates reference directory roots, ".." ∉ candidate.pieces := by
  rw [candidates]
  split
  · exact List.forall_mem_singleton.mpr straight
  · intro candidate member
    obtain ⟨root, present, rfl⟩ := List.mem_map.mp member
    rcases List.mem_cons.mp present with rfl | present
    · exact Path.join_straight here straight
    · exact Path.join_straight (below root present) straight

namespace Evaluation

variable {left right : FileTree} {first second : Sources}

/-- The fragments stand at plain paths, and the recipes that were parsed are recorded. -/
structure Ready (state : Evaluation) : Prop where
  plain : ∀ path ∈ state.fragments, path.IsPlain
  recorded : state.session.Recorded

theorem Ready.entering {files : FileTree} {before : Evaluation} (ready : before.Ready) {path : Path}
    (plain : path.IsPlain) {session : Session}
    (entered : Session.Grows files { before.session with active := path :: before.session.active } session) :
    (before.entering path session).Ready :=
  ⟨List.forall_mem_cons.mpr ⟨plain, ready.plain⟩, entered.recorded ready.recorded⟩

theorem Ready.currentDirectory {files : FileTree} {state : Evaluation} (ready : state.Ready) {context : RecipeContext}
    (fits : context.Upright files) : ".." ∉ (state.currentDirectory context).pieces := by
  have plain : (state.currentFile context).IsPlain := by
    rw [currentFile]
    cases fragments : state.fragments with
    | nil => exact fits.plain
    | cons path outer => exact ready.plain path (fragments ▸ List.mem_cons_self)
  rw [Evaluation.currentDirectory]
  cases around : (state.currentFile context).parent? with
  | none => decide
  | some directory => exact (plain.parent around).straight

theorem Ready.grows {files : FileTree} {before after : Evaluation} (ready : before.Ready)
    (grows : Grows files before after) : after.Ready :=
  ⟨grows.fragments ▸ ready.plain, grows.session.recorded ready.recorded⟩

/-- Two actions in two trees that end alike if what they read ends up in the two records. -/
structure Matches {α : Type} (left right : FileTree) (first second : Sources) (one other : Evaluating α)
    (events : Evaluation → List Event) : Prop where
  grows : Growing left one
  grows' : Growing right other
  alike : ∀ {before after after' : Evaluation} {value value' : α}, before.Ready →
    (∀ event ∈ events before, event.Straight) → one before = .ok value after → other before = .ok value' after' →
    after.session.sources ⊆ first → after'.session.sources ⊆ second → value' = value ∧ after' = after

/-- Two compilations in two trees that end alike if what they read ends up in the two records. -/
structure MatchesRecipe (left right : FileTree) (first second : Sources) (one other : Compiling Entity)
    (events : Session → List Event) : Prop where
  grows : ∀ before value after, one before = .ok value after → Session.Grows left before after
  grows' : ∀ before value after, other before = .ok value after → Session.Grows right before after
  alike : ∀ {before after after' : Session} {value value' : Entity}, before.Recorded →
    (∀ event ∈ events before, event.Straight) → one before = .ok value after → other before = .ok value' after' →
    after.sources ⊆ first → after'.sources ⊆ second → value' = value ∧ after' = after

/-- The evaluations in two trees go on alike. -/
def agreement (left right : FileTree) (first second : Sources) : Judgement where
  holds _ one other events := Matches left right first second one other events
  holdsRecipe one other events := MatchesRecipe left right first second one other events
  fits context := context.Upright left
  beside context := context.inTree right

theorem Matches.bind {α β : Type} {one other : Evaluating α} {next more : α → Evaluating β}
    {here : Evaluation → List Event} {later : α → Evaluation → List Event}
    (head : Matches left right first second one other here)
    (rest : ∀ value, Matches left right first second (next value) (more value) (later value)) :
    Matches left right first second (one >>= next) (other >>= more) (Trace.andThen one here later) where
  grows := head.grows.bind fun value => (rest value).grows
  grows' := head.grows'.bind fun value => (rest value).grows'
  alike ready straight run run' inside inside' := by
    obtain ⟨given, between, began, ended⟩ := (Running.bind_eq_ok _ _ _ _ _).mp run
    obtain ⟨given', between', began', ended'⟩ := (Running.bind_eq_ok _ _ _ _ _).mp run'
    rw [Trace.andThen_of_ok began, List.forall_mem_append] at straight
    have keeps := ((rest given).grows _ _ _ ended).session.sources.keeps
    have keeps' := ((rest given').grows' _ _ _ ended').session.sources.keeps
    obtain ⟨rfl, rfl⟩ := head.alike ready straight.1 began began' (List.Subset.trans keeps inside)
      (List.Subset.trans keeps' inside')
    exact (rest given').alike (ready.grows (head.grows _ _ _ began)) straight.2 ended ended' inside inside'

section Steps

variable {context more : RecipeContext} {before after after' : Evaluation}

theorem bindName_of_ok {line : Nat} {name : String} {values : List Value}
    (run : bindName context line name values before = .ok () after) :
    bindName more line name values before = .ok () after :=
  (bindName_eq_ok _ _ _).mpr ((bindName_eq_ok _ _ _).mp run)

theorem attach_of_ok {line : Nat} {entity : Entity} (run : attach context line entity before = .ok () after) :
    attach more line entity before = .ok () after :=
  (attach_eq_ok _ _).mpr ((attach_eq_ok _ _).mp run)

theorem attach_matches {line : Nat} {entity : Entity} :
    Matches left right first second (attach context line entity) (attach more line entity) fun _ => [] where
  grows := attach_grows
  grows' := attach_grows
  alike _ _ run run' _ _ := by
    obtain ⟨_, rfl⟩ := EStateM.Result.ok.inj ((attach_of_ok run).symm.trans run')
    exact ⟨rfl, rfl⟩

theorem evaluateBlock_matches {line : Nat} {name : String} {attached : Bool} {body body' : Evaluating Unit}
    {here : Evaluation → List Event} (inner : Matches left right first second body body' here) :
    Matches left right first second (evaluateBlock context name line attached body)
      (evaluateBlock more name line attached body') (Trace.ofBlock context line name attached here) where
  grows := evaluateBlock_grows inner.grows
  grows' := evaluateBlock_grows inner.grows'
  alike {before} _ _ _ _ ready straight run run' inside inside' := by
    obtain ⟨descriptor, start, between, described, _, started, ran, rfl, rfl, events⟩ :=
      Trace.ofBlock_of_run here run
    obtain ⟨descriptor', start', described', _, started', running⟩ := (evaluateBlock_eq_ok _ _ _ _ _).mp run'
    obtain ⟨between', ran', rfl, rfl⟩ := (inScope_eq_ok _ _ _).mp running
    obtain rfl := Option.some.inj (described'.symm.trans described)
    obtain rfl := Except.ok.inj (started'.symm.trans started)
    rw [events] at straight
    have ready' : Ready { before.noting descriptor' attached with
        scopes := .opening start' :: (before.noting descriptor' attached).scopes } :=
      ready.grows ((noting_grows before descriptor' attached : Grows left _ _).trans (.of_eq rfl rfl))
    obtain ⟨_, rfl⟩ := inner.alike ready' straight ran ran' inside inside'
    exact ⟨rfl, rfl⟩

end Steps

theorem serviceDirectory?_of_isDirectory {context more : RecipeContext} {state : Evaluation} {name : String}
    {directory : Path} (same : more.recipeFile = context.recipeFile)
    (found : state.serviceDirectory? context = some (name, directory))
    (there : more.job.files.isDirectory directory = true) :
    state.serviceDirectory? more = some (name, directory) := by
  rw [serviceDirectory?] at found ⊢
  split at found
  · split at found
    · rename_i kinds
      obtain ⟨_, named, found⟩ := Option.bind_eq_some_iff.mp found
      obtain ⟨parent, around, found⟩ := Option.bind_eq_some_iff.mp found
      obtain ⟨_, pair⟩ := Option.ite_none_right_eq_some.mp found
      obtain ⟨rfl, rfl⟩ := Prod.mk.inj (Option.some.inj pair)
      simp [kinds, named, same, around, there]
    · cases found
  · cases found

theorem straight_of_openName? {trace : Trace} {context : RecipeContext} {line : Nat} {state : Evaluation} {name : String}
    (named : Trace.openName? state = some name)
    (straight : ∀ event ∈ Trace.ofService trace context line state, event.Straight) :
    ".." ∉ (Path.mk name).pieces :=
  straight (.names name) (by simp [Trace.ofService, named])

section Files

variable {context : RecipeContext} {depth more : Nat} (matching : FileTree.Matching left right first second)
include matching

section Session

variable {job : Job} {path : Path} {session : Session}

theorem parseFile_alike {declarations declarations' : List Declaration} {parsed parsed' : Session}
    (files : job.files = left) (plain : path.IsPlain) (recorded : session.Recorded)
    (run : Session.parseFile job path session = .ok declarations parsed)
    (run' : Session.parseFile { job with files := right } path session = .ok declarations' parsed')
    (inside : parsed.sources ⊆ first) : declarations' = declarations ∧ parsed' = parsed := by
  subst files
  have there := Sources.has_of_subset inside (Session.parseFile_records recorded run)
  rcases (Session.parseFile_eq_ok _ _ _ _ _).mp run with ⟨known, rfl⟩ | ⟨new, text, read, declared, rfl⟩
  · rcases (Session.parseFile_eq_ok _ _ _ _ _).mp run' with ⟨known', rfl⟩ | ⟨new', _⟩
    · exact ⟨Option.some.inj (known'.symm.trans known), rfl⟩
    · exact absurd (known.symm.trans new') (by simp)
  · rcases (Session.parseFile_eq_ok _ _ _ _ _).mp run' with ⟨known', _⟩ | ⟨_, text', read', declared', rfl⟩
    · exact absurd (known'.symm.trans new) (by simp)
    · obtain rfl := matching.text_eq plain there read read'
      exact ⟨Except.ok.inj (declared'.symm.trans declared), by rw [Except.ok.inj (declared'.symm.trans declared)]⟩

theorem openNested_alike {handover : Handover} {nested nested' : RecipeContext}
    {declarations declarations' : List Declaration} {opened opened' : Session} (files : job.files = left)
    (plain : path.IsPlain) (recorded : session.Recorded)
    (run : openNested job path handover session = .ok (nested, declarations) opened)
    (run' : openNested { job with files := right } path handover session = .ok (nested', declarations') opened')
    (inside : opened.sources ⊆ first) (inside' : opened'.sources ⊆ second) :
    nested' = nested.inTree right ∧ declarations' = declarations ∧ opened' = opened := by
  simp only [openNested, Running.bind_eq_ok, Session.enter_eq_ok, Session.recording_eq_ok, Running.pure_eq_ok] at run run'
  obtain ⟨_, _, ⟨_, rfl⟩, _, _, parsing, environment, _, ⟨sources, built, rfl⟩, same, rfl⟩ := run
  obtain ⟨_, _, ⟨_, rfl⟩, _, _, parsing', environment', _, ⟨sources', built', rfl⟩, same', rfl⟩ := run'
  obtain ⟨rfl, rfl⟩ := Prod.mk.inj same
  obtain ⟨rfl, rfl⟩ := Prod.mk.inj same'
  have entered : Session.Recorded { session with active := path :: session.active } := recorded
  have keeps := (EnvironmentInputs.build_grows built).keeps
  obtain ⟨rfl, rfl⟩ := parseFile_alike matching files plain entered parsing parsing' (List.Subset.trans keeps inside)
  have inputs : handover.inputs { job with files := right } path = handover.inputs job path := by cases handover <;> rfl
  have plain' : (handover.inputs job path).recipeFile.IsPlain := by cases handover <;> exact plain
  have options : (handover.inputs job path).options = [] := by cases handover <;> rfl
  rw [inputs] at built'
  subst files
  have equal := EnvironmentInputs.build_eq matching plain' built inside built' inside' (by simp [options])
  rw [equal, built] at built'
  obtain ⟨rfl, rfl⟩ := EStateM.Result.ok.inj built'
  exact ⟨rfl, rfl, rfl⟩

end Session

/-- A service that a directory holds and that was read is found in both trees. -/
theorem service_alike (fits : context.Upright left) {state : Evaluation} {name : String} {directory path : Path}
    (straight : ".." ∉ (Path.mk name).pieces) (found : state.serviceDirectory? context = some (name, directory))
    (searched : context.job.files.theFileEndingIn directory RecipeKind.service.suffix = .ok path)
    (recorded : first.has path = true) :
    path.IsPlain ∧ state.serviceDirectory? (context.inTree right) = some (name, directory) ∧
      ∀ other, right.theFileEndingIn directory RecipeKind.service.suffix = .ok other → other = path := by
  obtain ⟨_, parent, around, rfl, there⟩ := Trace.openName?_of_serviceDirectory? found
  rw [fits.files] at searched there
  have directory := (fits.plain.parent around).join straight
  have plain := FileTree.theFileEndingIn_plain matching.named directory (by decide) searched
  obtain ⟨place, _, located, _⟩ := FileTree.isFile_eq_true (theFileEndingIn_isFile searched)
  obtain ⟨_, shared, _⟩ := matching.shares plain recorded
  rw [← plain.place located] at shared
  obtain ⟨there', only⟩ :=
    matching.theFileEndingIn (by decide) directory.straight there searched located shared
  have file : (context.inTree right).recipeFile = context.recipeFile := rfl
  exact ⟨plain, serviceDirectory?_of_isDirectory file found there', only⟩

variable (fits : context.Upright left)
  (reaches : (agreement left right first second).Reaches (Deeper.upTo depth) (Deeper.upTo more) (Trace.upTo depth))
include fits reaches

theorem compileNested_alike {path : Path} {handover : Handover} {session later later' : Session}
    {entity entity' : Entity} (plain : path.IsPlain) (recorded : session.Recorded)
    (straight : ∀ event ∈ Trace.ofNested (Trace.upTo depth) context path handover session, event.Straight)
    (run : compileNested (Deeper.upTo depth) context.job path handover session = .ok entity later)
    (run' : compileNested (Deeper.upTo more) (context.inTree right).job path handover session = .ok entity' later')
    (inside : later.sources ⊆ first) (inside' : later'.sources ⊆ second) : entity' = entity ∧ later' = later := by
  obtain ⟨nested, declarations, opened, inner, ready, ran, rfl, events⟩ := Trace.ofNested_of_run run
  obtain ⟨nested', declarations', opened', inner', ready', ran', rfl⟩ := compileNested_iff_openNested.mp run'
  obtain ⟨job, file, _⟩ := openNested_eq_ok ready
  obtain ⟨job', _, _⟩ := openNested_eq_ok ready'
  have upright : nested.Upright left := ⟨job ▸ fits.files, file ▸ plain, job ▸ fits.roots⟩
  have deep := reaches.recipe nested upright declarations
  have keeps := (deep.grows _ _ _ ran).sources.keeps
  have keeps' := ((growth_reaches right more).recipe nested' (congrArg Job.files job') _ _ _ _ ran').sources.keeps
  obtain ⟨rfl, rfl, rfl⟩ := openNested_alike matching fits.files plain recorded ready ready'
    (List.Subset.trans keeps inside) (List.Subset.trans keeps' inside')
  rw [events] at straight
  obtain ⟨rfl, rfl⟩ := deep.alike ((openNested_grows ready).2.2.1.recorded recorded) straight ran ran' inside inside'
  exact ⟨rfl, rfl⟩

theorem loadService_alike {line : Nat} {before after after' : Evaluation} (ready : before.Ready)
    (straight : ∀ event ∈ Trace.ofService (Trace.upTo depth) context line before, event.Straight)
    (run : loadService (Deeper.upTo depth) context line before = .ok () after)
    (run' : loadService (Deeper.upTo more) (context.inTree right) line before = .ok () after')
    (inside : after.session.sources ⊆ first) (inside' : after'.session.sources ⊆ second) : after' = after := by
  have fits' : (context.inTree right).Upright right := ⟨rfl, fits.plain, fits.roots⟩
  have back : (context.inTree right).inTree left = context := by rw [← fits.files]; rfl
  rcases (loadService_eq_ok _ _).mp run with ⟨none, rfl⟩ |
    ⟨name, directory, path, loaded, session, entity, found, searched, compiled, _, named, rfl⟩
  · rcases (loadService_eq_ok _ _).mp run' with ⟨_, rfl⟩ |
      ⟨name', directory', path', loaded', session', entity', found', searched', compiled', _, named', rfl⟩
    · rfl
    · have upright := straight_of_openName? (Trace.openName?_of_serviceDirectory? found').1 straight
      rw [session_mapInnermost] at inside'
      have recorded := Sources.has_of_subset inside'
        ((compileNested_grows (growth_reaches right more) compiled').2 ready.recorded)
      have found := (service_alike matching.symm fits' upright found' searched' recorded).2.1
      rw [back, none] at found
      cases found
  · have upright := straight_of_openName? (Trace.openName?_of_serviceDirectory? found).1 straight
    rw [session_mapInnermost] at inside
    have growth := growth_reaches left depth
    rw [← fits.files] at growth
    have recorded := Sources.has_of_subset inside ((compileNested_grows growth compiled).2 ready.recorded)
    obtain ⟨plain, there, only⟩ := service_alike matching fits upright found searched recorded
    rcases (loadService_eq_ok _ _).mp run' with ⟨none, _⟩ |
      ⟨name', directory', path', loaded', session', entity', found', searched', compiled', _, named', rfl⟩
    · rw [there] at none
      cases none
    · obtain ⟨rfl, rfl⟩ := Prod.mk.inj (Option.some.inj (found'.symm.trans there))
      obtain rfl := only path' searched'
      rw [session_mapInnermost] at inside'
      rw [Trace.ofService_of_serviceDirectory? found searched, List.forall_mem_cons] at straight
      obtain ⟨rfl, rfl⟩ :=
        compileNested_alike matching fits reaches plain ready.recorded straight.2 compiled compiled' inside inside'
      obtain rfl := Except.ok.inj (named'.symm.trans named)
      rfl

theorem assign_matches {line : Nat} {name : String} {values : List Value} :
    Matches left right first second (assign (Deeper.upTo depth) context line name values)
      (assign (Deeper.upTo more) (context.inTree right) line name values)
      (Trace.ofAssign (Trace.upTo depth) context line name values) where
  grows := fits.files ▸ assign_grows (growth_reaches context.job.files depth)
  grows' := assign_grows (growth_reaches right more)
  alike ready straight run run' inside inside' := by
    obtain ⟨_, between, binding, loading⟩ := (Running.bind_eq_ok _ _ _ _ _).mp run
    obtain ⟨_, between', binding', loading'⟩ := (Running.bind_eq_ok _ _ _ _ _).mp run'
    obtain ⟨_, rfl⟩ := EStateM.Result.ok.inj ((bindName_of_ok binding).symm.trans binding')
    obtain ⟨_, _, _, _, _, _, ended⟩ := (bindName_eq_ok _ _ _).mp binding
    rw [Trace.ofAssign_of_bindName binding (congrArg Evaluation.scopes ended), List.forall_mem_cons] at straight
    refine ⟨rfl, ?_⟩
    by_cases naming : name = nameProperty
    · rw [if_pos naming] at loading loading' straight
      exact loadService_alike matching fits reaches (ready.grows (bindName_grows _ _ _ binding : Grows left _ _))
        straight.2 loading loading' inside inside'
    · rw [if_neg naming] at loading loading'
      obtain ⟨_, rfl⟩ := (Running.pure_eq_ok _ _ _ _).mp loading
      obtain ⟨_, rfl⟩ := (Running.pure_eq_ok _ _ _ _).mp loading'
      rfl

omit reaches in
theorem fragment_alike {state : Evaluation} {relative : String} {path path' : Path}
    (named : state.NamesFragment context relative path)
    (named' : state.NamesFragment (context.inTree right) relative path') : path' = path ∧ path.IsPlain := by
  obtain ⟨file, found⟩ := named
  rw [fits.files] at file found
  exact ⟨FileTree.canonical_unique matching.here found named'.2,
    (FileTree.canonical_of_isFile matching.proper file found).1⟩

theorem loadValue_matches {line : Nat} {relative : String} :
    Matches left right first second (loadValue (Deeper.upTo depth) context line relative)
      (loadValue (Deeper.upTo more) (context.inTree right) line relative)
      (Trace.ofValue (Trace.upTo depth) context line relative) where
  grows := fits.files ▸ loadValue_grows (growth_reaches context.job.files depth)
  grows' := loadValue_grows (growth_reaches right more)
  alike ready straight run run' inside inside' := by
    obtain ⟨path, text, expression, session, inner, named, free, reading, parsed, ran, rfl⟩ :=
      (loadValue_eq_ok _ _ _ _).mp run
    obtain ⟨path', text', expression', session', inner', named', _, reading', parsed', ran', rfl⟩ :=
      (loadValue_eq_ok _ _ _ _).mp run'
    obtain ⟨rfl, plain⟩ := fragment_alike matching fits named named'
    rw [Trace.ofValue_of_read named free reading parsed, List.forall_mem_cons] at straight
    have entered := Session.read_grows reading
    have deep := reaches.expression context fits expression
    obtain ⟨read, rfl⟩ := (Session.read_eq_ok _ _ _ _ _).mp reading
    obtain ⟨read', rfl⟩ := (Session.read_eq_ok _ _ _ _ _).mp reading'
    have recorded := Sources.has_of_subset (List.Subset.trans (deep.grows _ _ _ ran).session.sources.keeps inside)
      (Sources.has_record.mpr (Or.inr (Path.same_self path')))
    rw [fits.files] at read
    obtain rfl := matching.text_eq plain recorded read read'
    obtain rfl := Except.ok.inj (parsed'.symm.trans parsed)
    obtain ⟨rfl, rfl⟩ := deep.alike (ready.entering plain entered) straight.2 ran ran' inside inside'
    exact ⟨rfl, rfl⟩

variable {values values' : Evaluating (List Value)} {here : Evaluation → List Event}
  (evaluated : Matches left right first second values values' here)
include evaluated

theorem splice_matches {line : Nat} :
    Matches left right first second (splice (Deeper.upTo depth) context line values)
      (splice (Deeper.upTo more) (context.inTree right) line values')
      (Trace.andThen values here (Trace.ofFragment (Trace.upTo depth) context line)) where
  grows := fits.files ▸ splice_grows (growth_reaches context.job.files depth) (fits.files ▸ evaluated.grows)
  grows' := splice_grows (growth_reaches right more) evaluated.grows'
  alike ready straight run run' inside inside' := by
    obtain ⟨relative, between, path, declarations, session, inner, began, named, free, parsed, ran, rfl⟩ :=
      (splice_eq_ok _ _ _).mp run
    obtain ⟨relative', between', path', declarations', session', inner', began', named', _, parsed', ran', rfl⟩ :=
      (splice_eq_ok _ _ _).mp run'
    rw [Trace.andThen_of_ok began, Trace.ofFragment_of_parseFile named free parsed, List.forall_mem_append,
      List.forall_mem_cons] at straight
    have growth := (growth_reaches right more).declarations (context.inTree right) rfl
    have entered := Session.parseFile_grows parsed
    have entered' := Session.parseFile_grows parsed'
    have deep := reaches.declarations context fits declarations
    have later := List.Subset.trans (deep.grows _ _ _ ran).session.sources.keeps inside
    have later' := List.Subset.trans (growth declarations' _ _ _ ran').session.sources.keeps inside'
    obtain ⟨same, rfl⟩ := evaluated.alike ready straight.1 began began' (List.Subset.trans entered.sources.keeps later)
      (List.Subset.trans entered'.sources.keeps later')
    obtain rfl : relative' = relative := by simpa using same
    obtain ⟨rfl, plain⟩ := fragment_alike matching fits named named'
    have ready' := ready.grows (evaluated.grows _ _ _ began)
    have recorded : Session.Recorded { between'.session with active := path' :: between'.session.active } :=
      ready'.recorded
    obtain ⟨rfl, rfl⟩ := parseFile_alike matching fits.files plain recorded parsed parsed' later
    obtain ⟨_, rfl⟩ := deep.alike (ready'.entering plain entered) straight.2.2 ran ran' inside inside'
    exact ⟨rfl, rfl⟩

theorem extendBase_matches {line : Nat} :
    Matches left right first second (extendBase (Deeper.upTo depth) context line values)
      (extendBase (Deeper.upTo more) (context.inTree right) line values')
      (Trace.andThen values here (Trace.ofBase (Trace.upTo depth) context line)) where
  grows := fits.files ▸ extendBase_grows (growth_reaches context.job.files depth) (fits.files ▸ evaluated.grows)
  grows' := extendBase_grows (growth_reaches right more) evaluated.grows'
  alike ready straight run run' inside inside' := by
    obtain ⟨kind, reference, between, path, base, session, _, began, resolved, compiled, _, rfl⟩ :=
      (extendBase_eq_ok _ _ _).mp run
    obtain ⟨kind', reference', between', path', base', session', _, began', resolved', compiled', _, rfl⟩ :=
      (extendBase_eq_ok _ _ _).mp run'
    rw [extendedBy, session_mapInnermost] at inside inside'
    rw [Trace.andThen_of_ok began, Trace.ofBase_of_resolve resolved, List.forall_mem_append,
      List.forall_mem_cons] at straight
    have growth := growth_reaches context.job.files depth
    obtain ⟨grown, records⟩ := compileNested_grows growth compiled
    obtain ⟨grown', records'⟩ := compileNested_grows (growth_reaches right more) compiled'
    obtain ⟨same, rfl⟩ := evaluated.alike ready straight.1 began began' (List.Subset.trans grown.sources.keeps inside)
      (List.Subset.trans grown'.sources.keeps inside')
    obtain rfl : reference' = reference := by simpa using same
    have ready' := ready.grows (evaluated.grows _ _ _ began)
    have candidates := BaseReference.candidates_straight straight.2.1 (ready'.currentDirectory fits) fits.roots
    rw [fits.files] at resolved
    obtain rfl := matching.resolve_eq candidates resolved
      (Sources.has_of_subset inside (records ready'.recorded)) resolved'
      (Sources.has_of_subset inside' (records' ready'.recorded))
    obtain ⟨candidate, file, found⟩ := resolve_isFile resolved
    have plain := (FileTree.canonical_of_isFile matching.proper file found).1
    obtain ⟨rfl, rfl⟩ :=
      compileNested_alike matching fits reaches plain ready'.recorded straight.2.2 compiled compiled' inside inside'
    exact ⟨rfl, rfl⟩

end Files

theorem agreement_closed (matching : FileTree.Matching left right first second) :
    (agreement left right first second).Closed where
  environment _ := rfl
  fails _ none none' :=
    ⟨fun before value after run => absurd run (none before value after),
      fun before value after run => absurd run (none' before value after),
      fun _ _ run => absurd run (none _ _ _)⟩
  still unchanged unchanged' := by
    refine ⟨fun before value after run => ?_, fun before value after run => ?_, fun _ _ run run' _ _ => ?_⟩
    · exact .of_eq (congrArg _ (unchanged before value after run).1) (congrArg _ (unchanged before value after run).1)
    · exact .of_eq (congrArg _ (unchanged' before value after run)) (congrArg _ (unchanged' before value after run))
    · obtain ⟨rfl, again⟩ := unchanged _ _ _ run
      obtain ⟨rfl, rfl⟩ := EStateM.Result.ok.inj ((again _ rfl).symm.trans run')
      exact ⟨rfl, rfl⟩
  bind head rest := head.bind rest
  branch one other := by
    refine ⟨one.grows.branch other.grows, one.grows'.branch other.grows', fun ready straight run run' => ?_⟩
    split at run
    · rw [if_pos ‹_›] at run' straight
      exact one.alike ready straight run run'
    · rw [if_neg ‹_›] at run' straight
      exact other.alike ready straight run run'
  locals _ _ := by
    refine ⟨growing_modify (fun _ => rfl) fun _ => rfl, growing_modify (fun _ => rfl) fun _ => rfl, ?_⟩
    intro _ _ _ _ _ _ _ run run' _ _
    obtain ⟨_, rfl⟩ := EStateM.Result.ok.inj (run.symm.trans run')
    exact ⟨rfl, rfl⟩
  count := by
    refine ⟨growing_mapInnermost _, growing_mapInnermost _, ?_⟩
    intro _ _ _ _ _ _ _ run run' _ _
    obtain ⟨_, rfl⟩ := EStateM.Result.ok.inj (run.symm.trans run')
    exact ⟨rfl, rfl⟩
  value _ _ _ body := evaluateBlock_matches body
  attached name line _ body := by
    rw [← Trace.andThen_nil (evaluateBlock _ name line true _) (Trace.ofBlock _ line name true _)]
    exact (evaluateBlock_matches body).bind fun _ => attach_matches
  assign _ _ _ fits reaches := assign_matches matching fits reaches
  load _ _ fits reaches := loadValue_matches matching fits reaches
  splice _ fits reaches values := splice_matches matching fits reaches values
  extend _ fits reaches values := extendBase_matches matching fits reaches values
  recipe _ whole := by
    refine ⟨fun before value after run => ?_, fun before value after run => ?_,
      fun recorded straight run run' inside inside' => ?_⟩
    · obtain ⟨last, ran, _, rfl⟩ := (evaluateRecipe_eq_ok _ _ _ _ _ _).mp run
      exact (whole.grows _ _ _ ran).session
    · obtain ⟨last, ran, _, rfl⟩ := (evaluateRecipe_eq_ok _ _ _ _ _ _).mp run
      exact (whole.grows' _ _ _ ran).session
    · obtain ⟨last, ran, root, rfl⟩ := (evaluateRecipe_eq_ok _ _ _ _ _ _).mp run
      obtain ⟨last', ran', root', rfl⟩ := (evaluateRecipe_eq_ok _ _ _ _ _ _).mp run'
      obtain ⟨_, rfl⟩ := whole.alike ⟨fun _ member => absurd member List.not_mem_nil, recorded⟩ straight ran ran' inside inside'
      exact ⟨Option.some.inj (root'.symm.trans root), rfl⟩

theorem agreement_reaches (matching : FileTree.Matching left right first second) {depth more : Nat}
    (enough : depth ≤ more) :
    (agreement left right first second).Reaches (Deeper.upTo depth) (Deeper.upTo more) (Trace.upTo depth) := by
  refine (agreement_closed matching).reaches (fun more => ?_) enough
  have growth := growth_reaches right more
  refine ⟨fun context _ declarations => ⟨?_, growth.declarations (context.inTree right) rfl declarations, ?_⟩,
    fun context _ expression => ⟨?_, growth.expression (context.inTree right) rfl expression, ?_⟩,
    fun context _ declarations => ⟨?_, growth.recipe (context.inTree right) rfl declarations, ?_⟩⟩
  · exact fun _ _ _ run => absurd run (Running.throw_ne_ok _ _ _ _)
  · exact fun _ _ run => absurd run (Running.throw_ne_ok _ _ _ _)
  · exact fun _ _ _ run => absurd run (Running.throw_ne_ok _ _ _ _)
  · exact fun _ _ run => absurd run (Running.throw_ne_ok _ _ _ _)
  · exact fun _ _ _ run => absurd run (Running.throw_ne_ok _ _ _ _)
  · exact fun _ _ run => absurd run (Running.throw_ne_ok _ _ _ _)

end Evaluation

end DeployRecipe
