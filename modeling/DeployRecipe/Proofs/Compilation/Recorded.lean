import DeployRecipe.Proofs.Compilation.Growth
import DeployRecipe.Proofs.Compilation.Uses

/-!
The record of a compilation holds the files that it uses: each one once, in the order of the first uses, with the
hash of the text that was read each time, also where the parsed text comes from the session.
-/

namespace DeployRecipe

open Running

section FirstOf

variable {α : Type} {same : α → α → Bool}

theorem eraseDupsBy_concat (items : List α) (item : α) :
    (items ++ [item]).eraseDupsBy same =
      if (items.eraseDupsBy same).any (same item) then items.eraseDupsBy same
      else items.eraseDupsBy same ++ [item] := by
  suffices general : ∀ kept : List α, List.eraseDupsBy.loop same (items ++ [item]) kept =
      if (List.eraseDupsBy.loop same items kept).any (same item) then List.eraseDupsBy.loop same items kept
      else List.eraseDupsBy.loop same items kept ++ [item] from general []
  induction items with
  | nil =>
    intro kept
    simp only [List.nil_append, List.eraseDupsBy.loop, List.any_reverse]
    cases kept.any (same item) <;> simp
  | cons first rest inductionHypothesis =>
    intro kept
    rw [List.cons_append, List.eraseDupsBy.loop, List.eraseDupsBy.loop]
    by_cases known : kept.any (same first) = true
    · simp only [known]
      exact inductionHypothesis kept
    · simp only [known]
      exact inductionHypothesis (first :: kept)

end FirstOf

namespace Path

theorem same_comm (path other : Path) : path.same other = other.same path :=
  Bool.eq_iff_iff.mpr ⟨same_symm, same_symm⟩

/-- Each path has one with its components among the first ones. -/
theorem exists_mem_eraseDupsBy {paths : List Path} {path : Path} (member : path ∈ paths) :
    ∃ first ∈ paths.eraseDupsBy Path.same, first.same path = true := by
  induction paths using List.reverseRecOn with
  | nil => cases member
  | append_singleton earlier last inductionHypothesis =>
    rw [eraseDupsBy_concat]
    rcases List.mem_append.mp member with before | here
    · obtain ⟨first, there, same⟩ := inductionHypothesis before
      split
      · exact ⟨first, there, same⟩
      · exact ⟨first, List.mem_append_left _ there, same⟩
    · obtain rfl := List.mem_singleton.mp here
      split
      · rename_i known
        obtain ⟨first, there, same⟩ := List.any_eq_true.mp known
        exact ⟨first, there, same_symm same⟩
      · exact ⟨path, List.mem_append_right _ (List.mem_singleton_self path), same_self path⟩

end Path

/-- To record a path once more is to list it once more. -/
theorem Sources.map_record {sources : Sources} {paths : List Path} (path : Path) (text : String)
    (listed : sources.map Source.path = paths.eraseDupsBy Path.same) :
    (sources.record path text).map Source.path = (paths ++ [path]).eraseDupsBy Path.same := by
  have known : sources.has path = (paths.eraseDupsBy Path.same).any (path.same ·) := by
    rw [← listed, has, List.any_map]
    exact congrArg (List.any sources) (funext fun source => Path.same_comm _ _)
  rw [record, eraseDupsBy_concat, known]
  split
  · exact listed
  · rw [List.map_append, listed]
    rfl

namespace Session

/-- The record of the session is that of the uses up to now, and what was parsed was read from a recorded file. -/
structure Tracks (files : FileTree) (past : List Use) (session : Session) : Prop where
  paths : session.sources.map Source.path = (past.map Use.path).eraseDupsBy Path.same
  exact : session.sources.Exact files
  read : ∀ use ∈ past, ∃ text, files.readText use.path = .ok text ∧ use.Reads text
  parsed : ∀ entry ∈ session.parsed, ∃ text, files.readText entry.1 = .ok text ∧
    Recipe.readDeclarations text = .ok entry.2 ∧ session.sources.has entry.1 = true

variable {files : FileTree} {past : List Use} {before between after : Session} {path : Path} {text : String}

/-- A use is recorded with the hash of the text that it reads. -/
theorem Tracks.recorded (tracks : before.Tracks files past) {use : Use} (member : use ∈ past) :
    ∃ text source, files.readText use.path = .ok text ∧ use.Reads text ∧ source ∈ before.sources ∧
      source.path.same use.path = true ∧ source.hash = hashText text := by
  obtain ⟨text, read, reads⟩ := tracks.read use member
  obtain ⟨first, there, same⟩ := Path.exists_mem_eraseDupsBy (List.mem_map_of_mem (f := Use.path) member)
  rw [← tracks.paths] at there
  obtain ⟨source, recorded, rfl⟩ := List.mem_map.mp there
  obtain ⟨text', read', hash⟩ := tracks.exact source recorded
  exact ⟨text, source, read, reads, recorded, same, FileTree.readText_of_same same read' read ▸ hash⟩

/-- One more file is read and recorded. -/
theorem Tracks.record (tracks : before.Tracks files past) {reading : Reading} (read : files.readText path = .ok text)
    (reads : Use.Reads ⟨path, reading⟩ text) :
    Tracks files (past ++ [⟨path, reading⟩]) { before with sources := before.sources.record path text } where
  paths := by
    rw [List.map_append]
    exact Sources.map_record path text tracks.paths
  exact := tracks.exact.record read
  read := List.forall_mem_append.mpr ⟨tracks.read, List.forall_mem_singleton.mpr ⟨text, read, reads⟩⟩
  parsed := fun entry member => by
    obtain ⟨given, read', parsed, recorded⟩ := tracks.parsed entry member
    exact ⟨given, read', parsed, Sources.has_record.mpr (Or.inl recorded)⟩

/-- A recipe that was parsed before is used again. -/
theorem Tracks.again (tracks : before.Tracks files past) {declarations : List Declaration}
    (reads : files.Reads path) (known : before.parsed? path = some declarations) :
    Tracks files (past ++ [⟨path, .declarations declarations⟩]) before := by
  obtain ⟨entry, found, same⟩ := Option.map_eq_some_iff.mp known
  have together : entry.1.same path = true := by simpa using List.find?_some found
  obtain ⟨text, read, parsed, recorded⟩ := tracks.parsed entry (List.mem_of_find?_eq_some found)
  have read' := reads _ _ together read
  have here := Sources.has_of_same recorded together
  refine ⟨?_, tracks.exact, ?_, tracks.parsed⟩
  · have listed := Sources.map_record path text tracks.paths
    rw [Sources.record, if_pos here] at listed
    rw [List.map_append]
    exact listed
  · exact List.forall_mem_append.mpr ⟨tracks.read, List.forall_mem_singleton.mpr ⟨text, read', same ▸ parsed⟩⟩

/-- A recipe is parsed and recorded. -/
theorem Tracks.parse (tracks : before.Tracks files past) {declarations : List Declaration}
    (read : files.readText path = .ok text) (parsed : Recipe.readDeclarations text = .ok declarations) :
    Tracks files (past ++ [⟨path, .declarations declarations⟩])
      { before with
        parsed := (path, declarations) :: before.parsed
        sources := before.sources.record path text } := by
  have recorded : Tracks files (past ++ [⟨path, .declarations declarations⟩])
      { before with sources := before.sources.record path text } := tracks.record read parsed
  have here : (before.sources.record path text).has path = true :=
    Sources.has_record.mpr (Or.inr (Path.same_self path))
  exact ⟨recorded.paths, recorded.exact, recorded.read,
    List.forall_mem_cons.mpr ⟨⟨text, read, parsed, here⟩, recorded.parsed⟩⟩

theorem Tracks.empty (files : FileTree) : Tracks files [] empty := ⟨rfl, nofun, nofun, nofun⟩

/-- What is done between the two sessions uses the given files, and keeps the record. -/
def Carries (files : FileTree) (uses : List Use) (before after : Session) : Prop :=
  ∀ past, before.Tracks files past → after.Tracks files (past ++ uses)

theorem Carries.of_eq (sources : after.sources = before.sources) (parsed : after.parsed = before.parsed) :
    Carries files [] before after := by
  intro past tracks
  rw [List.append_nil]
  exact ⟨sources ▸ tracks.paths, sources ▸ tracks.exact, tracks.read, by rw [sources, parsed]; exact tracks.parsed⟩

theorem Carries.of_same (same : after = before) : Carries files [] before after :=
  .of_eq (congrArg Session.sources same) (congrArg Session.parsed same)

theorem Carries.trans {uses more : List Use} (one : Carries files uses before between)
    (other : Carries files more between after) : Carries files (uses ++ more) before after := by
  intro past tracks
  rw [← List.append_assoc]
  exact other _ (one past tracks)

variable {job : Job}

theorem parseFile_carries {declarations : List Declaration} (reads : job.files.Reads path)
    (run : parseFile job path before = .ok declarations after) :
    Carries job.files [⟨path, .declarations declarations⟩] before after := by
  intro past tracks
  rcases (parseFile_eq_ok _ _ _ _ _).mp run with ⟨known, rfl⟩ | ⟨_, text, read, parsed, rfl⟩
  · exact tracks.again reads known
  · exact tracks.parse read parsed

theorem read_carries {expression : Expression} (run : Session.read job path before = .ok text after)
    (parsed : Recipe.readExpression text = .ok expression) :
    Carries job.files [⟨path, .expression expression⟩] before after := by
  obtain ⟨read, rfl⟩ := (read_eq_ok _ _ _ _ _).mp run
  exact fun past tracks => tracks.record read parsed

end Session

namespace EnvironmentInputs

open Session

variable {inputs : EnvironmentInputs} {files : FileTree} {session : Session} {environment above : Environment}
  {sources : Sources}

theorem pushText_carries {source : LayerSource} {path : Path} {text : String} (read : files.readText path = .ok text)
    (run : pushText environment source path text session.sources = .ok above sources) :
    Carries files [⟨path, .properties⟩] session { session with sources } := by
  obtain ⟨values, parsed, _, rfl⟩ := pushText_eq_ok.mp run
  exact fun past tracks => tracks.record read ⟨_, values, parsed⟩

theorem pushProperties_carries (run : inputs.pushProperties files environment session.sources = .ok above sources) :
    Carries files ((inputs.propertiesPath? files).toList.map (⟨·, .properties⟩)) session { session with sources } := by
  rw [pushProperties] at run
  cases found : inputs.propertiesPath? files with
  | none =>
    rw [found] at run
    obtain ⟨_, rfl⟩ := (pure_eq_ok _ _ _ _).mp run
    exact .of_eq rfl rfl
  | some path =>
    rw [found] at run
    obtain ⟨text, _, reading, pushed⟩ := (bind_eq_ok _ _ _ _ _).mp run
    obtain ⟨read, rfl⟩ := (ofExcept_eq_ok _ _ _ _).mp reading
    exact pushText_carries read pushed

/-- Overrides are read from a file, unless they are a script. -/
theorem pushOverrides_carries (file : ∀ text, inputs.overrides ≠ some (.script text))
    (run : inputs.pushOverrides files environment session.sources = .ok above sources) :
    Carries files ((inputs.overridesPath? files).toList.map (⟨·, .properties⟩)) session { session with sources } := by
  have laid := inputs.overridesText?_eq files
  obtain ⟨found, _, reading, run⟩ := (bind_eq_ok _ _ _ _ _).mp run
  obtain ⟨read, rfl⟩ := (ofExcept_eq_ok _ _ _ _).mp reading
  rw [read] at laid
  cases given : inputs.overridesPath? files with
  | none =>
    rw [given] at laid
    cases chosen : inputs.overrides with
    | some overrides =>
      cases overrides with
      | script text => exact absurd chosen (file text)
      | file path =>
        rw [overridesPath?, chosen] at given
        cases given
    | none =>
      rw [chosen] at laid
      obtain rfl := Except.ok.inj laid
      obtain ⟨_, rfl⟩ := (pure_eq_ok _ _ _ _).mp run
      exact .of_eq rfl rfl
  | some path =>
    rw [given] at laid
    obtain ⟨text, there, same⟩ := (map_eq_ok _ _ _).mp laid.symm
    subst same
    dsimp only at run
    split at run
    · obtain ⟨_, _, thrown, _⟩ := (bind_eq_ok _ _ _ _ _).mp run
      exact absurd thrown (throw_ne_ok _ _ _ _)
    · exact pushText_carries there run

/-- An environment is made from the files that it uses. -/
theorem build_carries (file : ∀ text, inputs.overrides ≠ some (.script text))
    (run : inputs.build files session.sources = .ok environment sources) :
    Carries files (inputs.uses files) session { session with sources } := by
  obtain ⟨_, _, _, between, properties, overrides⟩ := build_eq_ok run
  have laid : Carries files _ { session with sources := between } { session with sources } :=
    pushOverrides_carries file overrides
  rw [uses, List.map_append]
  exact (pushProperties_carries properties).trans laid

end EnvironmentInputs

namespace Evaluation

open Session

variable {files : FileTree}

/-- Ways are taken one after the other; what is used on each one is told, and nothing else is used in between. -/
inductive Walks (files : FileTree) : Session → List Way → Session → Prop
  | done {before after} (still : Carries files [] before after) : Walks files before [] after
  | step {before way rest between after} (carries : Carries files way.uses before way.call.state.session)
    (run : way.call.outcome = .ok () between) (further : Walks files between.session rest after) :
    Walks files before (way :: rest) after

namespace Walks

variable {before between after : Session} {ways : List Way} {way : Way} {last : Evaluation}

theorem single (carries : Carries files way.uses before way.call.state.session)
    (run : way.call.outcome = .ok () last) (still : Carries files [] last.session after) :
    Walks files before [way] after :=
  .step carries run (.done still)

theorem still (walks : Walks files before ways between) (still : Carries files [] between after) :
    Walks files before ways after := by
  induction walks with
  | done earlier => exact .done (earlier.trans still)
  | step carries run _ inductionHypothesis => exact .step carries run (inductionHypothesis still)

/-- What the calls on the ways use is used along the ways. -/
theorem carries (walks : Walks files before ways after)
    (inner : ∀ way ∈ ways, ∀ last, way.call.outcome = .ok () last →
      Carries files way.call.uses way.call.state.session last.session) :
    Carries files (ways.flatMap fun way => way.uses ++ way.call.uses) before after := by
  induction walks with
  | done still => exact still
  | step carries run _ inductionHypothesis =>
    obtain ⟨here, later⟩ := List.forall_mem_cons.mp inner
    exact (carries.trans (here _ run)).trans (inductionHypothesis later)

end Walks

variable {depth : Nat} {context : RecipeContext} {state between after : Evaluation} {line : Nat}

/-- To evaluate something for its value is to evaluate it for what it does to the state. -/
theorem outcome_of_value {α : Type} {action : Evaluating α} {value : α} (run : action state = .ok value after) :
    (do let _ ← action; pure () : Evaluating Unit) state = .ok () after :=
  (bind_eq_ok _ _ _ _ _).mpr ⟨value, after, run, rfl⟩

theorem block_walks {name : String} {attached : Bool} {declarations : List Declaration} {entity : Entity}
    (run : evaluateBlock context name line attached
      (evaluateStatements (Deeper.upTo depth) context declarations) state = .ok entity after) :
    Walks files state.session (blockWays depth context name line attached declarations state) after.session := by
  obtain ⟨descriptor, start, described, placed, started, running⟩ := (evaluateBlock_eq_ok _ _ _ _ _).mp run
  obtain ⟨last, ran, _, rfl⟩ := (inScope_eq_ok _ _ _).mp running
  rw [blockWays, waysAfter_of_ok (Trace.openBlock_of_startOf described placed started)]
  have noted : (state.noting descriptor attached).session = state.session := by
    cases attached with
    | false => rfl
    | true => exact session_mapInnermost state _
  exact .single (.of_same noted) (forM_evaluateInPlace (Deeper.upTo_sound depth) (List.cons_ne_nil _ _) ran)
    (.of_eq rfl rfl)

theorem value_walks {relative : String} {value : Value}
    (run : loadValue (Deeper.upTo depth) context line relative state = .ok value after) :
    Walks context.job.files state.session (valueWays depth context line relative state) after.session := by
  obtain ⟨path, text, expression, session, inner, named, free, read, parsed, ran, rfl⟩ :=
    (loadValue_eq_ok _ _ _ _).mp run
  cases depth with
  | zero => exact absurd ran (throw_ne_ok _ _ _ _)
  | succ depth =>
    have opened : openValue context line relative state = .ok expression (state.entering path session) :=
      openValue_eq_ok.mpr ⟨path, text, session, named, free, read, parsed, rfl⟩
    rw [valueWays, waysAfter_of_ok opened]
    have entered : Carries context.job.files [] state.session
        { state.session with active := path :: state.session.active } := .of_eq rfl rfl
    exact .single (entered.trans (read_carries read parsed)) (outcome_of_value ran) (.of_eq rfl rfl)

theorem fragment_walks {expressions : List Expression} (proper : context.job.files.Proper)
    (run : splice (Deeper.upTo depth) context line (evaluateItems (Deeper.upTo depth) context line expressions) state =
      .ok () after) :
    ∃ values between, evaluateItems (Deeper.upTo depth) context line expressions state = .ok values between ∧
      Walks context.job.files between.session (fragmentWays depth context line expressions state) after.session := by
  obtain ⟨declarations, inside, inner, opened, ran, rfl⟩ := (splice_iff_openFragment _ _).mp run
  obtain ⟨relative, between, path, session, evaluated, named, free, parsed, rfl⟩ := (openFragment_eq_ok _ _ _).mp opened
  refine ⟨_, between, evaluated, ?_⟩
  cases depth with
  | zero => exact absurd ran (throw_ne_ok _ _ _ _)
  | succ depth =>
    rw [fragmentWays, waysAfter_of_ok opened]
    have entered : Carries context.job.files [] between.session
        { between.session with active := path :: between.session.active } := .of_eq rfl rfl
    have reads := FileTree.reads_of_canonical proper named.2
    exact .single (entered.trans (parseFile_carries reads parsed)) ran (.of_eq rfl rfl)

theorem openNested_carries {job : Job} {path : Path} {handover : Handover} {before after : Session}
    {nested : RecipeContext} {declarations : List Declaration} (reads : job.files.Reads path)
    (run : openNested job path handover before = .ok (nested, declarations) after) :
    Carries job.files (nestedUses nested.job nested.recipeFile declarations) before after := by
  simp only [openNested, bind_eq_ok, Session.enter_eq_ok, Session.recording_eq_ok, pure_eq_ok] at run
  obtain ⟨_, _, ⟨_, rfl⟩, _, parsed, parsing, _, _, ⟨sources, built, rfl⟩, same, rfl⟩ := run
  obtain ⟨rfl, rfl⟩ := Prod.mk.inj same
  have entered : Carries job.files [] before { before with active := path :: before.active } := .of_eq rfl rfl
  have laid := EnvironmentInputs.build_carries (by cases handover <;> exact nofun) built
  rw [Handover.uses_eq handover (.inherited [])] at laid
  exact (entered.trans (parseFile_carries reads parsing)).trans laid

section Recipes

variable {declaration : Declaration} {path : Path} {handover : Handover} {session : Session} {entity : Entity}

/-- A recipe is opened and evaluated, and then nothing more is used. -/
theorem recipe_walks {nested : RecipeContext} {declarations : List Declaration} {named : Evaluation}
    {opened inner last : Session} (inside : state.scopes ≠ [])
    (opens : Step.opens? ⟨depth, context, declaration, state⟩ state =
      .ok (some (nested, declarations)) { named with session := opened })
    (carries : Carries files (nestedUses nested.job nested.recipeFile declarations) named.session opened)
    (ran : (Deeper.upTo depth).recipe nested declarations opened = .ok entity inner)
    (still : Carries files [] inner last) :
    Walks files named.session (recipeWays depth context declaration state) last := by
  rw [recipeWays, if_neg (by simpa using inside), waysAfter_of_ok opens]
  cases depth with
  | zero => exact absurd ran (throw_ne_ok _ _ _ _)
  | succ depth =>
    obtain ⟨state', evaluated, _, rfl⟩ := (evaluateRecipe_eq_ok _ _ _ _ _ _).mp ran
    exact .single carries (forM_evaluateInPlace_outside (Deeper.upTo_sound depth) rfl evaluated) still

variable (inside : state.scopes ≠ [])
include inside

theorem extend_walks {expressions : List Expression} (proper : context.job.files.Proper)
    (run : extendBase (Deeper.upTo depth) context line (evaluateItems (Deeper.upTo depth) context line expressions)
      state = .ok () after) :
    ∃ values between, evaluateItems (Deeper.upTo depth) context line expressions state = .ok values between ∧
      Walks context.job.files between.session
        (recipeWays depth context (.mk extendWord line (.arguments expressions)) state) after.session := by
  obtain ⟨kind, reference, between, path, base, session, _, evaluated, resolved, compiled, _, rfl⟩ :=
    (extendBase_eq_ok _ _ _).mp run
  obtain ⟨nested, declarations, opened, inner, ready, ran, rfl⟩ := compileNested_iff_openNested.mp compiled
  obtain ⟨candidate, found⟩ := resolve_eq_ok resolved
  have carries := openNested_carries (FileTree.reads_of_canonical proper found) ready
  refine ⟨_, between, evaluated, recipe_walks inside (opens?_extend evaluated resolved ready) carries ran ?_⟩
  rw [extendedBy, session_mapInnermost]
  exact .of_eq rfl rfl

/-- A name that leads to no recipe has no way. -/
theorem recipeWays_of_none {named : Evaluation}
    (opens : Step.opens? ⟨depth, context, declaration, state⟩ state = .ok none named) :
    recipeWays depth context declaration state = [] := by
  rw [recipeWays, if_neg (by simpa using inside), waysAfter_of_ok opens]

theorem assign_walks {name : String} {values : Evaluating (List Value)} {given : List Value}
    (opens : Step.opens? ⟨depth, context, declaration, state⟩ =
      if name = nameProperty then openService? context line values else pure none)
    (evaluated : values state = .ok given between)
    (run : assign (Deeper.upTo depth) context line name given between = .ok () after) :
    Walks context.job.files between.session (recipeWays depth context declaration state) after.session := by
  obtain ⟨_, named, binding, loading⟩ := (bind_eq_ok _ _ _ _ _).mp run
  have same : named.session = between.session := by
    obtain ⟨_, _, _, _, _, _, rfl⟩ := (bindName_eq_ok _ _ _).mp binding
    rfl
  by_cases naming : name = nameProperty
  · subst naming
    rw [if_pos rfl] at opens loading
    rcases (loadService_eq_ok _ _).mp loading with ⟨nowhere, rfl⟩ |
      ⟨name, directory, path, loaded, session, entity, found, searched, compiled, _, _, rfl⟩
    · rw [recipeWays_of_none inside ((congrFun opens _).trans (openService?_of_none evaluated binding nowhere))]
      exact .done (.of_same same)
    · obtain ⟨nested, declarations, opened, inner, ready, ran, rfl⟩ := compileNested_iff_openNested.mp compiled
      have reads := FileTree.reads_of_isFile (theFileEndingIn_isFile searched)
      have ready' := openService?_of_openNested evaluated binding found searched ready
      rw [session_mapInnermost, ← same]
      exact recipe_walks inside ((congrFun opens _).trans ready') (openNested_carries reads ready) ran
        (.of_eq rfl rfl)
  · rw [if_neg naming] at opens loading
    obtain ⟨_, rfl⟩ := (pure_eq_ok _ _ _ _).mp loading
    rw [recipeWays_of_none inside (congrFun opens state)]
    exact .done (.of_same same)

end Recipes

/-- The entries of a map are evaluated like the items of a list. -/
theorem evaluateItems_of_evaluateEntries {deeper : Deeper} {mapping result : Mapping}
    {entries : List (String × Expression)}
    (run : evaluateEntries deeper context line mapping entries state = .ok result after) :
    ∃ values, evaluateItems deeper context line (entries.map Prod.snd) state = .ok values after := by
  induction entries generalizing mapping state with
  | nil =>
    obtain ⟨_, rfl⟩ := (pure_eq_ok _ _ _ _).mp run
    exact ⟨[], rfl⟩
  | cons first rest inductionHypothesis =>
    obtain ⟨key, item⟩ := first
    rw [evaluateEntries] at run
    obtain ⟨value, between, evaluated, run⟩ := (bind_eq_ok _ _ _ _ _).mp run
    obtain ⟨values, others⟩ := inductionHypothesis run
    rw [List.map_cons, evaluateItems]
    exact ⟨value :: values, (bind_eq_ok _ _ _ _ _).mpr
      ⟨value, between, evaluated, (bind_eq_ok _ _ _ _ _).mpr ⟨values, after, others, rfl⟩⟩⟩

theorem expression_walks {expression : Expression} {value : Value}
    (run : evaluate (Deeper.upTo depth) context line expression state = .ok value after) :
    Walks context.job.files state.session (Call.ways ⟨depth, context, .expression line expression, state⟩)
      after.session := by
  have leaf (same : after = state) : Walks context.job.files state.session [] after.session :=
    .done (.of_same (congrArg Evaluation.session same))
  cases expression with
  | null | bool | int | float | text => exact leaf ((pure_eq_ok _ _ _ _).mp run).2.symm
  | interpolated parts =>
    obtain ⟨_, _, _, same⟩ := evaluate_interpolated_eq_ok.mp run
    exact leaf same
  | reference name => exact leaf (evaluate_reference_eq_ok.mp run).2
  | list items =>
    rw [evaluate] at run
    obtain ⟨values, _, evaluated, same⟩ := (bind_eq_ok _ _ _ _ _).mp run
    obtain ⟨_, rfl⟩ := (pure_eq_ok _ _ _ _).mp same
    exact .single (.of_same rfl) (outcome_of_value evaluated) (.of_same rfl)
  | map entries =>
    rw [evaluate] at run
    obtain ⟨mapping, _, evaluated, same⟩ := (bind_eq_ok _ _ _ _ _).mp run
    obtain ⟨_, rfl⟩ := (pure_eq_ok _ _ _ _).mp same
    obtain ⟨values, evaluated⟩ := evaluateItems_of_evaluateEntries evaluated
    exact .single (.of_same rfl) (outcome_of_value evaluated) (.of_same rfl)
  | block name blockLine declarations =>
    rw [evaluate] at run
    obtain ⟨entity, _, evaluated, same⟩ := (bind_eq_ok _ _ _ _ _).mp run
    obtain ⟨_, rfl⟩ := (pure_eq_ok _ _ _ _).mp same
    exact block_walks evaluated
  | load relative =>
    rw [evaluate] at run
    exact value_walks run

theorem items_walks {items : List Expression} {values : List Value}
    (run : evaluateItems (Deeper.upTo depth) context line items state = .ok values after) :
    Walks context.job.files state.session (Call.ways ⟨depth, context, .items line items, state⟩) after.session := by
  cases items with
  | nil =>
    obtain ⟨_, rfl⟩ := (pure_eq_ok _ _ _ _).mp run
    exact .done (.of_same rfl)
  | cons first rest =>
    rw [evaluateItems] at run
    obtain ⟨value, between, evaluated, run⟩ := (bind_eq_ok _ _ _ _ _).mp run
    obtain ⟨others, _, evaluated', same⟩ := (bind_eq_ok _ _ _ _ _).mp run
    obtain ⟨_, rfl⟩ := (pure_eq_ok _ _ _ _).mp same
    rw [Call.ways, waysAfter_of_ok evaluated]
    exact .step (.of_same rfl) (outcome_of_value evaluated)
      (.single (.of_same rfl) (outcome_of_value evaluated') (.of_same rfl))

theorem declarations_walks {declarations : List Declaration}
    (run : declarations.forM (evaluateInPlace (Deeper.upTo depth) context) state = .ok () after) :
    Walks context.job.files state.session (Call.ways ⟨depth, context, .declarations declarations, state⟩)
      after.session := by
  cases declarations with
  | nil =>
    obtain ⟨_, rfl⟩ := (pure_eq_ok _ _ _ _).mp run
    exact .done (.of_same rfl)
  | cons first rest =>
    obtain ⟨_, between, evaluated, run⟩ := (bind_eq_ok _ _ _ _ _).mp run
    rw [Call.ways, waysAfter_of_ok evaluated]
    exact .step (.of_same rfl) evaluated (.single (.of_same rfl) run (.of_same rfl))

theorem attach_session {entity : Entity} (run : attach context line entity state = .ok () after) :
    after.session = state.session := by
  rcases (attach_eq_ok _ _).mp run with ⟨_, rfl⟩ | ⟨_, _, _, _, _, _, rfl⟩ <;> rfl

theorem countDeclaration_session (run : countDeclaration state = .ok () after) : after.session = state.session := by
  obtain rfl := (modify_eq_ok _ _ _ _).mp run
  exact session_mapInnermost state _

section Declarations

variable (proper : context.job.files.Proper) {declaration : Declaration}
include proper

theorem topLevel_walks (outside : state.scopes = [])
    (run : evaluateTopLevel (Deeper.upTo depth) context declaration state = .ok () after) :
    Walks context.job.files state.session (Call.ways ⟨depth, context, .declaration declaration, state⟩)
      after.session := by
  obtain ⟨name, line, body⟩ := declaration
  have nowhere (declaration : Declaration) : recipeWays depth context declaration state = [] := by
    rw [recipeWays, outside]
    rfl
  cases body with
  | block declarations =>
    obtain ⟨entity, between, evaluated, attached⟩ := (bind_eq_ok _ _ _ _ _).mp run
    exact (block_walks evaluated).still (.of_same (attach_session attached))
  | arguments expressions =>
    change (if name = loadWord then _ else if name = extendWord then _ else _ : Evaluating Unit) state = _ at run
    split at run
    · rename_i load
      obtain ⟨values, between, evaluated, walks⟩ := fragment_walks proper run
      rw [Call.ways, if_pos load]
      exact .step (.of_same rfl) (outcome_of_value evaluated) walks
    · split at run <;> exact absurd run (fail_ne_ok _ _ _)
  | assignment expression =>
    obtain ⟨value, between, evaluated, defined⟩ := (bind_eq_ok _ _ _ _ _).mp run
    obtain rfl := (modify_eq_ok _ _ _ _).mp defined
    rw [Call.ways, nowhere]
    exact .single (.of_same rfl) (outcome_of_value evaluated) (.of_same rfl)

theorem statement_walks (inside : state.scopes ≠ [])
    (run : evaluateStatement (Deeper.upTo depth) context declaration state = .ok () after) :
    Walks context.job.files state.session (Call.ways ⟨depth, context, .declaration declaration, state⟩)
      after.session := by
  obtain ⟨name, line, body⟩ := declaration
  rw [evaluateStatement] at run
  obtain ⟨_, last, ran, counted⟩ := (bind_eq_ok _ _ _ _ _).mp run
  refine Walks.still ?_ (.of_same (countDeclaration_session counted))
  cases body with
  | block declarations =>
    rw [evaluateBody] at ran
    obtain ⟨entity, between, evaluated, attached⟩ := (bind_eq_ok _ _ _ _ _).mp ran
    exact (block_walks evaluated).still (.of_same (attach_session attached))
  | arguments expressions =>
    rw [evaluateBody] at ran
    split at ran
    · rename_i extend
      subst extend
      obtain ⟨values, between, evaluated, walks⟩ := extend_walks inside proper ran
      exact .step (.of_same rfl) (outcome_of_value evaluated) walks
    · rename_i other
      split at ran
      · rename_i load
        obtain ⟨values, between, evaluated, walks⟩ := fragment_walks proper ran
        rw [Call.ways, if_pos load]
        exact .step (.of_same rfl) (outcome_of_value evaluated) walks
      · rename_i plain
        obtain ⟨values, between, evaluated, assigned⟩ := (bind_eq_ok _ _ _ _ _).mp ran
        rw [Call.ways, if_neg plain]
        have opens : Step.opens? ⟨depth, context, .mk name line (.arguments expressions), state⟩ =
            if name = nameProperty then openService? context line
              (evaluateItems (Deeper.upTo depth) context line expressions) else pure none := if_neg other
        exact .step (.of_same rfl) (outcome_of_value evaluated) (assign_walks inside opens evaluated assigned)
  | assignment expression =>
    rw [evaluateBody] at ran
    obtain ⟨value, between, evaluated, assigned⟩ := (bind_eq_ok _ _ _ _ _).mp ran
    have given : (do let value ← evaluate (Deeper.upTo depth) context line expression; pure [value]) state =
        .ok [value] between := (bind_eq_ok _ _ _ _ _).mpr ⟨value, between, evaluated, rfl⟩
    exact .step (.of_same rfl) (outcome_of_value evaluated) (assign_walks inside rfl given assigned)

end Declarations

/-- A call that ends well takes its ways. -/
theorem Call.walks {call : Call} (proper : call.context.job.files.Proper) (run : call.outcome = .ok () after) :
    Walks call.context.job.files call.state.session call.ways after.session := by
  obtain ⟨depth, context, part, state⟩ := call
  cases part with
  | expression line expression =>
    obtain ⟨value, _, evaluated, same⟩ := (bind_eq_ok _ _ _ _ _).mp run
    obtain ⟨_, rfl⟩ := (pure_eq_ok _ _ _ _).mp same
    exact expression_walks evaluated
  | items line items =>
    obtain ⟨values, _, evaluated, same⟩ := (bind_eq_ok _ _ _ _ _).mp run
    obtain ⟨_, rfl⟩ := (pure_eq_ok _ _ _ _).mp same
    exact items_walks evaluated
  | declarations declarations => exact declarations_walks run
  | declaration declaration =>
    by_cases outside : state.scopes = []
    · exact topLevel_walks proper outside ((evaluateInPlace_outside outside _).symm.trans run)
    · exact statement_walks proper outside ((evaluateInPlace_inside outside _).symm.trans run)

theorem Leads.job {call next : Call} (leads : Leads call next) : next.context.job = call.context.job := by
  rcases leads.cases with ⟨same, _⟩ | ⟨_, path, handover, session, declarations, later, ready⟩
  · rw [same]
  · exact (openNested_eq_ok ready).1

/-- Everything that a call uses is recorded, by recursion along its ways. -/
theorem Call.carries (call : Call) {after : Evaluation} (proper : call.context.job.files.Proper)
    (run : call.outcome = .ok () after) :
    Carries call.context.job.files call.uses call.state.session after.session := by
  rw [uses_eq]
  refine (call.walks proper run).carries fun way member last ran => ?_
  have leads := leads_of_mem_ways member
  have inner := Call.carries way.call (leads.job ▸ proper) ran
  rwa [leads.job] at inner
termination_by (call.depth, sizeOf call.part)
decreasing_by exact leads.descends

end Evaluation

open Evaluation Session in
/-- What a recipe uses up to its end is recorded then. -/
theorem Job.uses_tracked {job : Job} {path : Path} {text : String} {context : RecipeContext}
    {declarations : List Declaration} {session last : Session} {root : Entity} (proper : job.files.Proper)
    (file : ∀ text, job.overrides ≠ some (.script text)) (read : job.files.readText path = .ok text)
    (opened : job.opening path text Session.empty = .ok (context, declarations) session)
    (run : evaluateRecipe (Deeper.upTo job.depth) context declarations session = .ok root last) :
    last.Tracks job.files (job.uses path text) := by
  have same : job.uses path text = ⟨path, .declarations declarations⟩ :: (job.inputs path).uses job.files ++
      Call.uses ⟨job.depth, context, .declarations declarations, start session⟩ := by
    rw [uses, opened]
  obtain ⟨environment, sources, parsed, built, rfl, rfl⟩ := (opening_eq_ok _ _ _ _ _ _).mp opened
  obtain ⟨state, evaluated, _, rfl⟩ := (evaluateRecipe_eq_ok _ _ _ _ _ _).mp run
  have own := (Tracks.empty job.files).parse read parsed
  have inside : Tracks job.files [⟨path, .declarations declarations⟩]
      ⟨[(path, declarations)], [path], Sources.record [] path text⟩ := ⟨own.paths, own.exact, own.read, own.parsed⟩
  have laid : Carries job.files ((job.inputs path).uses job.files)
      ⟨[(path, declarations)], [path], Sources.record [] path text⟩ ⟨[(path, declarations)], [path], sources⟩ :=
    EnvironmentInputs.build_carries file built
  have carries := Call.carries ⟨job.depth, ⟨job, path, environment⟩, .declarations declarations, _⟩ proper
    (forM_evaluateInPlace_outside (Deeper.upTo_sound job.depth) rfl evaluated)
  rw [same]
  exact carries _ (laid _ inside)

namespace Compiled

/-- A compilation records each file that it uses: no path twice, the recipe first and then in the order of the first
uses, and always with the hash of the text that the use reads. -/
theorem ofFile_records {job : Job} {file : Path} {compiled : Compiled} (success : ofFile job file = .ok compiled)
    (proper : job.files.Proper) (noScript : ∀ text, job.overrides ≠ some (.script text)) :
    compiled.sources.Distinct ∧ compiled.sources.head?.map Source.path = some compiled.file ∧
      compiled.sources.map Source.path = ((job.usesOfFile file).map Use.path).eraseDupsBy Path.same ∧
      ∀ use ∈ job.usesOfFile file, ∃ text source, job.files.readText use.path = .ok text ∧ use.Reads text ∧
        source ∈ compiled.sources ∧ source.path.same use.path = true ∧ source.hash = hashText text := by
  obtain ⟨_, distinct, _⟩ := ofFile_sources success
  obtain ⟨text, context, declarations, session, last, found, read, opened, run, sources⟩ := ofFile_evaluates success
  have tracks := Job.uses_tracked proper noScript read opened run
  have uses : job.usesOfFile file = job.uses compiled.file text := by simp only [Job.usesOfFile, found, read]
  rw [uses, sources]
  refine ⟨sources ▸ distinct, ?_, tracks.paths, fun use => tracks.recorded⟩
  rw [← List.head?_map, tracks.paths, Job.uses, opened]
  simp only [List.cons_append, List.map_cons, List.eraseDupsBy_cons, List.head?_cons]

/-- A recipe that loads a fragment twice, beside its properties. -/
def loadingTwice : Job :=
  .plain
    { nodes := [(["r"], .directory),
        (["r", "web-service.recipe"], .file (.text "load \"part\"\nload \"part\"\nservice \x7b\n name x\n\x7d\n")),
        (["r", "web-service.properties"], .file (.text "port = 80\n")),
        (["r", "part"], .file (.text "x = \"web\"\n"))]
      workingDirectory := ["r"] }
    { Settings.standard with validate := false }

theorem ofFile_records_loadingTwice :
    ∃ compiled, ofFile loadingTwice ⟨"web-service.recipe"⟩ = .ok compiled ∧
      ((loadingTwice.usesOfFile ⟨"web-service.recipe"⟩).map Use.path).eraseDupsBy Path.same =
        [⟨"/r/web-service.recipe"⟩, ⟨"/r/web-service.properties"⟩, ⟨"/r/part"⟩] ∧
      ∀ use ∈ loadingTwice.usesOfFile ⟨"web-service.recipe"⟩, ∃ text source,
        loadingTwice.files.readText use.path = .ok text ∧ use.Reads text ∧ source ∈ compiled.sources ∧
          source.path.same use.path = true ∧ source.hash = hashText text := by
  have proper : loadingTwice.files.Proper := by
    simp [loadingTwice, Job.plain, FileTree.Proper, Path.IsName, Path.isReal]
  have ends : ((ofFile loadingTwice ⟨"web-service.recipe"⟩).toOption.map fun compiled =>
      compiled.sources.map Source.path) =
        some [⟨"/r/web-service.recipe"⟩, ⟨"/r/web-service.properties"⟩, ⟨"/r/part"⟩] := by decide +kernel
  cases success : ofFile loadingTwice ⟨"web-service.recipe"⟩ with
  | error error =>
    rw [success] at ends
    cases ends
  | ok compiled =>
    rw [success] at ends
    have noScript : ∀ text, loadingTwice.overrides ≠ some (.script text) := by
      intro text script
      cases script
    obtain ⟨_, _, paths, recorded⟩ := ofFile_records success proper noScript
    exact ⟨compiled, rfl, paths.symm.trans (Option.some.inj ends), recorded⟩

end Compiled

end DeployRecipe
