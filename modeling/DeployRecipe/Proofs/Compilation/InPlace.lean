import DeployRecipe.Proofs.Compilation.Hidden
import DeployRecipe.Proofs.Compilation.Steps

/-!
To load a fragment is to evaluate its declarations in place. The declarations are evaluated inside of one more
file, but they do not need it, so they do the same outside of it as long as they see the same directory.
-/

namespace DeployRecipe

open Running

theorem Path.same_hides (path : Path) : Sources.Hides path.same := fun _ _ same =>
  Bool.eq_iff_iff.mpr ⟨fun known => same_trans known same, fun known => same_trans known (same_symm same)⟩

namespace Sources

theorem has_hides (sources : Sources) : Hides sources.has := fun _ _ same =>
  Bool.eq_iff_iff.mpr
    ⟨fun recorded => has_of_same recorded same, fun recorded => has_of_same recorded (Path.same_symm same)⟩

/-- A record to which other files were added. -/
def Extends (before after : Sources) : Prop :=
  ∃ added, after = before ++ added ∧ ∀ source ∈ added, before.has source.path = false

theorem Extends.refl (sources : Sources) : Extends sources sources :=
  ⟨[], (List.append_nil _).symm, List.forall_mem_nil _⟩

theorem has_append (sources added : Sources) (path : Path) :
    (sources ++ added).has path = (sources.has path || added.has path) :=
  List.any_append

theorem Extends.trans {before between after : Sources} (one : Extends before between) (other : Extends between after) :
    Extends before after := by
  obtain ⟨first, rfl, new⟩ := one
  obtain ⟨second, rfl, new'⟩ := other
  refine ⟨first ++ second, List.append_assoc _ _ _, List.forall_mem_append.mpr ⟨new, fun source member => ?_⟩⟩
  have free := new' source member
  rw [has_append, Bool.or_eq_false_iff] at free
  exact free.1

theorem Extends.record (sources : Sources) (path : Path) (text : String) :
    Extends sources (sources.record path text) := by
  rw [Sources.record]
  split
  · exact .refl sources
  · rename_i free
    exact ⟨_, rfl, List.forall_mem_singleton.mpr (by simpa using free)⟩

/-- Without the files that were added the record is as it was. -/
theorem Extends.beside {before after : Sources} (extends' : Extends before after) {hides : Path → Bool}
    (added : ∀ path, after.has path = true → before.has path = false → hides path = true) :
    Beside hides after before := by
  obtain ⟨more, rfl, new⟩ := extends'
  have nothing : without hides more = [] := by
    refine List.filter_eq_nil_iff.mpr fun source member => ?_
    have recorded : (before ++ more).has source.path = true :=
      has_iff.mpr ⟨source, List.mem_append_right _ member, Path.same_self source.path⟩
    rw [added source.path recorded (new source member)]
    decide
  rw [Beside, without, without, List.filter_append]
  exact (List.append_nil _).symm.trans (congrArg _ nothing.symm)

end Sources

namespace Evaluation

/-- Nothing changes but the record of the files that were read. -/
def Reads (before after : Evaluation) : Prop :=
  ∃ sources, before.session.sources.Extends sources ∧
    after = { before with session := { before.session with sources } }

theorem Reads.refl (state : Evaluation) : Reads state state := ⟨state.session.sources, .refl _, rfl⟩

variable {context : RecipeContext} {before after : Evaluation} {line : Nat} {deeper : Deeper}

section Texts

variable (texts : ∀ {context expression before text after},
  deeper.expression context expression before = .ok (.text text) after → Reads before after)
include texts

theorem loadValue_reads {relative text : String}
    (run : loadValue deeper context line relative before = .ok (.text text) after) : before.Reads after := by
  obtain ⟨path, content, expression, session, inner, _, _, reading, _, ran, rfl⟩ := (loadValue_eq_ok _ _ _ _).mp run
  obtain ⟨_, rfl⟩ := (Session.read_eq_ok _ _ _ _ _).mp reading
  obtain ⟨sources, more, rfl⟩ := texts ran
  exact ⟨sources, (Sources.Extends.record _ path content).trans more, rfl⟩

/-- An expression that stands for a text does nothing but read files. -/
theorem evaluate_reads {expression : Expression} {text : String}
    (run : evaluate deeper context line expression before = .ok (.text text) after) : before.Reads after := by
  cases expression with
  | load path => exact loadValue_reads texts run
  | interpolated parts =>
    obtain ⟨_, _, _, rfl⟩ := evaluate_interpolated_eq_ok.mp run
    exact .refl after
  | reference name =>
    obtain ⟨_, rfl⟩ := evaluate_reference_eq_ok.mp run
    exact .refl after
  | null | bool | int | float | text =>
    obtain ⟨_, rfl⟩ := (pure_eq_ok _ _ _ _).mp run
    exact .refl _
  | list items =>
    obtain ⟨_, _, _, finished⟩ := (bind_eq_ok _ _ _ _ _).mp run
    cases ((pure_eq_ok _ _ _ _).mp finished).1
  | map entries =>
    obtain ⟨_, _, _, finished⟩ := (bind_eq_ok _ _ _ _ _).mp run
    cases ((pure_eq_ok _ _ _ _).mp finished).1
  | block name blockLine body =>
    obtain ⟨_, _, _, finished⟩ := (bind_eq_ok _ _ _ _ _).mp run
    cases ((pure_eq_ok _ _ _ _).mp finished).1

/-- So does an argument that stands for a text. -/
theorem evaluateItems_reads {items : List Expression} {text : String}
    (run : evaluateItems deeper context line items before = .ok [.text text] after) : before.Reads after := by
  cases items with
  | nil => cases ((pure_eq_ok _ _ _ _).mp run).1
  | cons first rest =>
    rw [evaluateItems] at run
    obtain ⟨value, between, head, run⟩ := (bind_eq_ok _ _ _ _ _).mp run
    obtain ⟨others, _, tail, finished⟩ := (bind_eq_ok _ _ _ _ _).mp run
    obtain ⟨same, rfl⟩ := (pure_eq_ok _ _ _ _).mp finished
    obtain ⟨rfl, rfl⟩ := List.cons.inj same
    cases rest with
    | nil =>
      obtain ⟨_, rfl⟩ := (pure_eq_ok _ _ _ _).mp tail
      exact evaluate_reads texts head
    | cons second rest =>
      rw [evaluateItems] at tail
      obtain ⟨_, _, _, tail⟩ := (bind_eq_ok _ _ _ _ _).mp tail
      obtain ⟨_, _, _, finished⟩ := (bind_eq_ok _ _ _ _ _).mp tail
      cases ((pure_eq_ok _ _ _ _).mp finished).1

end Texts

theorem upTo_reads (depth : Nat) {context : RecipeContext} {expression : Expression} {before after : Evaluation}
    {text : String} (run : (Deeper.upTo depth).expression context expression before = .ok (.text text) after) :
    before.Reads after := by
  induction depth generalizing context expression before after text with
  | zero => exact absurd run (throw_ne_ok _ _ _ _)
  | succ depth inductionHypothesis => exact evaluate_reads inductionHypothesis run

/-- The same open blocks, which counted a declaration each time. -/
inductive SameCounted : List Scope → List Scope → Prop
  | outside : SameCounted [] []
  | inside {scope : Scope} {outer : List Scope} {position : Nat} (counted : scope.position ≠ 0)
    (counted' : position ≠ 0) : SameCounted (scope :: outer) ({ scope with position } :: outer)

theorem countDeclaration_counts {scope : Scope} {outer : List Scope} (opened : before.scopes = scope :: outer)
    (run : countDeclaration before = .ok () after) :
    after = { before with scopes := { scope with position := scope.position + 1 } :: outer } := by
  obtain rfl := (modify_eq_ok _ _ _ _).mp run
  rw [mapInnermost, opened]

/-- Declarations in an open block are counted. -/
theorem forM_evaluateInPlace_counts {depth : Nat} {declarations : List Declaration} (some : declarations ≠ [])
    (inside : before.scopes ≠ [])
    (run : declarations.forM (evaluateInPlace (Deeper.upTo depth) context) before = .ok () after) :
    ∃ scope outer, after.scopes = scope :: outer ∧ scope.position ≠ 0 := by
  induction declarations generalizing before with
  | nil => exact absurd rfl some
  | cons first rest inductionHypothesis =>
    obtain ⟨_, between, head, tail⟩ := (bind_eq_ok _ _ _ _ _).mp run
    have blocks := (evaluateInPlace_runs (Deeper.upTo_sound depth) first head).blocks
    have open' : between.scopes ≠ [] := fun none => inside (blocks.eq_nil_iff.mp none)
    cases rest with
    | cons second rest => exact inductionHypothesis (by simp) open' tail
    | nil =>
      obtain ⟨_, rfl⟩ := (pure_eq_ok _ _ _ _).mp tail
      obtain ⟨name, line, body⟩ := first
      rw [evaluateInPlace_inside inside, evaluateStatement] at head
      obtain ⟨_, done, _, counted⟩ := (bind_eq_ok _ _ _ _ _).mp head
      cases opened : done.scopes with
      | nil =>
        obtain rfl := (modify_eq_ok _ _ _ _).mp counted
        rw [mapInnermost, opened] at open'
        exact absurd opened open'
      | cons scope outer =>
        rw [countDeclaration_counts opened counted]
        exact ⟨_, outer, rfl, Nat.succ_ne_zero _⟩

/-- The fragment that was entered, and the files that were read to get there. -/
def wayTo (context : RecipeContext) (before inside : Evaluation) (file : Path) : Bool :=
  (inside.currentFile context).same file ||
    inside.session.sources.has file && !before.session.sources.has file

theorem wayTo_hides (before inside : Evaluation) : Sources.Hides (wayTo context before inside) := by
  intro path other same
  rw [wayTo, wayTo, Path.same_hides _ same, Sources.has_hides _ same, Sources.has_hides _ same]

section Load

variable {depth : Nat} {arguments : List Expression} {declarations : List Declaration} {inside inner : Evaluation}

/-- What is there when a fragment is entered. -/
structure Enters (before : Evaluation) (path : Path) (session : Session) : Prop where
  active : session.active = path :: before.session.active
  parsed : ∀ file, file.same path = false → session.parsed? file = before.session.parsed? file
  sources : before.session.sources.Extends session.sources

theorem openFragment_enters
    (opened : openFragment (Deeper.upTo depth) context line arguments before = .ok declarations inside) :
    ∃ path session, inside = before.entering path session ∧ before.Enters path session := by
  obtain ⟨relative, between, path, session, ready, _, _, parsing, rfl⟩ := (openFragment_eq_ok _ _ _).mp opened
  obtain ⟨sources, read, rfl⟩ := evaluateItems_reads (upTo_reads depth) ready
  refine ⟨path, session, rfl, ?_⟩
  rcases (Session.parseFile_eq_ok _ _ _ _ _).mp parsing with ⟨_, rfl⟩ | ⟨_, text, _, _, rfl⟩
  · exact ⟨rfl, fun _ _ => rfl, read⟩
  · refine ⟨rfl, fun file foreign => ?_, read.trans (.record _ path text)⟩
    have other : path.same file = false := Bool.eq_false_iff.mpr fun same => by
      rw [Path.same_symm same] at foreign
      cases foreign
    simp only [Session.parsed?, List.find?_cons, other]

/-- A fragment is entered from a state that may know nothing of it. -/
theorem Enters.lacks {path : Path} {session : Session} (enters : before.Enters path session) :
    (before.entering path session).Lacks path (wayTo context before (before.entering path session))
      ⟨session.active, before.session.active, path :: before.fragments, before.fragments⟩ before := by
  refine ⟨before.session, rfl, rfl, rfl, rfl, fun file foreign => (enters.parsed file foreign).symm, ?_⟩
  refine enters.sources.beside fun file recorded new => ?_
  have read : (before.entering path session).session.sources.has file = true := recorded
  rw [wayTo, read, new]
  exact Bool.or_true _

theorem Enters.fits {path : Path} {session : Session} (enters : before.Enters path session)
    (sibling : (before.entering path session).currentDirectory context = before.currentDirectory context) :
    Around.Fits path ⟨session.active, before.session.active, path :: before.fragments, before.fragments⟩ context := by
  refine ⟨⟨⟨path, ?_, Path.same_self path⟩, fun file inside => ?_⟩, fun _ => sibling.symm⟩
  · rw [enters.active]
    exact List.mem_cons_self
  · rw [enters.active, List.any_cons, Bool.or_eq_true]
    exact .inr inside

/-- The declarations of a fragment do the same in place. -/
theorem Enters.follows {path : Path} {session : Session} (enters : before.Enters path session)
    (sibling : (before.entering path session).currentDirectory context = before.currentDirectory context)
    (run : declarations.forM (evaluateInPlace (Deeper.upTo depth) context) (before.entering path session) =
      .ok () inner) :
    ∃ last, declarations.forM (evaluateInPlace (Deeper.upTo (depth + 1)) context) before =
        .ok () { inner with session := last, fragments := before.fragments } ∧
      last.sources.without (wayTo context before (before.entering path session)) =
        inner.session.sources.without (wayTo context before (before.entering path session)) := by
  have whole : Sources.Hides (wayTo context before (before.entering path session)) := wayTo_hides _ _
  have reaches := lacking_reaches path whole (Nat.le_succ depth)
  have closed := lacking_closed path whole
  obtain ⟨_, ran, last, rfl, _, lacks⟩ := closed.forM (closed.evaluateInPlace reaches trivial) declarations _
    (enters.fits sibling) enters.lacks run
  exact ⟨last, ran, lacks.sources⟩

/-- No other files are read on the way to a fragment that is named by a text. -/
theorem wayTo_of_text {text : String}
    (opened : openFragment (Deeper.upTo depth) context line [.text text] before = .ok declarations inside) :
    wayTo context before inside = (inside.currentFile context).same := by
  obtain ⟨relative, between, path, session, ready, _, _, parsing, rfl⟩ := (openFragment_eq_ok _ _ _).mp opened
  obtain ⟨_, rfl⟩ := (pure_eq_ok _ _ _ _).mp ready
  funext file
  have only : session.sources.has file = true → before.session.sources.has file = true ∨ path.same file = true := by
    rcases (Session.parseFile_eq_ok _ _ _ _ _).mp parsing with ⟨_, rfl⟩ | ⟨_, content, _, _, rfl⟩
    · exact .inl
    · exact Sources.has_record.mp
  show (path.same file || session.sources.has file && !before.session.sources.has file) = path.same file
  cases known : session.sources.has file with
  | false => exact Bool.or_false _
  | true =>
    rcases only known with old | same
    · rw [old]
      exact Bool.or_false _
    · rw [same]
      rfl

/-- Loading a fragment is evaluating its declarations in place. -/
theorem load_in_place {loaded : Evaluation}
    (opened : openFragment (Deeper.upTo depth) context line arguments before = .ok declarations inside)
    (some : declarations ≠ []) (sibling : inside.currentDirectory context = before.currentDirectory context)
    (run : evaluateInPlace (Deeper.upTo depth) context (.mk loadWord line (.arguments arguments)) before =
      .ok () loaded) :
    ∃ placed, declarations.forM (evaluateInPlace (Deeper.upTo depth) context) before = .ok () placed ∧
      SameCounted loaded.scopes placed.scopes ∧ placed.locals = loaded.locals ∧ placed.root = loaded.root ∧
      placed.session.sources.without (wayTo context before inside) =
        loaded.session.sources.without (wayTo context before inside) ∧
      ∀ text, arguments = [.text text] → placed.session.sources.without (inside.currentFile context).same =
        loaded.session.sources.without (inside.currentFile context).same := by
  obtain ⟨_, _, inner, opened', ran, after⟩ := evaluateInPlace_load_counts run
  obtain ⟨rfl, rfl⟩ := EStateM.Result.ok.inj (opened.symm.trans opened')
  have only (text : String) (argument : arguments = [.text text]) :
      wayTo context before inside = (inside.currentFile context).same := by
    subst argument
    exact wayTo_of_text opened
  obtain ⟨path, session, rfl, enters⟩ := openFragment_enters opened
  cases depth with
  | zero => exact absurd ran (throw_ne_ok _ _ _ _)
  | succ depth =>
    obtain ⟨last, placed, sources⟩ := enters.follows sibling ran
    refine ⟨_, placed, ?_⟩
    rcases after with ⟨outside, rfl⟩ | ⟨open', counted⟩
    · have blocks := (forM_runs (fun _ _ _ => evaluateInPlace_runs (Deeper.upTo_sound _) _) declarations placed).blocks
      have closed : inner.scopes = [] := blocks.eq_nil_iff.mpr outside
      refine ⟨?_, rfl, rfl, sources, fun text argument => only text argument ▸ sources⟩
      show SameCounted inner.scopes inner.scopes
      rw [closed]
      exact .outside
    · obtain ⟨scope, outer, opened, position⟩ := forM_evaluateInPlace_counts some open' placed
      have opened : inner.leaving.scopes = scope :: outer := opened
      rw [countDeclaration_counts opened counted]
      refine ⟨?_, rfl, rfl, sources, fun text argument => only text argument ▸ sources⟩
      show SameCounted _ inner.scopes
      rw [show inner.scopes = scope :: outer from opened]
      exact .inside (Nat.succ_ne_zero _) position

end Load

/-- The fragment that a load leads to, what the load ends with, and what its declarations end with in place. -/
def bothWays (depth : Nat) (context : RecipeContext) (arguments : List Expression) (before : Evaluation) :
    Option (List Declaration × Evaluation × Evaluation × Option Evaluation) :=
  match openFragment (Deeper.upTo depth) context 1 arguments before,
    evaluateInPlace (Deeper.upTo depth) context (.mk loadWord 1 (.arguments arguments)) before with
  | .ok declarations inside, .ok () loaded =>
    match declarations.forM (evaluateInPlace (Deeper.upTo depth) context) before with
    | .ok () placed => some (declarations, inside, loaded, some placed)
    | .error _ _ => some (declarations, inside, loaded, none)
  | _, _ => none

theorem bothWays_eq_some {depth : Nat} {arguments : List Expression} {declarations : List Declaration}
    {inside loaded : Evaluation} {placed : Option Evaluation}
    (both : bothWays depth context arguments before = some (declarations, inside, loaded, placed)) :
    openFragment (Deeper.upTo depth) context 1 arguments before = .ok declarations inside ∧
      evaluateInPlace (Deeper.upTo depth) context (.mk loadWord 1 (.arguments arguments)) before = .ok () loaded := by
  rw [bothWays.eq_def] at both
  split at both
  · rename_i opened run
    split at both
    · cases both
      exact ⟨opened, run⟩
    · cases both
      exact ⟨opened, run⟩
  · cases both

/-- A fragment that is loaded in an open block and loads other ones. -/
theorem load_in_place_nested :
    let files : FileTree := ⟨[(["r"], .directory),
      (["r", "part.recipe"], .file (.text "name load(\"name.recipe\")\nload \"more.recipe\"\n")),
      (["r", "name.recipe"], .file (.text "\"s\"\n")),
      (["r", "more.recipe"], .file (.text "icon \"i\"\n"))], ["r"]⟩
    let context : RecipeContext := ⟨Job.plain files .standard, ⟨"/r/a-service.recipe"⟩, .empty⟩
    let before : Evaluation :=
      ⟨⟨[], [context.recipeFile], []⟩, [], [], [.opening (.fresh .service)], none⟩
    let arguments : List Expression := [.text "part.recipe"]
    ∃ declarations inside loaded placed,
      openFragment (Deeper.upTo 2) context 1 arguments before = .ok declarations inside ∧ declarations ≠ [] ∧
      inside.currentDirectory context = before.currentDirectory context ∧
      evaluateInPlace (Deeper.upTo 2) context (.mk loadWord 1 (.arguments arguments)) before = .ok () loaded ∧
      declarations.forM (evaluateInPlace (Deeper.upTo 2) context) before = .ok () placed ∧
      SameCounted loaded.scopes placed.scopes ∧ placed.locals = loaded.locals ∧ placed.root = loaded.root ∧
      placed.session.sources.without (inside.currentFile context).same =
        loaded.session.sources.without (inside.currentFile context).same := by
  intro files context before arguments
  have ends : (bothWays 2 context arguments before).map (fun ways =>
      (ways.1.length, ways.2.1.currentDirectory context)) = some (2, ⟨"/r"⟩) := by decide +kernel
  obtain ⟨⟨declarations, inside, loaded, _⟩, both, ends⟩ := Option.map_eq_some_iff.mp ends
  obtain ⟨opened, run⟩ := bothWays_eq_some both
  obtain ⟨count, directory⟩ := Prod.mk.inj ends
  have some : declarations ≠ [] := by
    rintro rfl
    cases count
  have sibling : inside.currentDirectory context = before.currentDirectory context :=
    directory.trans (by decide +kernel)
  obtain ⟨placed, ran, scopes, locals, root, _, sources⟩ := load_in_place opened some sibling run
  exact ⟨declarations, inside, loaded, placed, opened, some, sibling, run, ran, scopes, locals, root, sources _ rfl⟩

/-- The path of a fragment that stands in a file: that file is read too. And a recipe with a relative path: its
directory has no name, so that nothing can be extended by an empty reference. -/
theorem load_differs :
    let files : FileTree := ⟨[(["w"], .directory), (["w", "n.recipe"], .file (.text "\"part.recipe\"\n")),
      (["w", "part.recipe"], .file (.text "service \x7b\n name \"s\"\n\x7d\n"))], ["w"]⟩
    let context : RecipeContext := ⟨Job.plain files .standard, ⟨"/w/a-service.recipe"⟩, .empty⟩
    let relativeFiles : FileTree := ⟨[(["w"], .directory),
      (["w", "b-service.recipe"], .file (.text "service \x7b\n name \"s\"\n\x7d\n")),
      (["w", "part.recipe"], .file (.text "service \x7b\n extend \"\"\n\x7d\n"))], ["w"]⟩
    let relative : RecipeContext := ⟨Job.plain relativeFiles .standard, ⟨"a-service.recipe"⟩, .empty⟩
    let before (context : RecipeContext) := start ⟨[], [context.recipeFile], []⟩
    (∃ declarations inside loaded placed,
      bothWays 2 context [.load "n.recipe"] (before context) = some (declarations, inside, loaded, some placed) ∧
      declarations ≠ [] ∧ inside.currentDirectory context = (before context).currentDirectory context ∧
      placed.session.sources.without (inside.currentFile context).same ≠
        loaded.session.sources.without (inside.currentFile context).same) ∧
    ∃ declarations inside loaded,
      bothWays 2 relative [.text "part.recipe"] (before relative) = some (declarations, inside, loaded, none) ∧
      declarations ≠ [] ∧ inside.currentDirectory relative = FileTree.pathOf relativeFiles.workingDirectory := by
  intro files context relativeFiles relative before
  constructor
  · have ends : (bothWays 2 context [.load "n.recipe"] (before context)).map (fun (declarations, inside, loaded, placed) =>
        (declarations.length, inside.currentDirectory context,
          (loaded.session.sources.without (inside.currentFile context).same).length,
          placed.map fun placed => (placed.session.sources.without (inside.currentFile context).same).length)) =
        some (1, ⟨"/w"⟩, 1, some 0) := by decide +kernel
    obtain ⟨⟨declarations, inside, loaded, placed⟩, both, ends⟩ := Option.map_eq_some_iff.mp ends
    obtain ⟨count, directory, outside, place⟩ := by simpa only [Prod.mk.injEq] using ends
    obtain ⟨placed, rfl, nothing⟩ := Option.map_eq_some_iff.mp place
    refine ⟨declarations, inside, loaded, placed, both, ?_, directory.trans (by decide +kernel), ?_⟩
    · rintro rfl
      cases count
    · intro same
      rw [same, outside] at nothing
      cases nothing
  · have ends : (bothWays 2 relative [.text "part.recipe"] (before relative)).map (fun (declarations, inside, _, placed) =>
        (declarations.length, inside.currentDirectory relative, placed.isNone)) =
        some (1, ⟨"/w"⟩, true) := by decide +kernel
    obtain ⟨⟨declarations, inside, loaded, placed⟩, both, ends⟩ := Option.map_eq_some_iff.mp ends
    obtain ⟨count, directory, fails⟩ := by simpa only [Prod.mk.injEq] using ends
    obtain rfl : placed = none := Option.isNone_iff_eq_none.mp fails
    refine ⟨declarations, inside, loaded, both, ?_, directory.trans (by decide +kernel)⟩
    rintro rfl
    cases count

end Evaluation

end DeployRecipe
