import DeployRecipe.Proofs.Compilation.Ending
import DeployRecipe.Proofs.Search

/-!
Compiling a file ends, whatever files it leads to. No file is compiled inside itself, so there are never more
files being compiled than there are files, and the bound for how often files lead to files is not reached.
-/

namespace DeployRecipe

open Running

/-- The bound for how often files lead to files is above the number of files. -/
theorem Job.length_fileLocations_le (job : Job) : job.files.fileLocations.length ≤ job.depth := by
  have files : job.files.fileLocations.length ≤ job.files.nodes.length :=
    (List.dedup_sublist _).length_le.trans (List.length_filterMap_le _ _)
  rw [Job.depth, FileTree.pathLimit]
  omega

theorem FileTree.mem_fileLocations_of_readText {tree : FileTree} {path : Path} {text : String}
    (plain : path.IsPlain) (read : tree.readText path = .ok text) : path.moves ∈ tree.fileLocations := by
  obtain ⟨place, located, node⟩ := readText_eq_ok.mp read
  exact plain.place located ▸ FileTree.mem_fileLocations node

/-- A service is looked for below the directory of the recipe. -/
theorem Evaluation.serviceDirectory?_below {context : RecipeContext} {state : Evaluation} {name : String}
    {directory : Path} (found : state.serviceDirectory? context = some (name, directory)) :
    ∃ parent, context.recipeFile.parent? = some parent ∧ directory = parent.join ⟨name⟩ := by
  rw [serviceDirectory?] at found
  split at found
  · rw [Option.ite_none_right_eq_some] at found
    simp only [Option.bind_eq_bind, Option.bind_eq_some_iff, Option.ite_none_right_eq_some,
      Option.some.injEq, Prod.mk.injEq] at found
    obtain ⟨-, name, -, parent, above, -, rfl, rfl⟩ := found
    exact ⟨parent, above, rfl⟩
  · cases found

namespace Moment

theorem serviceFile?_of_service? {moment : Moment} {path : Path} (found : moment.serviceFile? = some path) :
    ∃ name directory, moment.service? = some (name, directory) := by
  cases moment with
  | entered session => cases found
  | named context state =>
    obtain ⟨name, directory, named, _⟩ := serviceFile?_eq_some.mp found
    exact ⟨name, directory, named⟩

/-- No service is loaded. -/
theorem tame_of_service? {job : Job} {moment : Moment} (alone : moment.service? = none) : moment.Tame job := by
  cases moment with
  | entered session => exact trivial
  | named context state =>
    intro _ path found
    obtain ⟨name, directory, named⟩ := serviceFile?_of_service? found
    rw [alone] at named
    cases named

/-- A name that does not lead up leads from a plain path to a plain path. -/
theorem tame_of_straight {job : Job} {moment : Moment} (named : job.files.Named)
    (straight : ∀ name directory, moment.service? = some (name, directory) → ".." ∉ (Path.mk name).pieces) :
    moment.Tame job := by
  cases moment with
  | entered session => exact trivial
  | named context state =>
    intro within path found
    obtain ⟨name, directory, service, searched⟩ := serviceFile?_eq_some.mp found
    have plain : directory.IsPlain := by
      obtain ⟨parent, above, rfl⟩ := Evaluation.serviceDirectory?_below service
      exact (within.plain.parent above).join (straight name _ service)
    rw [within.job] at searched
    exact FileTree.theFileEndingIn_plain named plain (by decide +kernel) searched

end Moment

namespace Job

variable {job : Job} {path : Path} {text : String} {places : List Location}

theorem evaluate_eq_upTo (job : Job) (path : Path) (text : String) :
    job.evaluate path text = job.evaluateUpTo job.depth path text := by
  simp only [evaluate, evaluateUpTo, opening, bind_assoc, pure_bind]

/-- Getting ready does not lead to other files. -/
theorem opening_spares {error : CompileError} {after : Session}
    (failed : job.opening path text Session.empty = .error error after) : ¬ error.OfNesting := by
  rw [opening, bind_of_ok (Session.enter_of_free rfl)] at failed
  refine (Calm.bind (Session.recording_calm (recordSource_calm path text)) fun _ =>
    (Session.parseText_calm path text).bind fun declarations =>
      (Session.recording_calm (EnvironmentInputs.build_calm _ _)).bind fun environment => .pure _)
    _ |>.spares error after failed

/-- The evaluation of a recipe with the given text settles what it starts. -/
theorem evaluate_settled (proper : job.files.Proper) (files : job.files.fileLocations ⊆ places)
    (plain : path.IsPlain) (inside : path.moves ∈ places) {depth : Nat} (enough : places.length ≤ job.depth + 1)
    (enough' : places.length ≤ depth + 1) (tame : ∀ moment ∈ job.moments path text, moment.Tame job) :
    Settled Session.active places.length [path] (job.moments path text)
      (job.evaluate path text Session.empty) (job.evaluateUpTo depth path text Session.empty) := by
  have enclosed : Enclosed places [path] := Enclosed.nil.push plain inside rfl
  rw [evaluate_eq_upTo, evaluateUpTo, evaluateUpTo]
  rw [moments] at tame ⊢
  refine .cons enclosed.length_le rfl ?_
  cases opened : job.opening path text Session.empty with
  | error error after =>
    rw [bind_of_error opened, bind_of_error opened, followed, opened]
    exact .of_quiet (.error (opening_spares opened))
  | ok pair session =>
    obtain ⟨context, declarations⟩ := pair
    rw [bind_of_ok opened, bind_of_ok opened]
    simp only [followed, opened] at tame ⊢
    obtain ⟨environment, sources, _, _, rfl, rfl⟩ := (opening_eq_ok _ _ _ _ _ _).mp opened
    have situated : Situated job places (places.length - 1) (Deeper.upTo job.depth) (Deeper.upTo depth)
        (Watch.upTo job.depth) [path] ⟨job, path, environment⟩ :=
      ⟨proper, files, enclosed, by rw [List.length_singleton]; omega, ⟨rfl, plain⟩,
        Deeper.upTo_settles proper files (by omega) (by omega)⟩
    exact Evaluation.evaluateRecipe_settles situated declarations _ rfl fun moment member =>
      tame moment (List.mem_cons_of_mem _ member)

end Job

namespace Compiled

variable {job : Job} {path : Path} {text : String}

/-- The validation of a recipe does not lead to other files. -/
theorem ofText_spares {bad : CompileError → Prop} (nesting : ∀ error, bad error → error.OfNesting)
    (evaluated : ∀ error after, job.evaluate path text Session.empty = .error error after → ¬ bad error) :
    Spares bad (ofText job path text) := by
  unfold ofText
  cases run : job.evaluate path text Session.empty with
  | error error after => exact .error (evaluated error after run)
  | ok root session =>
    dsimp only
    split
    · cases valid : Validation.validate ⟨job.files, path⟩ root with
      | ok done => exact .ok _
      | error kind => exact .error (mt (nesting _) (Validation.validate_spares _ _ kind valid))
    · exact .ok _

theorem ofText_of_evaluate {error : CompileError} {after : Session}
    (failed : job.evaluate path text Session.empty = .error error after) :
    ofText job path text = .error error := by
  rw [ofText, failed]

/-- To compile a file is to compile the text that stands at its absolute path, if there is one. -/
theorem ofFile_eq (proper : job.files.Proper) (file : Path) :
    (Spares CompileError.OfNesting (ofFile job file) ∧ job.momentsOfFile file = [] ∧
        ∀ path text, job.files.canonical file = .ok path → job.files.readText path ≠ .ok text) ∨
      ∃ path text, job.files.canonical file = .ok path ∧ job.files.readText path = .ok text ∧ path.IsPlain ∧
        ofFile job file = ofText job path text ∧ job.momentsOfFile file = job.moments path text := by
  rw [ofFile, Job.momentsOfFile]
  by_cases present : job.files.has file = true
  · rw [if_pos present, if_pos present]
    cases found : job.files.canonical file with
    | error error => exact .inl ⟨.error (by rintro ⟨⟩), rfl, by rintro _ _ ⟨⟩⟩
    | ok path =>
      dsimp only
      cases read : job.files.readText path with
      | error error =>
        refine .inl ⟨.error (job.files.readText_spares path error read), rfl, ?_⟩
        rintro _ text ⟨⟩ again
        rw [read] at again
        cases again
      | ok text =>
        obtain ⟨place, located, rfl⟩ := FileTree.canonical_eq_ok.mp found
        exact .inr ⟨_, text, rfl, read, .of_pathOf (FileTree.names_of_locate proper located), rfl, rfl⟩
  · rw [if_neg present, if_neg present]
    exact .inl ⟨.error (by rintro ⟨⟩), rfl, fun path text found read =>
      present (FileTree.canonical_of_readText proper found read).1⟩

/-- Where no service of an application is loaded from a directory, compiling a file ends: there are never more
files being compiled than there are files, and files may lead to files no more often than that. -/
theorem ofFile_ends (proper : job.files.Proper) (file : Path)
    (alone : ∀ moment ∈ job.momentsOfFile file, moment.service? = none) :
    (∀ error, ofFile job file = .error error → error.kind ≠ .tooDeep) ∧
      (∀ moment ∈ job.momentsOfFile file,
        moment.session.active.length ≤ job.files.fileLocations.length) ∧
      ∀ path text, job.files.canonical file = .ok path → job.files.readText path = .ok text →
        ∀ depth, job.files.fileLocations.length ≤ depth + 1 →
          job.evaluateUpTo depth path text Session.empty = job.evaluate path text Session.empty := by
  rcases ofFile_eq proper file with ⟨fails, nothing, unread⟩ | ⟨path, text, found, read, plain, same, moments⟩
  · rw [nothing]
    exact ⟨fun error failed => mt CompileError.OfDepth.ofNesting (fails error failed), List.forall_mem_nil _,
      fun path text found read => absurd read (unread path text found)⟩
  · rw [moments] at alone ⊢
    have inside : path.moves ∈ job.files.fileLocations := FileTree.mem_fileLocations_of_readText plain read
    have settled (depth : Nat) (enough : job.files.fileLocations.length ≤ depth + 1) :=
      job.evaluate_settled proper (List.Subset.refl _) plain inside
        (Nat.le_succ_of_le job.length_fileLocations_le) enough fun moment member =>
          Moment.tame_of_service? (alone moment member)
    have whole := settled job.depth (Nat.le_succ_of_le job.length_fileLocations_le)
    refine ⟨fun error failed => ?_, whole.bounded, fun path' text' found' read' depth enough => ?_⟩
    · exact ofText_spares (fun _ => CompileError.OfDepth.ofNesting) whole.spares error (same.symm.trans failed)
    · obtain rfl := Except.ok.inj (found.symm.trans found')
      obtain rfl := Except.ok.inj (read.symm.trans read')
      exact (settled depth enough).same

/-- A service whose base is loaded as a fragment of itself. -/
theorem ofFile_ends_cycle :
    let derived := "service \x7b\n extend \"../r/base-service.recipe\"\n\x7d\n"
    let base := "service \x7b\n name \"base\"\n load \"./base-service.recipe\"\n\x7d\n"
    let job := Job.plain
      ⟨[(["r"], .directory), (["r", "web-service.recipe"], .file (.text derived)),
        (["r", "base-service.recipe"], .file (.text base))], ["r"]⟩ .standard
    let file : Path := ⟨"/r/./web-service.recipe"⟩
    (job.momentsOfFile file).map (fun moment => moment.session.active.length) = [1, 2, 2] ∧
      (∀ moment ∈ job.momentsOfFile file, moment.service? = none) ∧
      (∀ error, ofFile job file = .error error → error.kind ≠ .tooDeep) ∧
      (∀ moment ∈ job.momentsOfFile file, moment.session.active.length ≤ 2) ∧
      job.evaluateUpTo 1 ⟨"/r/web-service.recipe"⟩ derived Session.empty =
        job.evaluate ⟨"/r/web-service.recipe"⟩ derived Session.empty := by
  intro derived base job file
  have moments : (job.momentsOfFile file).map
      (fun moment => (moment.session.active.length, moment.service?.isNone)) =
        [(1, true), (2, true), (2, true)] := by decide +kernel
  have alone : ∀ moment ∈ job.momentsOfFile file, moment.service? = none := by
    intro moment member
    have listed := moments ▸ List.mem_map_of_mem member
    simp only [List.mem_cons, List.not_mem_nil, Prod.mk.injEq] at listed
    exact Option.isNone_iff_eq_none.mp (by tauto)
  have lengths := congrArg (List.map Prod.fst) moments
  rw [List.map_map] at lengths
  have proper : job.files.Proper := by simp [job, Job.plain, FileTree.Proper, Path.IsName, Path.isReal]
  have few : job.files.fileLocations.length ≤ 2 := by decide +kernel
  have found : job.files.canonical file = .ok ⟨"/r/web-service.recipe"⟩ := by decide +kernel
  have read : job.files.readText ⟨"/r/web-service.recipe"⟩ = .ok derived :=
    FileTree.readText_eq_ok.mpr ⟨["r", "web-service.recipe"], by decide +kernel, by decide +kernel⟩
  obtain ⟨shallow, bounded, same⟩ := ofFile_ends proper file alone
  exact ⟨lengths, alone, shallow, fun moment member => (bounded moment member).trans few,
    same _ derived found read 1 few⟩

/-- Where no name of a service that is loaded from a directory leads up, compiling a text ends, and it fails
because of a cycle if a service is to be loaded from a file that is being compiled. -/
theorem ofText_closes (proper : job.files.Proper) (named : job.files.Named) (plain : path.IsPlain)
    (straight : ∀ moment ∈ job.moments path text, ∀ name directory,
      moment.service? = some (name, directory) → ".." ∉ (Path.mk name).pieces) :
    ((∃ moment ∈ job.moments path text, moment.closes = true) →
        ∃ error, ofText job path text = .error error ∧ error.IsCircular) ∧
      (∀ error, ofText job path text = .error error → error.kind ≠ .tooDeep) ∧
      ∀ depth, job.files.fileLocations.length ≤ depth →
        job.evaluateUpTo depth path text Session.empty = job.evaluate path text Session.empty := by
  have settled (depth : Nat) (enough : job.files.fileLocations.length ≤ depth) :=
    job.evaluate_settled proper (List.subset_cons_self path.moves _) plain List.mem_cons_self
      (Nat.succ_le_succ job.length_fileLocations_le) (Nat.succ_le_succ enough) fun moment member =>
        Moment.tame_of_straight named (straight moment member)
  have whole := settled job.depth job.length_fileLocations_le
  refine ⟨fun closing => ?_, ofText_spares (fun _ => CompileError.OfDepth.ofNesting) whole.spares,
    fun depth enough => (settled depth enough).same⟩
  obtain ⟨error, after, failed, circular⟩ := whole.closes (List.any_eq_true.mpr closing)
  exact ⟨error, ofText_of_evaluate failed, circular⟩

/-- An application whose service is named after the directory of the application. -/
theorem ofText_closes_itself :
    let text := "application \x7b\n service \x7b\n  name \"./.\"\n \x7d\n\x7d\n"
    let job := Job.plain
      ⟨[(["s"], .directory), (["s", "x-service.recipe"], .file (.text text))], []⟩ .standard
    let path : Path := ⟨"/s/x-service.recipe"⟩
    (job.moments path text).map (fun moment => (moment.service?, moment.closes)) =
        [(none, false), (some ("./.", ⟨"/s/./."⟩), true)] ∧
      ∃ error, ofText job path text = .error error ∧ error.IsCircular := by
  intro text job path
  have moments : (job.moments path text).map (fun moment => (moment.service?, moment.closes)) =
      [(none, false), (some ("./.", ⟨"/s/./."⟩), true)] := by decide +kernel
  have straight : ∀ moment ∈ job.moments path text, ∀ name directory,
      moment.service? = some (name, directory) → ".." ∉ (Path.mk name).pieces := by
    intro moment member name directory found
    have listed := moments ▸ List.mem_map_of_mem member
    simp only [List.mem_cons, List.not_mem_nil, or_false, found, Prod.mk.injEq, reduceCtorEq, false_and,
      false_or, Option.some.injEq] at listed
    rw [listed.1.1]
    decide
  have closing : ∃ moment ∈ job.moments path text, moment.closes = true := by
    have listed : (some ("./.", ⟨"/s/./."⟩), true) ∈
        (job.moments path text).map (fun moment => (moment.service?, moment.closes)) := by
      rw [moments]
      exact List.mem_cons_of_mem _ List.mem_cons_self
    obtain ⟨moment, member, same⟩ := List.mem_map.mp listed
    exact ⟨moment, member, (Prod.mk.inj same).2⟩
  have proper : job.files.Proper := by simp [job, Job.plain, FileTree.Proper]
  exact ⟨moments, (ofText_closes proper (by decide +kernel) (by decide +kernel) straight).1 closing⟩

/-- The kind of entity that was expected and the one that was found, where a compilation fails because the
two differ. -/
def wrongRootType? : Except CompileError Compiled → Option (EntityKind × EntityKind)
  | .error ⟨_, _, _, .wrongRootType expected found⟩ => some (expected, found)
  | _ => none

theorem wrongRootType?_eq_some {outcome : Except CompileError Compiled} {expected found : EntityKind}
    (differ : wrongRootType? outcome = some (expected, found)) :
    ∃ error, outcome = .error error ∧ error.kind = .wrongRootType expected found := by
  rw [wrongRootType?.eq_def] at differ
  split at differ
  · obtain ⟨rfl, rfl⟩ := Prod.mk.inj (Option.some.inj differ)
    exact ⟨_, rfl, rfl⟩
  · cases differ

/-- An application that names its service by a path that leads back to it, spelled otherwise each time. -/
theorem ofFile_wrongRootType_of_closes :
    let text := "application \x7b\n name \"a\"\n service \x7b\n" ++
      "  name \"../t$\x7brecipeDir\x7d/../../../s\"\n \x7d\n\x7d\n"
    let job := { Job.plain
      ⟨[(["w"], .directory), (["w", "s"], .directory), (["w", "s", "x-service.recipe"], .file (.text text)),
        (["w", "t"], .directory), (["w", "t", "w"], .directory), (["w", "t", "w", "s"], .directory)], ["w"]⟩
      .standard with validate := some false }
    let file : Path := ⟨"/w/s/x-service.recipe"⟩
    (∃ moment ∈ job.momentsOfFile file, moment.closes = true) ∧
      ∃ error, ofFile job file = .error error ∧ error.kind = .wrongRootType .service .application := by
  intro text job file
  have closing : (job.momentsOfFile file).any Moment.closes = true := by decide +kernel
  have fails : wrongRootType? (ofFile job file) = some (.service, .application) := by decide +kernel
  exact ⟨List.any_eq_true.mp closing, wrongRootType?_eq_some fails⟩

end Compiled

end DeployRecipe
