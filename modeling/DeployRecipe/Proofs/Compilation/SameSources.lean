import DeployRecipe.Proofs.Compilation.Agreement

/-!
The files that a compilation records stand for its result: in two trees in which the same files are recorded, a
file compiles to the same root, whatever else is in the trees.
-/

namespace DeployRecipe

/-- A file is opened alike in two trees in which the same files are read. -/
theorem Job.opening_alike {job : Job} {files : FileTree} {path : Path} {first second : Sources} {text text' : String}
    {context context' : RecipeContext} {declarations declarations' : List Declaration} {session session' : Session}
    (matching : job.files.Matching files first second) (distinct : second.Distinct) (plain : path.IsPlain)
    (recorded : first.has path = true) (read : job.files.readText path = .ok text)
    (read' : files.readText path = .ok text')
    (opened : job.opening path text Session.empty = .ok (context, declarations) session)
    (opened' : ({ job with files } : Job).opening path text' Session.empty = .ok (context', declarations') session')
    (inside : session.sources ⊆ first) (inside' : session'.sources ⊆ second) :
    context' = context.inTree files ∧ declarations' = declarations ∧ session' = session := by
  obtain rfl := matching.text_eq plain recorded read read'
  obtain ⟨environment, built, declared, laid, rfl, rfl⟩ := (opening_eq_ok _ _ _ _ _ _).mp opened
  obtain ⟨environment', built', declared', laid', rfl, rfl⟩ := (opening_eq_ok _ _ _ _ _ _).mp opened'
  obtain rfl := Except.ok.inj (declared'.symm.trans declared)
  have exact {tree : FileTree} (read : tree.readText path = .ok text') :
      Sources.Exact tree (Sources.record [] path text') :=
    Sources.Exact.record nofun read
  have same : ({ job with files } : Job).inputs path = job.inputs path := rfl
  rw [same] at laid'
  have equal := EnvironmentInputs.build_eq matching plain laid inside laid' inside' fun option given text more =>
    EnvironmentInputs.option_text_eq matching.alike matching.apart distinct (exact read) (exact read') laid inside laid'
      inside' given
  rw [equal, laid] at laid'
  obtain ⟨rfl, rfl⟩ := EStateM.Result.ok.inj laid'
  exact ⟨rfl, rfl, rfl⟩

namespace Compiled

variable {job : Job} {files : FileTree} {path : Path} {one other : Compiled}

/-- The root is the same in the tree in which files may lead to files more often. -/
theorem root_eq_of_depth (success : ofFile job path = .ok one) (success' : ofFile { job with files } path = .ok other)
    (less : job.depth ≤ ({ job with files } : Job).depth)
    (matching : job.files.Matching files one.sources other.sources)
    (roots : ∀ root ∈ job.settings.searchRoots, ".." ∉ root.pieces)
    (straight : ∀ event ∈ job.eventsOfFile path, event.Straight) : other.root = one.root := by
  obtain ⟨_, _, own⟩ := ofFile_sources success
  obtain ⟨_, distinct, _⟩ := ofFile_sources success'
  obtain ⟨text, context, declarations, session, last, found, read, opened, run, sources⟩ := ofFile_evaluates success
  obtain ⟨text', context', declarations', session', last', found', read', opened', run', sources'⟩ :=
    ofFile_evaluates success'
  have plain : one.file.IsPlain := by
    obtain ⟨place, located, absolute⟩ := FileTree.canonical_eq_ok.mp found
    exact absolute ▸ .of_pathOf (FileTree.names_of_locate matching.proper located)
  rw [FileTree.canonical_unique matching.here found found'] at read' opened'
  have inside : session.sources ⊆ one.sources := sources ▸ (Evaluation.evaluateRecipe_grows run).sources.keeps
  have inside' : session'.sources ⊆ other.sources := sources' ▸ (Evaluation.evaluateRecipe_grows run').sources.keeps
  obtain ⟨rfl, rfl, rfl⟩ :=
    Job.opening_alike matching distinct plain own read read' opened opened' inside inside'
  obtain ⟨_, recorded, _⟩ := Job.opening_grows read opened
  obtain ⟨environment, _, _, _, rfl, _⟩ := (Job.opening_eq_ok _ _ _ _ _ _).mp opened
  rw [Job.eventsOfFile_eq found read, Job.events, Trace.followed_of_ok opened] at straight
  have upright : RecipeContext.Upright job.files ⟨job, one.file, environment⟩ := ⟨rfl, plain, roots⟩
  have whole := (Evaluation.agreement_closed matching).evaluateRecipe
    (Evaluation.agreement_reaches matching less) upright declarations'
  exact (whole.alike recorded straight run run' (fun _ member => sources ▸ member)
    (fun _ member => sources' ▸ member)).1

/-- A service and the base that it extends, which stands below another directory, in a tree with more files. -/
def searchedTree (more : List (Location × FileNode)) : FileTree where
  nodes := [(["r"], .directory),
    (["r", "web-service.recipe"], .file (.text "service \x7b\n extend \"base\"\n\x7d\n")), (["lib"], .directory),
    (["lib", "base"], .directory),
    (["lib", "base", "base-service.recipe"], .file (.text "service \x7b\n name \"web\"\n\x7d\n"))] ++ more
  workingDirectory := ["r"]

/-- A compilation that searches for bases in the other directory, with one more file next to the base. -/
def besideBase : Job :=
  .plain (searchedTree [(["lib", "base", "notes"], .file (.text "one"))])
    { Settings.standard with searchRoots := [⟨"/lib"⟩] }

/-- A tree with a file and a directory next to the service. -/
def besideService : FileTree :=
  searchedTree [(["r", "more-service.recipe"], .file (.text "two")), (["r", "web"], .directory)]

end Compiled

end DeployRecipe
