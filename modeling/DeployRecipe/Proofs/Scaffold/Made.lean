import DeployRecipe.Proofs.Compilation.Extension
import DeployRecipe.Proofs.MadeFiles
import DeployRecipe.Proofs.Scaffold.Compiling

/-!
What the command makes for a service compiles: the recipe and its properties are found next to each other, by the
absolute path of the recipe.
-/

namespace DeployRecipe.Command

open FileTree

variable {files made : FileTree} {directory : Path} {name output : String}

section Names

theorem isServiceName_iff :
    isServiceName name = true ↔ Validation.isBlank name = false ∧ '/' ∉ name.toList ∧ '\\' ∉ name.toList := by
  rw [isServiceName, Validation.isBlank, Bool.and_eq_true, Bool.not_eq_true', Bool.not_eq_true', List.any_eq_false]
  simp only [Bool.or_eq_true, decide_eq_true_eq, not_or]
  refine and_congr_right fun _ => ⟨fun apart => ?_, fun apart character member => ?_⟩
  · exact ⟨fun slash => (apart _ slash).1 rfl, fun backslash => (apart _ backslash).2 rfl⟩
  · exact ⟨fun same => apart.1 (same ▸ member), fun same => apart.2 (same ▸ member)⟩

/-- Where the recipe of a fresh service is written. -/
def recipePath (directory : Path) (name : String) : Path :=
  directory.join ⟨name ++ RecipeKind.service.suffix⟩

/-- What a file of a fresh service is called. -/
def fileName (name extension : String) : String :=
  name ++ "-service" ++ "." ++ extension

theorem fileName_recipe (name : String) : name ++ RecipeKind.service.suffix = fileName name "recipe" := by
  have suffix : RecipeKind.service.suffix = "-service" ++ "." ++ "recipe" := by decide
  rw [suffix, fileName, String.append_assoc, String.append_assoc, String.append_assoc]

theorem recipePath_endsIn (directory : Path) (slashless : '/' ∉ name.toList) :
    ∃ before, (recipePath directory name).EndsIn before (fileName name "recipe") := by
  rw [recipePath]
  have named := Path.isName_append slashless RecipeKind.service.suffix (by decide) (by decide)
  rw [fileName_recipe] at named ⊢
  exact Path.EndsIn.join directory named

theorem withExtension_fileName {path : Path} {before : List String} (ends : path.EndsIn before (fileName name "recipe"))
    (extension : String) (slashless : '/' ∉ extension.toList) (long : 1 < extension.toList.length) :
    (path.withExtension extension).EndsIn before (fileName name extension) := by
  have stem : Path.stem (fileName name "recipe") = name ++ "-service" := Path.stem_append (by simp) (by decide)
  have exchanged := ends.withExtension extension slashless long
  rwa [stem] at exchanged

end Names

/-- The files are made one after the other, if the name can be a part of the name of a file. -/
theorem makeService_eq_ok (success : makeService directory name files = .ok output made) :
    isServiceName name = true ∧ ∃ prepared between, makePath directory files = .ok () prepared ∧
      write (recipePath directory name) (serviceTemplate name) prepared = .ok () between ∧
      write ((recipePath directory name).withExtension "properties") propertiesTemplate between = .ok () made := by
  have changed {explain : AccessError → CommandError} {action : Changing Unit} {before after : FileTree}
      (run : changing explain action before = .ok () after) : action before = .ok () after := by
    rw [changing] at run
    split at run
    · cases run
      assumption
    · cases run
  by_cases named : isServiceName name = true
  · refine ⟨named, ?_⟩
    rw [makeService] at success
    simp only [named, Bool.not_true, Bool.false_eq_true, if_false] at success
    obtain ⟨_, prepared, prepare, success⟩ := (Running.bind_eq_ok _ _ _ _ _).mp success
    rw [Running.get_bind] at success
    generalize List.find? prepared.has _ = found at success
    cases found with
    | some existing => exact absurd success (Running.throw_ne_ok _ _ _ _)
    | none =>
      obtain ⟨_, between, first, success⟩ := (Running.bind_eq_ok _ _ _ _ _).mp success
      obtain ⟨_, _, second, success⟩ := (Running.bind_eq_ok _ _ _ _ _).mp success
      obtain ⟨_, rfl⟩ := (Running.pure_eq_ok _ _ _ _).mp success
      exact ⟨prepared, between, changed prepare, changed first, changed second⟩
  · rw [makeService] at success
    simp only [named, Bool.not_false, if_true] at success
    obtain ⟨_, _, refused, _⟩ := (Running.bind_eq_ok _ _ _ _ _).mp success
    exact absurd refused (Running.throw_ne_ok _ _ _ _)

/-- Both files stand in one directory after the command has made them. -/
theorem exists_of_makeService (success : makeService directory name files = .ok output made) :
    Grows files made ∧ ∃ before location,
      made.Approaches (recipePath directory name) before location (fileName name "recipe") ∧
      made.Approaches ((recipePath directory name).withExtension "properties") before location
        (fileName name "properties") ∧
      made.node? (location ++ [fileName name "recipe"]) = some (.file (.text (serviceTemplate name))) ∧
      made.node? (location ++ [fileName name "properties"]) = some (.file (.text propertiesTemplate)) := by
  obtain ⟨named, prepared, between, prepare, first, second⟩ := makeService_eq_ok success
  obtain ⟨before, ends⟩ := recipePath_endsIn directory (isServiceName_iff.mp named).2.1
  have ends' := withExtension_fileName ends "properties" (by decide) (by decide)
  obtain ⟨location, approach, free, rfl⟩ := write_endsIn ends first
  have grows := grows_insertAt (by simp) (.file (.text (serviceTemplate name))) free
  obtain ⟨location', approach', free', rfl⟩ := write_endsIn ends' second
  obtain rfl := (approach.grow grows).location_eq approach'
  have grows' := grows_insertAt (by simp) (.file (.text propertiesTemplate)) free'
  refine ⟨(makePath_grows prepare).trans (grows.trans grows'), before, location', (approach.grow grows).grow grows',
    approach'.grow grows', ?_, ?_⟩
  · rw [node?_insertAt _ (by simp), if_neg, node?_insertAt _ (by simp), if_pos rfl]
    simp [fileName]
  · rw [node?_insertAt _ (by simp), if_pos rfl]

/-- A fresh recipe stands at its absolute path, unless it would be read with overrides or its path is too long. -/
theorem standsAt_of_makeService (proper : files.Proper) (grounded : files.Grounded)
    (success : makeService directory name files = .ok output made)
    (alone : made.isFile ((recipePath directory name).withExtension "overrides") = false)
    (short : ∀ absolute, made.canonical ((recipePath directory name).withExtension "properties") = .ok absolute →
      absolute.text.utf8ByteSize < pathLimit) :
    ∃ absolute, made.canonical (recipePath directory name) = .ok absolute ∧ StandsAt made absolute name := by
  obtain ⟨grows, before, location, approach, approach', recipe, properties⟩ := exists_of_makeService success
  have located := approach.locate (by simp [recipe])
  have located' := approach'.locate (by simp [properties])
  have short' := short _ (canonical_eq_ok.mpr ⟨_, located', rfl⟩)
  have proper' := grows.proper proper
  have absolute' := approach'.absolute proper' (grounded.grow grows) short'
  have ends := Path.EndsIn.of_pathOf (approach.names proper')
  have usable := absolute'.ends.checkPath_eq_ok ends absolute'.usable (by decide) (by decide)
  have absolute := absolute'.sibling ends usable approach.short
  have endsProperties := withExtension_fileName ends "properties" (by decide) (by decide)
  have usable' := absolute'.ends.checkPath_eq_ok endsProperties absolute'.usable (by decide) (by decide)
  refine ⟨_, canonical_eq_ok.mpr ⟨_, located, rfl⟩, absolute.readText recipe,
    (absolute.isFile_sibling endsProperties).mpr ⟨usable', approach'.short, _, properties⟩,
    (absolute.sibling endsProperties usable' approach'.short).readText properties, ?_⟩
  -- A file with overrides next to the absolute path would be next to the path as well.
  rw [Bool.eq_false_iff] at alone ⊢
  intro file
  have endsOverrides := withExtension_fileName ends "overrides" (by decide) (by decide)
  obtain ⟨_, short'', content, node⟩ := (absolute.isFile_sibling endsOverrides).mp file
  have endsOverrides' := withExtension_fileName approach.ends "overrides" (by decide) (by decide)
  have usable'' := approach'.ends.checkPath_eq_ok endsOverrides' approach'.usable (by decide) (by decide)
  exact alone ((approach.isFile_sibling endsOverrides').mpr ⟨usable'', short'', content, node⟩)

/-- What the command makes compiles if the name needs no escaping: as a service of exactly this name, with one instance
and the port of the properties. -/
theorem makeService_compiles (proper : files.Proper) (grounded : files.Grounded)
    (success : makeService directory name files = .ok output made) (unquoted : '"' ∉ name.toList)
    (literal : ¬ ['$', '{'] <:+: name.toList)
    (alone : made.isFile ((recipePath directory name).withExtension "overrides") = false)
    (short : ∀ absolute, made.canonical ((recipePath directory name).withExtension "properties") = .ok absolute →
      absolute.text.utf8ByteSize < pathLimit) :
    ∃ compiled, Compiled.ofFile (Job.plain made .standard) (recipePath directory name) = .ok compiled ∧
      compiled.kind = .service ∧ compiled.root.name? = some name ∧ compiled.root.property "numInstances" = .int 1 ∧
      Validation.part (compiled.root.property "network") "port" = .int 8080 := by
  obtain ⟨absolute, canonical, stands⟩ := standsAt_of_makeService proper grounded success alone short
  obtain ⟨named, _, unescaped⟩ := isServiceName_iff.mp (makeService_eq_ok success).1
  obtain ⟨compiled, compiles, root⟩ := stands.ofText ⟨unquoted, unescaped, literal⟩ named
  refine ⟨compiled, ?_, ?_⟩
  · have present : (Job.plain made .standard).files.has (recipePath directory name) = true :=
      (canonical_of_readText ((exists_of_makeService success).1.proper proper) canonical stands.recipe).1
    have found : (Job.plain made .standard).files.canonical (recipePath directory name) = .ok absolute := canonical
    have read : (Job.plain made .standard).files.readText absolute = .ok (serviceTemplate name) := stands.recipe
    rw [Compiled.ofFile, if_pos present, found]
    dsimp only
    rw [read]
    exact compiles
  · rw [Compiled.kind, root]
    exact ⟨rfl, rfl, rfl, rfl⟩

/-- A name with a dot, a space and a dollar sign, below directories that are made for it. -/
theorem makeService_compiles_dotted :
    let files : FileTree := ⟨[(["w"], .directory)], ["w"]⟩
    let made := filesAfter (makeService ⟨"apps/web"⟩ "my.web $1" files)
    ∃ compiled, Compiled.ofFile (Job.plain made .standard) (recipePath ⟨"apps/web"⟩ "my.web $1") = .ok compiled ∧
      compiled.kind = .service ∧ compiled.root.name? = some "my.web $1" ∧
      compiled.root.property "numInstances" = .int 1 ∧
      Validation.part (compiled.root.property "network") "port" = .int 8080 := by
  intro files made
  have proper : files.Proper := by simp [files, Proper, Path.IsName, Path.isReal]
  have grounded : files.Grounded := by decide +kernel
  have found : made.canonical ((recipePath ⟨"apps/web"⟩ "my.web $1").withExtension "properties") =
      .ok ⟨"/w/apps/web/my.web $1-service.properties"⟩ := by decide +kernel
  refine makeService_compiles proper grounded rfl (by decide) (by decide) (by decide +kernel) fun absolute same => ?_
  obtain rfl := Except.ok.inj (found.symm.trans same)
  decide

/-- A quote in the name ends the text in the recipe, so that the recipe cannot be read. -/
theorem makeService_quoted :
    let files : FileTree := ⟨[(["w"], .directory)], ["w"]⟩
    let made := filesAfter (makeService ⟨"d"⟩ "a\"b" files)
    (∃ output, makeService ⟨"d"⟩ "a\"b" files = .ok output made) ∧
      made.isFile ((recipePath ⟨"d"⟩ "a\"b").withExtension "overrides") = false ∧
      ¬ ∃ compiled, Compiled.ofFile (Job.plain made .standard) (recipePath ⟨"d"⟩ "a\"b") = .ok compiled := by
  intro files made
  have unreadable : (Recipe.readDeclarations (serviceTemplate "a\"b")).toOption = none := by
    rw [Recipe.readDeclarations, toList_serviceTemplate]
    decide +kernel
  have found : made.canonical (recipePath ⟨"d"⟩ "a\"b") = .ok ⟨"/w/d/a\"b-service.recipe"⟩ := by decide +kernel
  have written : made.readText ⟨"/w/d/a\"b-service.recipe"⟩ = .ok (serviceTemplate "a\"b") := rfl
  refine ⟨⟨_, rfl⟩, by decide +kernel, ?_⟩
  rintro ⟨compiled, success⟩
  obtain ⟨text, context, declarations, session, last, place, read, opened, _⟩ := Compiled.ofFile_evaluates success
  obtain ⟨_, _, readable, _⟩ := (Job.opening_eq_ok _ _ _ _ _ _).mp opened
  rw [← Except.ok.inj (found.symm.trans place)] at read
  rw [← Except.ok.inj (written.symm.trans read)] at readable
  rw [readable] at unreadable
  cases unreadable

end DeployRecipe.Command
