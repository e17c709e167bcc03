import DeployRecipe.Proofs.Compilation.Steps
import DeployRecipe.Proofs.Environment.History
import DeployRecipe.Proofs.Properties
import DeployRecipe.Proofs.Recipe.Reading
import DeployRecipe.Proofs.Scaffold.Evaluating

/-!
A fresh recipe next to its properties file compiles with nothing but the standard settings.
-/

namespace DeployRecipe

theorem Table.flat_of_plain {table : Table} (distinct : table.keys.Nodup)
    (plain : ∀ name ∈ table.keys, DottedName.isDotted name = false) : table.Flat :=
  distinct.imp_of_mem fun one other differs =>
    ⟨differs, DottedName.isWithin_of_not_dotted (plain _ one) _, DottedName.isWithin_of_not_dotted (plain _ other) _⟩

namespace Command

/-- What the properties file of a fresh recipe defines. -/
def propertiesTable : Table := [("instances", .int 1), ("port", .int 8080)]

theorem readDeclarations_propertiesTemplate :
    Recipe.readDeclarations propertiesTemplate =
      .ok [.mk "instances" 1 (.assignment (.int 1)), .mk "port" 2 (.assignment (.int 8080))] :=
  Recipe.readDeclarations_of_readsAs (by decide +kernel)

theorem parse_propertiesTemplate (path : Path) (lower : Table) :
    Properties.parse propertiesTemplate path lower = .ok propertiesTable := by
  rw [Properties.parse, readDeclarations_propertiesTemplate]
  rfl

/-- A fresh recipe stands at a path, next to its properties file and without overrides. -/
structure StandsAt (files : FileTree) (path : Path) (name : String) : Prop where
  recipe : files.readText path = .ok (serviceTemplate name)
  propertiesFile : files.isFile (path.withExtension "properties") = true
  properties : files.readText (path.withExtension "properties") = .ok propertiesTemplate
  overrides : files.isFile (path.withExtension "overrides") = false

variable {files : FileTree} {path : Path} {name : String}

/-- The names that a fresh recipe sees: those of its properties file, and where it stands. -/
def visibleTable (path : Path) : Table :=
  propertiesTable ++ [("recipeFilePath", .text path.text),
    ("recipeDir", .text ((path.parent?.map Path.text).getD ""))]

theorem visibleTable_flat (path : Path) : (visibleTable path).Flat :=
  Table.flat_of_plain (show ["instances", "port", "recipeFilePath", "recipeDir"].Nodup by decide)
    (show ∀ name ∈ ["instances", "port", "recipeFilePath", "recipeDir"], DottedName.isDotted name = false by decide)

/-- The environment of a fresh recipe is made, and knows what the properties file defines. -/
theorem StandsAt.supplies (stands : StandsAt files path name) (before : Sources) :
    ∃ environment, Running.Gives (((Job.plain files .standard).inputs path).build files) before environment ∧
      Supplies environment := by
  have properties : ((Job.plain files .standard).inputs path).propertiesPath? files =
      some (path.withExtension "properties") :=
    Option.filter_eq_some_iff.mpr ⟨rfl, stands.propertiesFile⟩
  have overrides : ((Job.plain files .standard).inputs path).overridesText? files = .ok none := by
    have none : ((Job.plain files .standard).inputs path).sibling? files "overrides" = none :=
      Option.filter_eq_none_iff.mpr (by rintro _ ⟨⟩; exact Bool.eq_false_iff.mp stands.overrides)
    rw [EnvironmentInputs.overridesText?, none]
    rfl
  let layers := ((Job.plain files .standard).inputs path).layers (some propertiesTable) none
  have merged : (Environment.ofLayers layers).merged = visibleTable path := by
    rw [Environment.merged_ofLayers]
    exact Properties.overwriteAll_of_flat (visibleTable_flat path)
  have known (key : String) (value : Value) (member : (key, value) ∈ propertiesTable) :
      (Environment.ofLayers layers).lookup? key = some value := by
    rw [Environment.lookup?, merged]
    exact Table.lookup?_of_find? ((visibleTable_flat path).find?_of_mem (List.mem_append_left _ member))
  exact ⟨.ofLayers layers, EnvironmentInputs.build_gives.mpr ⟨_, ⟨some propertiesTable, none,
      ⟨_, _, properties, stands.properties, parse_propertiesTemplate _ _⟩, overrides, rfl⟩, rfl⟩,
    known _ _ List.mem_cons_self, known _ _ (List.mem_cons_of_mem _ List.mem_cons_self)⟩

/-- A fresh recipe compiles at the path where it stands. -/
theorem StandsAt.ofText (stands : StandsAt files path name) (plain : Recipe.IsPlainText name.toList)
    (named : Validation.isBlank name = false) :
    ∃ compiled, Compiled.ofText (.plain files .standard) path (serviceTemplate name) = .ok compiled ∧
      compiled.root = scaffold name := by
  obtain ⟨declarations, read, unnumbered⟩ := reads_serviceTemplate plain
  obtain ⟨environment, ⟨sources, built⟩, supplies⟩ := stands.supplies (Sources.record [] path (serviceTemplate name))
  let session : Session := ⟨[(path, declarations)], [path], sources⟩
  have evaluated : (Job.plain files .standard).evaluate path (serviceTemplate name) .empty =
      .ok (scaffold name) session := by
    refine (Job.evaluate_eq_ok _ _ _ _ _ _).mpr ⟨⟨.plain files .standard, path, environment⟩, declarations, session,
      (Job.opening_eq_ok _ _ _ _ _ _).mpr ⟨environment, sources, read, built, rfl, rfl⟩, ?_⟩
    exact evaluateRecipe_service supplies unnumbered session
  refine ⟨⟨scaffold name, path, sources⟩, ?_, rfl⟩
  have valid : Validation.validate ⟨(Job.plain files .standard).files, path⟩ (scaffold name) = .ok () :=
    validate_scaffold _ named
  have wanted : ((Job.plain files .standard).validate.getD (Job.plain files .standard).settings.validate) = true := rfl
  rw [Compiled.ofText, evaluated]
  simp only [wanted, if_true, valid]
  rfl

end Command

end DeployRecipe
