import DeployRecipe.Proofs.Compilation.Recipes
import DeployRecipe.Proofs.Environment.Around
import DeployRecipe.Proofs.Environment.Inheritance

/-!
The environment of a service that a directory next to an application holds. The table of the application lies
above the files of the service, and the defaults of the settings are part of it.
-/

namespace DeployRecipe

open DottedName

theorem Value.eq_some_int_of_same {found : Option Value} {number : Int}
    (there : found.any (Value.same (.int number)) = true) : found = some (.int number) := by
  obtain ⟨value, rfl, alike⟩ := (Option.any_eq_true _ _).mp there
  cases value with
  | int other =>
    simp only [Value.same, decide_eq_true_eq] at alike
    rw [alike]
  | _ => cases alike

namespace Table

/-- What is in a table that was overwritten was in it before or is one of the new entries. -/
theorem mem_of_mem_overwriteAll {table entries : Table} {entry : String × Value}
    (member : entry ∈ table.overwriteAll entries) : entry ∈ table ∨ entry ∈ entries := by
  induction entries generalizing table with
  | nil => exact .inl member
  | cons first rest inductionHypothesis =>
    rw [overwriteAll_cons] at member
    rcases inductionHypothesis member with here | later
    · rcases mem_overwrite here with rfl | ⟨old, _⟩
      · exact .inr List.mem_cons_self
      · exact .inl old
    · exact .inr (List.mem_cons_of_mem first later)

theorem quiet_of_around {table : Table} {key : String} (apart : table.around key = []) :
    ∀ entry ∈ table, entry.1 ≠ key ∧ isWithin key entry.1 = false := by
  intro entry member
  have none := (around_eq_nil_iff table key).mp apart entry.1 (List.mem_map_of_mem member)
  refine ⟨fun same => none (.inl same), ?_⟩
  by_contra inside
  exact none (.inr (.inr (by simpa using inside)))

section Layered

variable {defaults files above ambient : Table} {key : String} (foreign : above.around key = [])
  (foreign' : ambient.around key = [])
include foreign foreign'

/-- A name that the defaults give a value has it also above the files. -/
theorem lookup?_of_defaults {value : Value} (found : (overwriteAll [] defaults).find? key = some value) :
    (overwriteAll [] (defaults ++ files ++ overwriteAll [] (defaults ++ above) ++ ambient)).lookup? key =
      some value := by
  have stands := ((find?_overwriteAll_nil _ _ _).mp found).append_right (quiet_of_around foreign)
  have again := (ordered_overwriteAll ordered_nil _).stands ((find?_overwriteAll_nil _ _ _).mpr stands)
  have whole := (again.append_left (defaults ++ files)).append_right (quiet_of_around foreign')
  rw [lookup?_eq, (find?_overwriteAll_nil _ _ _).mpr whole, Option.some_or]

/-- A name has what the files give it, unless it is one of the defaults or within one, or the files do not
hold the name itself and a default is within it. -/
theorem lookup?_of_files (free : ∀ name ∈ defaults.keys,
      ¬ Overlaps name key ∨ isWithin name key = true ∧ (overwriteAll [] files).find? key ≠ none) :
    (overwriteAll [] (defaults ++ files ++ overwriteAll [] (defaults ++ above) ++ ambient)).lookup? key =
        (overwriteAll [] files).lookup? key ∧
      (overwriteAll [] (defaults ++ files ++ ambient)).lookup? key = (overwriteAll [] files).lookup? key := by
  cases found : (overwriteAll [] files).find? key with
  | some value =>
    have aside : ∀ entry ∈ defaults, entry.1 ≠ key ∧ isWithin key entry.1 = false := by
      intro entry member
      rcases free entry.1 (List.mem_map_of_mem member) with apart | ⟨inside, _⟩
      · exact ⟨fun same => apart (.inl same), by simpa using fun inside => apart (.inr (.inr inside))⟩
      · refine ⟨?_, isWithin_asymm inside⟩
        intro same
        rw [same, isWithin_self] at inside
        cases inside
    have aside' : ∀ entry ∈ overwriteAll [] (defaults ++ above),
        entry.1 ≠ key ∧ isWithin key entry.1 = false := by
      intro entry member
      rcases mem_of_mem_overwriteAll member with none | some
      · cases none
      · exact (List.mem_append.mp some).elim (aside entry) (quiet_of_around foreign entry)
    have stands := ((find?_overwriteAll_nil _ _ _).mp found).append_left defaults
    have nested := (stands.append_right aside').append_right (quiet_of_around foreign')
    have alone := stands.append_right (quiet_of_around foreign')
    rw [lookup?_eq, lookup?_eq, lookup?_eq, (find?_overwriteAll_nil _ _ _).mpr nested,
      (find?_overwriteAll_nil _ _ _).mpr alone, found]
    exact ⟨rfl, rfl⟩
  | none =>
    -- nothing above or below the files is around the name, and a lookup sees nothing else
    have apart : defaults.around key = [] := by
      refine (around_eq_nil_iff _ _).mpr fun name member => ?_
      exact (free name member).resolve_right fun both => both.2 found
    have lower : (overwriteAll [] (defaults ++ above)).around key = [] := by
      rw [around_overwriteAll, around_append, apart, foreign]
      rfl
    simp only [← lookup?_around (overwriteAll [] _) key, around_overwriteAll, around_append, apart, lower, foreign',
      List.append_nil, List.nil_append, and_self]

end Layered

end Table

namespace Environment

/-- The table of the properties file and the overrides alone. -/
def ofFiles (environment : Environment) : Table :=
  (ofLayers (environment.layers.filter fun layer =>
    layer.source = .propertiesFile ∨ layer.source = .overrides)).merged

end Environment

namespace EnvironmentInputs

variable (inputs : EnvironmentInputs) (properties overrides : Option Table)

theorem merged_layers :
    (Environment.ofLayers (inputs.layers properties overrides)).merged =
      Table.overwriteAll [] (inputs.defaults ++ inputs.inherited.getD [] ++
        (properties.getD [] ++ overrides.getD []) ++ inputs.external.getD [] ++ inputs.ambientTable) := by
  rw [Environment.merged_ofLayers, layers]
  cases inputs.inherited <;> cases properties <;> cases overrides <;> cases inputs.external <;> simp

theorem ofFiles_layers :
    (Environment.ofLayers (inputs.layers properties overrides)).ofFiles =
      Table.overwriteAll [] (properties.getD [] ++ overrides.getD []) := by
  rw [Environment.ofFiles, Environment.layers_ofLayers, Environment.merged_ofLayers, layers]
  cases inputs.inherited <;> cases properties <;> cases overrides <;> cases inputs.external <;> simp

/-- No layer but the defaults has a name that overlaps the given one. -/
theorem foreign_layers {key : String} (elsewhere : ∀ layer ∈ inputs.layers properties overrides,
      layer.source ≠ .defaults → ∀ name ∈ layer.values.keys, ¬ Overlaps name key) :
    (inputs.aboveDefaults properties overrides).around key = [] ∧ inputs.ambientTable.around key = [] := by
  have part (source : LayerSource) (other : source ≠ .defaults) (values : Option Table)
      (there : ∀ table, values = some table → Layer.mk source table ∈ inputs.layers properties overrides) :
      (values.getD []).around key = [] := by
    cases values with
    | none => rfl
    | some table => exact (Table.around_eq_nil_iff _ _).mpr (elsewhere _ (there table rfl) other)
  constructor
  · rw [aboveDefaults, Table.around_append, Table.around_append, Table.around_append,
      part .inherited (by decide) inputs.inherited fun table given => by simp [layers, given],
      part .propertiesFile (by decide) properties fun table given => by simp [layers, given],
      part .overrides (by decide) overrides fun table given => by simp [layers, given],
      part .external (by decide) inputs.external fun table given => by simp [layers, given]]
    rfl
  · exact part .ambient (by decide) (some inputs.ambientTable) fun table given => by
      obtain rfl := Option.some.inj given
      simp [layers]

/-- The ambient names of a recipe do not depend on where it stands. -/
theorem mem_keys_ambientTable {name : String} :
    name ∈ inputs.ambientTable.keys ↔
      name = "recipeDir" ∨ name = "recipeFilePath" ∨ name ∈ inputs.ambient.keys := by
  rw [ambientTable, Entries.mem_keys_insert, Entries.mem_keys_insert]

end EnvironmentInputs

/-- The environment of the recipe is built with the defaults and the ambient names of its job. -/
def RecipeContext.Built (context : RecipeContext) : Prop :=
  ∃ (inputs : EnvironmentInputs) (sources : Sources), inputs.defaults = context.job.settings.defaults ∧
    inputs.ambient = context.job.ambient ∧ Running.Gives (inputs.build context.job.files) sources context.environment

theorem Job.built_of_opening {job : Job} {path : Path} {text : String} {context : RecipeContext}
    {declarations : List Declaration} {after : Session}
    (opened : job.opening path text Session.empty = .ok (context, declarations) after) : context.Built := by
  obtain ⟨environment, sources, _, built, rfl, rfl⟩ := (opening_eq_ok _ _ _ _ _ _).mp opened
  exact ⟨job.inputs path, _, rfl, rfl, _, built⟩

namespace Job

/-- The job without files and tables other than those next to the recipe and the settings. -/
def alone (job : Job) : Job :=
  { job with propertiesFile := none, overrides := none, external := none }

end Job

namespace Evaluation

/-- A recipe that another one leads to is built as it is. -/
theorem built_of_openNested {job : Job} {path : Path} {handover : Handover} {before after : Session}
    {nested : RecipeContext} {declarations : List Declaration}
    (opened : openNested job path handover before = .ok (nested, declarations) after) : nested.Built := by
  obtain ⟨rfl, rfl, sources, built⟩ := openNested_eq_ok opened
  cases handover with
  | inherited table => exact ⟨_, sources, rfl, rfl, built⟩
  | external table => exact ⟨_, sources, rfl, rfl, built⟩

variable {context nested : RecipeContext} {declarations : List Declaration}

theorem openService?_opens {line : Nat} {values : Evaluating (List Value)} {before after : Evaluation}
    (opened : openService? context line values before = .ok (some (nested, declarations)) after) :
    ∃ path session later, openNested context.job path (.external context.environment.inheritable) session =
      .ok (nested, declarations) later := by
  obtain ⟨_, _, _, opened⟩ := (Running.bind_eq_ok _ _ _ _ _).mp opened
  obtain ⟨_, named, _, opened⟩ := (Running.bind_eq_ok _ _ _ _ _).mp opened
  rw [Running.get_bind] at opened
  cases found : named.serviceDirectory? context with
  | none =>
    rw [found] at opened
    obtain ⟨same, _⟩ := (Running.pure_eq_ok _ _ _ _).mp opened
    cases same
  | some pair =>
    rw [found] at opened
    simp only [Running.bind_eq_ok, inSession_eq_ok, Running.pure_eq_ok] at opened
    obtain ⟨path, _, _, _, _, ⟨session, inner, rfl⟩, same, rfl⟩ := opened
    obtain rfl := Option.some.inj same
    exact ⟨path, _, _, inner⟩

/-- What a name has in the environment of a service that a directory next to an application holds, where the
application and its caller have nothing that overlaps the name but the defaults of the settings. A default
lies above the files of the service. A name that is neither a default nor within one has what the files give
it, as where the service is compiled alone, unless a default is within the name and the files do not hold it. -/
theorem openService?_lookup? (built : context.Built) {line : Nat} {values : Evaluating (List Value)}
    {before after : Evaluation}
    (opened : openService? context line values before = .ok (some (nested, declarations)) after) :
    ∃ alone, (∀ sources,
        Running.Gives ((context.job.alone.inputs nested.recipeFile).build context.job.files) sources alone) ∧
      ∀ key, (∀ layer ∈ context.environment.layers, layer.source ≠ .defaults →
          ∀ name ∈ layer.values.keys, ¬ Overlaps name key) →
        (∀ value, (Table.overwriteAll [] context.job.settings.defaults).find? key = some value →
          nested.environment.lookup? key = some value) ∧
        ((∀ name ∈ context.job.settings.defaults.keys, ¬ Overlaps name key ∨
            isWithin name key = true ∧ nested.environment.ofFiles.find? key ≠ none) →
          nested.environment.lookup? key = nested.environment.ofFiles.lookup? key ∧
            alone.lookup? key = nested.environment.ofFiles.lookup? key) := by
  obtain ⟨path, session, later, inner⟩ := openService?_opens opened
  obtain ⟨_, rfl, _, made⟩ := openNested_eq_ok inner
  obtain ⟨application, _, defaults, ambient, laid⟩ := built
  obtain ⟨_, ⟨outerProperties, outerOverrides, _, _, rfl⟩, outer⟩ := EnvironmentInputs.build_gives.mp laid
  obtain ⟨_, ⟨properties, overrides, defined, overridden, rfl⟩, whole⟩ := EnvironmentInputs.build_gives.mp made
  refine ⟨.ofLayers ((context.job.alone.inputs nested.recipeFile).layers properties overrides), fun sources =>
    EnvironmentInputs.build_gives.mpr ⟨_, ⟨properties, overrides, defined, overridden, rfl⟩, rfl⟩,
    fun key elsewhere => ?_⟩
  rw [outer, Environment.layers_ofLayers] at elsewhere
  obtain ⟨foreign, foreign'⟩ := application.foreign_layers outerProperties outerOverrides elsewhere
  have ambient' : (context.job.alone.inputs nested.recipeFile).ambientTable.around key = [] := by
    rw [Table.around_eq_nil_iff] at foreign' ⊢
    intro name member
    refine foreign' name ?_
    rw [EnvironmentInputs.mem_keys_ambientTable] at member ⊢
    rwa [ambient]
  have inside : nested.environment.lookup? key = (Table.overwriteAll [] (context.job.settings.defaults ++
      (properties.getD [] ++ overrides.getD []) ++ Table.overwriteAll [] (context.job.settings.defaults ++
        application.aboveDefaults outerProperties outerOverrides) ++
          (context.job.alone.inputs nested.recipeFile).ambientTable)).lookup? key := by
    rw [whole, Environment.lookup?, EnvironmentInputs.merged_layers, outer, EnvironmentInputs.inheritable_layers,
      defaults]
    simp only [Handover.inputs, Option.getD_none, Option.getD_some, List.append_nil]
    rfl
  have outside : (Environment.ofLayers ((context.job.alone.inputs nested.recipeFile).layers properties
      overrides)).lookup? key = (Table.overwriteAll [] (context.job.settings.defaults ++
        (properties.getD [] ++ overrides.getD []) ++
          (context.job.alone.inputs nested.recipeFile).ambientTable)).lookup? key := by
    rw [Environment.lookup?, EnvironmentInputs.merged_layers]
    simp only [Job.inputs, Job.alone, Option.getD_none, List.append_nil]
  have files : nested.environment.ofFiles =
      Table.overwriteAll [] (properties.getD [] ++ overrides.getD []) := by
    rw [whole, EnvironmentInputs.ofFiles_layers]
  rw [inside, outside, files]
  exact ⟨fun value found => Table.lookup?_of_defaults foreign ambient' found,
    Table.lookup?_of_files foreign ambient'⟩

/-- A service in a directory of its own, whose properties give a name a value. -/
def sampleJob (defaults : Table) : Job :=
  Job.plain
    ⟨[(["r"], .directory), (["r", "s"], .directory),
      (["r", "s", "s-service.recipe"], .file (.text "service \x7b\n\x7d\n")),
      (["r", "s", "s-service.properties"], .file (.text "n = 2\n"))], ["r"]⟩
    { Settings.standard with defaults }

/-- Opens an application next to that directory, and then the service in it. -/
def openSample (defaults : Table) : Option (RecipeContext × RecipeContext) :=
  let text := "application \x7b\n service \x7b\n  name \"s\"\n \x7d\n\x7d\n"
  match (sampleJob defaults).opening ⟨"/r/a-application.recipe"⟩ text Session.empty with
  | .error _ _ => none
  | .ok (context, _) session =>
    let state := { start session with scopes := [.opening (.fresh .service), .opening (.fresh .application)] }
    match openService? context 3 (pure [.text "s"]) state with
    | .ok (some (nested, _)) _ => some (context, nested)
    | _ => none

theorem openSample_eq_some {defaults : Table} {context nested : RecipeContext}
    (opened : openSample defaults = some (context, nested)) :
    context.Built ∧ context.job = sampleJob defaults ∧ ∃ line values before declarations after,
      openService? context line values before = .ok (some (nested, declarations)) after := by
  rw [openSample] at opened
  dsimp only at opened
  split at opened
  · cases opened
  · rename_i first _ session outer
    split at opened
    · rename_i inner
      obtain ⟨rfl, rfl⟩ := Prod.mk.inj (Option.some.inj opened)
      obtain ⟨_, _, _, _, same, _⟩ := (Job.opening_eq_ok _ _ _ _ _ _).mp outer
      exact ⟨Job.built_of_opening outer, by rw [same], _, _, _, _, _, inner⟩
    · cases opened

/-- No layer but the defaults has a name that overlaps the given one. -/
def isForeign (context : RecipeContext) (key : String) : Bool :=
  context.environment.layers.all fun layer =>
    layer.source = .defaults ∨ layer.values.keys.all fun name => !decide (Overlaps name key)

theorem isForeign_eq_true {context : RecipeContext} {key : String} :
    isForeign context key = true ↔ ∀ layer ∈ context.environment.layers, layer.source ≠ .defaults →
      ∀ name ∈ layer.values.keys, ¬ Overlaps name key := by
  simp [isForeign, or_iff_not_imp_left]

/-- The properties of a service where there is a default of another name. -/
theorem openService?_lookup?_properties :
    ∃ context nested alone, openSample [("m", .int 1)] = some (context, nested) ∧
      Running.Gives ((context.job.alone.inputs nested.recipeFile).build context.job.files) [] alone ∧
      nested.environment.lookup? "n" = some (.int 2) ∧ alone.lookup? "n" = some (.int 2) := by
  have fine : ((openSample [("m", .int 1)]).any fun opened =>
      (opened.2.environment.ofFiles.lookup? "n").any (Value.same (.int 2)) && isForeign opened.1 "n") = true := by
    decide +kernel
  obtain ⟨⟨context, nested⟩, sample, holds⟩ := (Option.any_eq_true _ _).mp fine
  obtain ⟨own, elsewhere⟩ := Bool.and_eq_true_iff.mp holds
  obtain ⟨built, job, line, values, before, declarations, after, opened⟩ := openSample_eq_some sample
  obtain ⟨alone, gives, same⟩ := openService?_lookup? built opened
  have free : ∀ name ∈ context.job.settings.defaults.keys, ¬ Overlaps name "n" := by
    rw [job]
    decide
  obtain ⟨inside, outside⟩ :=
    (same "n" (isForeign_eq_true.mp elsewhere)).2 fun name there => .inl (free name there)
  have two := Value.eq_some_int_of_same own
  exact ⟨context, nested, alone, sample, gives [], inside.trans two, outside.trans two⟩

/-- A default of the name lies above the properties of the service, but only inside the application. -/
theorem openService?_lookup?_default :
    ∃ context nested alone, openSample [("n", .int 1)] = some (context, nested) ∧
      Running.Gives ((context.job.alone.inputs nested.recipeFile).build context.job.files) [] alone ∧
      (∀ layer ∈ context.environment.layers, layer.source ≠ .defaults →
        ∀ name ∈ layer.values.keys, ¬ Overlaps name "n") ∧
      nested.environment.lookup? "n" = some (.int 1) ∧
      nested.environment.ofFiles.lookup? "n" = some (.int 2) ∧ alone.lookup? "n" = some (.int 2) := by
  have differs : ((openSample [("n", .int 1)]).any fun opened => isForeign opened.1 "n" &&
      ((opened.2.environment.lookup? "n").any (Value.same (.int 1)) &&
        (opened.2.environment.ofFiles.lookup? "n").any (Value.same (.int 2)) &&
          (EStateM.run' ((opened.1.job.alone.inputs opened.2.recipeFile).build opened.1.job.files) []).any
            fun alone => (alone.lookup? "n").any (Value.same (.int 2)))) = true := by
    decide +kernel
  obtain ⟨⟨context, nested⟩, sample, holds⟩ := (Option.any_eq_true _ _).mp differs
  simp only [Bool.and_eq_true] at holds
  obtain ⟨elsewhere, ⟨inside, own⟩, apart⟩ := holds
  obtain ⟨alone, gives, outside⟩ := (Option.any_eq_true _ _).mp apart
  exact ⟨context, nested, alone, sample, Running.gives_of_run' gives, isForeign_eq_true.mp elsewhere,
    Value.eq_some_int_of_same inside, Value.eq_some_int_of_same own, Value.eq_some_int_of_same outside⟩

end Evaluation

end DeployRecipe
