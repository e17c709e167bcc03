import DeployRecipe.Proofs.Environment.History
import DeployRecipe.Proofs.Environment.Order

/-!
Environments whose tables are alike. Files next to a recipe are read in the same way above tables that are
alike, so recipes whose inputs are alike get environments that are alike.
-/

namespace DeployRecipe

namespace Properties

mutual

theorem evaluate_congr {visible other : Table} (same : visible.lookup? = other.lookup?) :
    ∀ expression, evaluate visible expression = evaluate other expression
  | .null | .bool _ | .int _ | .float _ | .text _ | .block _ _ _ | .load _ => by simp only [evaluate]
  | .interpolated parts => by simp only [evaluate, same]
  | .reference name => by simp only [evaluate, same]
  | .list items => by simp only [evaluate, evaluateItems_congr same items]
  | .map entries => by simp only [evaluate, evaluateEntries_congr same [] entries]

theorem evaluateItems_congr {visible other : Table} (same : visible.lookup? = other.lookup?) :
    ∀ items, evaluateItems visible items = evaluateItems other items
  | [] => by simp only [evaluateItems]
  | first :: rest => by
    simp only [evaluateItems, evaluate_congr same first, evaluateItems_congr same rest]

theorem evaluateEntries_congr {visible other : Table} (same : visible.lookup? = other.lookup?) :
    ∀ mapping entries, evaluateEntries visible mapping entries = evaluateEntries other mapping entries
  | _, [] => by simp only [evaluateEntries]
  | mapping, (key, item) :: rest => by
    simp only [evaluateEntries, evaluate_congr same item]
    refine bind_congr fun value => ?_
    exact evaluateEntries_congr same (mapping.insert key value) rest

end

/-- The same names are defined, and tables that are alike are seen. -/
structure Tables.Alike (tables other : Tables) : Prop where
  visible : Table.Alike tables.visible other.visible
  defined : tables.defined = other.defined

theorem Tables.Alike.define {tables other : Tables} (alike : tables.Alike other) (key : String)
    (value : Value) : (tables.define key value).Alike (other.define key value) := by
  refine ⟨alike.visible.overwriteAll [(key, value)], ?_⟩
  rw [Tables.define, Tables.define, alike.defined]

mutual

theorem flatten_alike {tables other result : Tables} (alike : tables.Alike other) (group : String)
    (declarations : List Declaration) (flat : flatten group declarations tables = .ok result) :
    ∃ more, flatten group declarations other = .ok more ∧ result.Alike more := by
  cases declarations with
  | nil =>
    rw [flatten] at flat
    obtain rfl := Except.ok.inj flat
    exact ⟨other, by rw [flatten], alike⟩
  | cons first rest =>
    rw [flatten] at flat
    obtain ⟨between, one, others⟩ := (Running.attempt_eq_ok _ _ _).mp flat
    obtain ⟨middle, one', alike'⟩ := flattenOne_alike alike group first one
    obtain ⟨last, others', alike''⟩ := flatten_alike alike' group rest others
    refine ⟨last, ?_, alike''⟩
    rw [flatten]
    exact (Running.attempt_eq_ok _ _ _).mpr ⟨middle, one', others'⟩
termination_by structural declarations

theorem flattenOne_alike {tables other result : Tables} (alike : tables.Alike other) (group : String)
    (declaration : Declaration) (flat : flattenOne group declaration tables = .ok result) :
    ∃ more, flattenOne group declaration other = .ok more ∧ result.Alike more := by
  cases declaration with
  | mk name line body =>
    rw [flattenOne] at flat ⊢
    exact flattenBody_alike alike _ line body flat
termination_by structural declaration

theorem flattenBody_alike {tables other result : Tables} (alike : tables.Alike other) (key : String)
    (line : Nat) (body : Body) (flat : flattenBody key line body tables = .ok result) :
    ∃ more, flattenBody key line body other = .ok more ∧ result.Alike more := by
  cases body with
  | block inner =>
    rw [flattenBody] at flat ⊢
    exact flatten_alike alike key inner flat
  | assignment expression =>
    rw [flattenBody] at flat ⊢
    rw [evaluate_congr alike.visible.lookup?] at flat
    cases evaluated : evaluate other.visible expression with
    | error fault =>
      rw [evaluated] at flat
      cases flat
    | ok value =>
      rw [evaluated] at flat
      obtain rfl := Except.ok.inj flat
      exact ⟨_, rfl, alike.define key value⟩
  | arguments expressions =>
    match expressions with
    | [] =>
      rw [flattenBody] at flat
      · cases flat
      · simp
    | [expression] =>
      rw [flattenBody] at flat ⊢
      rw [evaluate_congr alike.visible.lookup?] at flat
      cases evaluated : evaluate other.visible expression with
      | error fault =>
        rw [evaluated] at flat
        cases flat
      | ok value =>
        rw [evaluated] at flat
        obtain rfl := Except.ok.inj flat
        exact ⟨_, rfl, alike.define key value⟩
    | _ :: _ :: _ =>
      rw [flattenBody] at flat
      · cases flat
      · simp
termination_by structural body

end

/-- A properties file defines the same names above tables that are alike. -/
theorem parse_alike {lower other values : Table} (alike : Table.Alike lower other) {text : String}
    {path : Path} (parsed : parse text path lower = .ok values) : parse text path other = .ok values := by
  rw [parse] at parsed ⊢
  dsimp only at parsed ⊢
  cases read : Recipe.readDeclarations text with
  | error error =>
    rw [read] at parsed
    cases parsed
  | ok declarations =>
    rw [read] at parsed
    dsimp only at parsed ⊢
    cases flat : flatten "" declarations ⟨lower, []⟩ with
    | error fault =>
      rw [flat] at parsed
      cases parsed
    | ok tables =>
      rw [flat] at parsed
      obtain rfl := Except.ok.inj parsed
      have start : Tables.Alike ⟨lower, []⟩ ⟨other, []⟩ := ⟨alike, rfl⟩
      obtain ⟨more, flat', alike'⟩ := flatten_alike start "" declarations flat
      rw [flat', alike'.defined]

end Properties

/-- The two tables make tables alike when they are laid above the same one. -/
def Table.Interchangeable (values more : Table) : Prop :=
  ∀ lower : Table, lower.Ordered → Table.Alike (lower.overwriteAll values) (lower.overwriteAll more)

theorem Table.Interchangeable.refl (values : Table) : Table.Interchangeable values values :=
  fun _ ordered => .refl (Table.ordered_overwriteAll ordered values)

theorem Table.Alike.interchangeable {values more : Table} (alike : Table.Alike values more) :
    Table.Interchangeable values more :=
  fun _ ordered => Table.overwriteAll_alike ordered alike

namespace Environment

/-- The tables that recipes see and those that their bases inherit are alike. -/
structure Alike (environment other : Environment) : Prop where
  merged : Table.Alike environment.merged other.merged
  inheritable : Table.Alike environment.inheritable other.inheritable

theorem ordered_merged (layers : List Layer) : (ofLayers layers).merged.Ordered := by
  rw [merged_ofLayers]
  exact Table.ordered_overwriteAll Table.ordered_nil _

theorem Alike.refl (layers : List Layer) : (ofLayers layers).Alike (ofLayers layers) := by
  refine ⟨.refl (ordered_merged layers), ?_⟩
  rw [inheritable_ofLayers]
  exact .refl (ordered_merged _)

theorem Alike.lookup? {environment other : Environment} (alike : environment.Alike other) :
    environment.lookup? = other.lookup? :=
  alike.merged.lookup?

theorem inheritable_push (environment : Environment) (layer : Layer) :
    (environment.push layer).inheritable =
      if layer.source = .ambient then environment.inheritable
      else environment.inheritable.overwriteAll layer.values := by
  rw [inheritable, push, List.filter_append, List.foldl_append, ← inheritable]
  by_cases ambient : layer.source = .ambient
  · simp [ambient]
  · simp [ambient]

theorem Alike.push {environment other : Environment} (alike : environment.Alike other)
    (source : LayerSource) {values more : Table} (same : Table.Interchangeable values more) :
    (environment.push ⟨source, values⟩).Alike (other.push ⟨source, more⟩) := by
  have above {lower upper : Table} (tables : Table.Alike lower upper) :
      Table.Alike (lower.overwriteAll values) (upper.overwriteAll more) :=
    (tables.overwriteAll values).trans (same upper tables.ordered)
  refine ⟨above alike.merged, ?_⟩
  rw [inheritable_push, inheritable_push]
  dsimp only
  split
  · exact alike.inheritable
  · exact above alike.inheritable

theorem Alike.push? {environment other : Environment} (alike : environment.Alike other)
    (source : LayerSource) {values more : Option Table} (same : Option.Rel Table.Interchangeable values more) :
    (environment.push? source values).Alike (other.push? source more) := by
  cases same with
  | none => exact alike
  | some same => exact alike.push source same

end Environment

namespace EnvironmentInputs

/-- The layers that do not come from files next to the recipe and lie below those. -/
def given (inputs : EnvironmentInputs) : List Layer :=
  [⟨.defaults, inputs.defaults⟩] ++ (inputs.inherited.map (Layer.mk .inherited)).toList

/-- The same files lie above tables that are alike. -/
structure Alike (inputs other : EnvironmentInputs) : Prop where
  recipeFile : inputs.recipeFile = other.recipeFile
  propertiesFile : inputs.propertiesFile = other.propertiesFile
  overrides : inputs.overrides = other.overrides
  ambient : inputs.ambient = other.ambient
  overridesLimit : inputs.overridesLimit = other.overridesLimit
  given : (Environment.ofLayers inputs.given).Alike (Environment.ofLayers other.given)
  external : Option.Rel Table.Interchangeable inputs.external other.external

/-- The layers of the inputs make up the environment above the given ones. -/
theorem ofLayers_layers (inputs : EnvironmentInputs) (properties overrides : Option Table) :
    .ofLayers (inputs.layers properties overrides) =
      ((((Environment.ofLayers inputs.given).push? .propertiesFile properties).push?
        .overrides overrides).push? .external inputs.external).push ⟨.ambient, inputs.ambientTable⟩ := by
  simp only [layers, given, Environment.ofLayers_concat, Environment.ofLayers_optional]

theorem rel_refl (values : Option Table) : Option.Rel Table.Interchangeable values values := by
  cases values with
  | none => exact .none
  | some values => exact .some (.refl values)

/-- Inputs that are alike build environments that are alike. -/
theorem build_alike {inputs other : EnvironmentInputs} (alike : inputs.Alike other) {files : FileTree}
    {environment : Environment} {before : Sources}
    (built : Running.Gives (inputs.build files) before environment)
    (sources : Sources) :
    ∃ more, Running.Gives (other.build files) sources more ∧ environment.Alike more := by
  obtain ⟨_, ⟨properties, overrides, defined, overridden, rfl⟩, rfl⟩ := build_gives.mp built
  have lower := alike.given
  have middle := lower.push? .propertiesFile (rel_refl properties)
  have upper := ((middle.push? .overrides (rel_refl overrides)).push? .external alike.external).push
    .ambient (.refl inputs.ambientTable)
  obtain ⟨recipeFile, propertiesFile, overrides', ambient, limit, -, -⟩ := alike
  have table : inputs.ambientTable = other.ambientTable := by
    rw [ambientTable, ambientTable, recipeFile, ambient]
  have defined' : other.PropertiesDefine files (Environment.ofLayers other.given).merged properties := by
    have path : inputs.propertiesPath? files = other.propertiesPath? files := by
      rw [propertiesPath?, propertiesPath?, sibling?, sibling?, propertiesFile, recipeFile]
    cases properties with
    | none => exact path.symm.trans defined
    | some values =>
      obtain ⟨file, text, here, read, parsed⟩ := defined
      exact ⟨file, text, path.symm.trans here, read, Properties.parse_alike lower.merged parsed⟩
  have overridden' : other.OverridesDefine files
      ((Environment.ofLayers other.given).push? .propertiesFile properties).merged overrides := by
    have path : inputs.overridesText? files = other.overridesText? files := by
      simp only [overridesText?, sibling?, overrides', recipeFile]
    rw [Environment.ofLayers_optional] at overridden
    cases overrides with
    | none => exact path.symm.trans overridden
    | some values =>
      obtain ⟨file, text, here, small, parsed⟩ := overridden
      exact ⟨file, text, path.symm.trans here, limit ▸ small, Properties.parse_alike middle.merged parsed⟩
  refine ⟨_, build_gives.mpr ⟨_, ⟨properties, overrides, defined', ?_, rfl⟩, rfl⟩, ?_⟩
  · rw [Environment.ofLayers_optional]
    exact overridden'
  · rw [ofLayers_layers, ofLayers_layers, ← table]
    exact upper

end EnvironmentInputs

end DeployRecipe
