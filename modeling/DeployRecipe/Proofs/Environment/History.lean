import DeployRecipe.Environment.Files
import DeployRecipe.Proofs.Environment.Overwrite
import DeployRecipe.Proofs.Running

/-!
The table of an environment as its history. The layers write entries one after the other, and what stands
in the table at the end is the last entry of each name after which no name around it was written; that
entry belongs to the highest layer that has the name.
-/

namespace DeployRecipe

namespace Table

/-- The last entry of a name in a history has the value, and no name around it is written after that
entry. -/
def Stands (history : Table) (key : String) (value : Value) : Prop :=
  ∃ before after, history = before ++ (key, value) :: after ∧
    ∀ entry ∈ after, entry.1 ≠ key ∧ DottedName.isWithin key entry.1 = false

theorem not_stands_nil (key : String) (value : Value) : ¬ Stands [] key value := by
  rintro ⟨before, after, split, _⟩
  simp at split

/-- One more entry gives its own name a value, ends the names within it and leaves the others. -/
theorem stands_concat (history : Table) (entry : String × Value) (key : String) (value : Value) :
    Stands (history ++ [entry]) key value ↔
      if entry.1 = key then entry.2 = value
      else DottedName.isWithin key entry.1 = false ∧ Stands history key value := by
  constructor
  · rintro ⟨before, after, split, quiet⟩
    rcases List.eq_nil_or_concat after with rfl | ⟨first, last, rfl⟩
    · obtain ⟨_, same⟩ := List.append_inj' split rfl
      obtain rfl := List.singleton_inj.mp same
      simp
    · rw [List.concat_eq_append] at quiet
      rw [List.concat_eq_append, ← List.cons_append, ← List.append_assoc] at split
      obtain ⟨rest, same⟩ := List.append_inj' split rfl
      obtain rfl := List.singleton_inj.mp same
      obtain ⟨differs, outside⟩ := quiet entry (by simp)
      rw [if_neg differs]
      exact ⟨outside, before, first, rest, fun other member => quiet other (by simp [member])⟩
  · split
    · rintro rfl
      rename_i same
      exact ⟨history, [], by simp [← same], by simp⟩
    · rename_i differs
      rintro ⟨outside, before, after, rfl, quiet⟩
      refine ⟨before, after ++ [entry], by simp, ?_⟩
      intro other member
      rcases List.mem_append.mp member with early | late
      · exact quiet other early
      · obtain rfl := List.mem_singleton.mp late
        exact ⟨differs, outside⟩

/-- Overwriting entry by entry leaves exactly what stands at the end. -/
theorem find?_overwriteAll_nil (history : Table) (key : String) (value : Value) :
    (overwriteAll [] history).find? key = some value ↔ Stands history key value := by
  induction history using List.reverseRecOn with
  | nil => simp [not_stands_nil]
  | append_singleton history entry inductionHypothesis =>
    rw [overwriteAll_append, overwriteAll_cons, overwriteAll_nil, find?_overwrite, stands_concat]
    by_cases same : entry.1 = key
    · simp [same]
    · by_cases inside : DottedName.isWithin key entry.1 <;>
        simp [same, inside, inductionHypothesis]

theorem Stands.find?_reverse {history : Table} {key : String} {value : Value}
    (stands : Stands history key value) : Entries.find? history.reverse key = some value := by
  obtain ⟨before, after, rfl, quiet⟩ := stands
  have absent : Entries.find? after.reverse key = none := by
    rw [Entries.find?_eq_none_iff]
    exact fun entry member => (quiet entry (List.mem_reverse.mp member)).1
  rw [List.reverse_append, List.reverse_cons, List.append_assoc, Entries.find?_append, absent]
  simp [Entries.find?]

/-- A later part of a history without the name can only end what stood before. -/
theorem Stands.of_append {first rest : Table} {key : String} {value : Value}
    (stands : Stands (first ++ rest) key value)
    (absent : Entries.find? rest.reverse key = none) : Stands first key value := by
  induction rest using List.reverseRecOn with
  | nil => simpa using stands
  | append_singleton rest entry inductionHypothesis =>
    rw [List.reverse_append, Entries.find?_append, Option.or_eq_none_iff] at absent
    have differs : entry.1 ≠ key := (Entries.find?_eq_none_iff _ _).mp absent.1 entry (by simp)
    rw [← List.append_assoc, stands_concat, if_neg differs] at stands
    exact inductionHypothesis stands.2 absent.2

theorem Stands.append_left {rest : Table} {key : String} {value : Value} (stands : Stands rest key value)
    (first : Table) : Stands (first ++ rest) key value := by
  obtain ⟨before, after, rfl, quiet⟩ := stands
  exact ⟨first ++ before, after, (List.append_assoc ..).symm, quiet⟩

/-- A later part of a history with neither the name nor a name around it leaves what stood before. -/
theorem Stands.append_right {first rest : Table} {key : String} {value : Value} (stands : Stands first key value)
    (quiet : ∀ entry ∈ rest, entry.1 ≠ key ∧ DottedName.isWithin key entry.1 = false) :
    Stands (first ++ rest) key value := by
  obtain ⟨before, after, rfl, still⟩ := stands
  refine ⟨before, after ++ rest, by simp, fun entry member => ?_⟩
  exact (List.mem_append.mp member).elim (still entry) (quiet entry)

end Table

namespace Layer

/-- The value that a layer gives a name: that of its last entry. -/
def value? (layer : Layer) (key : String) : Option Value :=
  Entries.find? layer.values.reverse key

/-- A layer whose names are distinct has one entry for each. -/
theorem value?_eq_find? (layer : Layer) (distinct : layer.values.keys.Nodup) (key : String) :
    layer.value? key = layer.values.find? key := by
  have reversed : (Entries.keys layer.values.reverse).Nodup := by
    simpa [Entries.keys] using distinct
  cases found : layer.values.find? key with
  | some value =>
    exact Entries.find?_of_mem reversed (List.mem_reverse.mpr (Entries.mem_of_find? found))
  | none =>
    rw [value?, Entries.find?_eq_none_iff]
    intro entry member
    exact (Entries.find?_eq_none_iff _ _).mp found entry (List.mem_reverse.mp member)

theorem value?_eq_none_iff (layer : Layer) (key : String) :
    layer.value? key = none ↔ layer.values.has key = false := by
  rw [value?, Entries.has, Option.isSome_eq_false_iff, Option.isNone_iff_eq_none,
    Entries.find?_eq_none_iff, Entries.find?_eq_none_iff]
  simp

end Layer

namespace Environment

/-- The environment of layers that are pushed one after the other. -/
def ofLayers (layers : List Layer) : Environment :=
  layers.foldl push empty

/-- The highest layer that has a name gives it a value. -/
def HighestGives (environment : Environment) (key : String) (value : Value) : Prop :=
  ∃ lower layer upper, environment.layers = lower ++ layer :: upper ∧
    layer.value? key = some value ∧ (∀ higher ∈ upper, higher.value? key = none) ∧
      environment.sourceOf? key = some layer.source

theorem ofLayers_concat (layers : List Layer) (layer : Layer) :
    ofLayers (layers ++ [layer]) = (ofLayers layers).push layer := by
  simp [ofLayers]

theorem layers_ofLayers (layers : List Layer) : (ofLayers layers).layers = layers := by
  induction layers using List.reverseRecOn with
  | nil => rfl
  | append_singleton layers layer inductionHypothesis =>
    rw [ofLayers_concat, push, inductionHypothesis]

theorem merged_ofLayers (layers : List Layer) :
    (ofLayers layers).merged = Table.overwriteAll [] (layers.flatMap Layer.values) := by
  induction layers using List.reverseRecOn with
  | nil => rfl
  | append_singleton layers layer inductionHypothesis =>
    rw [ofLayers_concat, push, inductionHypothesis, List.flatMap_append, Table.overwriteAll_append]
    simp

theorem inheritable_ofLayers (layers : List Layer) :
    (ofLayers layers).inheritable =
      (ofLayers (layers.filter fun layer => layer.source ≠ .ambient)).merged := by
  rw [inheritable, layers_ofLayers, merged_ofLayers]
  generalize layers.filter (fun layer => layer.source ≠ .ambient) = kept
  induction kept using List.reverseRecOn with
  | nil => rfl
  | append_singleton kept layer inductionHypothesis =>
    rw [List.foldl_append, inductionHypothesis, List.flatMap_append, Table.overwriteAll_append]
    simp

/-- What stands after all layers was written last by the highest layer that has the name. -/
theorem highestGives_of_stands (layers : List Layer) (key : String) (value : Value)
    (stands : Table.Stands (layers.flatMap Layer.values) key value) :
    (ofLayers layers).HighestGives key value := by
  induction layers using List.reverseRecOn with
  | nil => exact absurd stands (Table.not_stands_nil key value)
  | append_singleton layers layer inductionHypothesis =>
    rw [List.flatMap_append, List.flatMap_singleton] at stands
    have last := stands.find?_reverse
    rw [List.reverse_append, Entries.find?_append] at last
    cases found : layer.value? key with
    | some content =>
      have same : some content = some value := by
        rwa [show Entries.find? layer.values.reverse key = some content from found] at last
      have present : layer.values.has key = true := by
        rw [← Bool.not_eq_false, ← Layer.value?_eq_none_iff, found]
        simp
      refine ⟨layers, layer, [], layers_ofLayers _, found.trans same, by simp, ?_⟩
      rw [sourceOf?, layers_ofLayers, List.reverse_append]
      simp [present]
    | none =>
      obtain ⟨lower, giving, upper, split, gives, quiet, source⟩ :=
        inductionHypothesis (stands.of_append found)
      rw [layers_ofLayers] at split
      have missing := (layer.value?_eq_none_iff key).mp found
      refine ⟨lower, giving, upper ++ [layer], ?_, gives, ?_, ?_⟩
      · rw [layers_ofLayers, split]
        simp
      · intro higher member
        rcases List.mem_append.mp member with below | top
        · exact quiet higher below
        · exact List.mem_singleton.mp top ▸ found
      · rw [sourceOf?, layers_ofLayers] at source ⊢
        rw [List.reverse_append]
        simpa [missing] using source

theorem ofLayers_optional (layers : List Layer) (source : LayerSource) (values : Option Table) :
    ofLayers (layers ++ (values.map (Layer.mk source)).toList) =
      (ofLayers layers).push? source values := by
  cases values with
  | none => simp [push?]
  | some values => simp [push?, ofLayers_concat]

end Environment

namespace EnvironmentInputs

/-- The properties file defines a table, in sight of another one; without a file there is none. -/
def PropertiesDefine (inputs : EnvironmentInputs) (files : FileTree) (visible : Table) :
    Option Table → Prop
  | none => inputs.propertiesPath? files = none
  | some values => ∃ path text, inputs.propertiesPath? files = some path ∧
      files.readText path = .ok text ∧ Properties.parse text path visible = .ok values

/-- The overrides define a table, in sight of another one; without overrides there is none. -/
def OverridesDefine (inputs : EnvironmentInputs) (files : FileTree) (visible : Table) :
    Option Table → Prop
  | none => inputs.overridesText? files = .ok none
  | some values => ∃ path text, inputs.overridesText? files = .ok (some (path, text)) ∧
      text.utf8ByteSize ≤ inputs.overridesLimit ∧ Properties.parse text path visible = .ok values

/-- The layers of the inputs, the lowest first: the defaults, what is inherited, the properties file, the
overrides, the external table and the ambient one. -/
def layers (inputs : EnvironmentInputs) (properties overrides : Option Table) : List Layer :=
  [⟨.defaults, inputs.defaults⟩] ++ (inputs.inherited.map (Layer.mk .inherited)).toList ++
    (properties.map (Layer.mk .propertiesFile)).toList ++
    (overrides.map (Layer.mk .overrides)).toList ++
    (inputs.external.map (Layer.mk .external)).toList ++ [⟨.ambient, inputs.ambientTable⟩]

/-- The layers of inputs with the tables that the files define, each in sight of the layers below it. -/
def Lays (inputs : EnvironmentInputs) (files : FileTree) (result : List Layer) : Prop :=
  ∃ properties overrides,
    let given := [⟨.defaults, inputs.defaults⟩] ++ (inputs.inherited.map (Layer.mk .inherited)).toList
    let underOverrides := given ++ (properties.map (Layer.mk .propertiesFile)).toList
    inputs.PropertiesDefine files (Environment.ofLayers given).merged properties ∧
      inputs.OverridesDefine files (Environment.ofLayers underOverrides).merged overrides ∧
        result = inputs.layers properties overrides

theorem pushText_gives {environment above : Environment} {source : LayerSource} {path : Path}
    {text : String} {before : Sources} :
    Running.Gives (pushText environment source path text) before above ↔
      ∃ values, Properties.parse text path environment.merged = .ok values ∧
        above = environment.push ⟨source, values⟩ := by
  simp only [pushText, recordSource, Running.gives_bind, Running.modify_eq_ok, Running.ofExcept_eq_ok,
    Running.gives_pure]
  constructor
  · rintro ⟨_, _, _, values, _, ⟨parsed, _⟩, same⟩
    exact ⟨values, parsed, same.symm⟩
  · rintro ⟨values, parsed, same⟩
    exact ⟨(), _, rfl, values, _, ⟨parsed, rfl⟩, same.symm⟩

theorem pushProperties_gives {inputs : EnvironmentInputs} {files : FileTree}
    {environment above : Environment} {before : Sources} :
    Running.Gives (inputs.pushProperties files environment) before above ↔
      ∃ values, inputs.PropertiesDefine files environment.merged values ∧
        above = environment.push? .propertiesFile values := by
  rw [pushProperties]
  cases found : inputs.propertiesPath? files with
  | none =>
    rw [Running.gives_pure]
    constructor
    · rintro rfl
      exact ⟨none, found, rfl⟩
    · rintro ⟨_ | values, defined, rfl⟩
      · rfl
      · obtain ⟨_, _, here, _⟩ := defined
        rw [found] at here
        cases here
  | some path =>
    simp only [Running.gives_bind, Running.ofExcept_eq_ok, pushText_gives]
    constructor
    · rintro ⟨text, _, ⟨read, _⟩, values, parsed, rfl⟩
      exact ⟨some values, ⟨path, text, found, read, parsed⟩, rfl⟩
    · rintro ⟨_ | values, defined, rfl⟩
      · exact absurd (found.symm.trans defined) (by simp)
      · obtain ⟨_, text, here, read, parsed⟩ := defined
        obtain rfl := Option.some.inj (found.symm.trans here)
        exact ⟨text, before, ⟨read, rfl⟩, values, parsed, rfl⟩

theorem pushOverrides_gives {inputs : EnvironmentInputs} {files : FileTree}
    {environment above : Environment} {before : Sources} :
    Running.Gives (inputs.pushOverrides files environment) before above ↔
      ∃ values, inputs.OverridesDefine files environment.merged values ∧
        above = environment.push? .overrides values := by
  simp only [pushOverrides, Running.gives_bind, Running.ofExcept_eq_ok]
  constructor
  · rintro ⟨found, _, ⟨read, _⟩, pushed⟩
    rcases found with _ | ⟨path, text⟩
    · exact ⟨none, read, ((Running.gives_pure _ _ _).mp pushed).symm⟩
    · dsimp only at pushed
      split at pushed
      · obtain ⟨_, _, thrown, _⟩ := (Running.gives_bind _ _ _ _).mp pushed
        exact absurd thrown (Running.throw_ne_ok _ _ _ _)
      · rename_i small
        obtain ⟨values, parsed, rfl⟩ := pushText_gives.mp pushed
        exact ⟨some values, ⟨path, text, read, by omega, parsed⟩, rfl⟩
  · rintro ⟨_ | values, defined, rfl⟩
    · exact ⟨none, before, ⟨defined, rfl⟩, (Running.gives_pure _ _ _).mpr rfl⟩
    · obtain ⟨path, text, read, small, parsed⟩ := defined
      refine ⟨some (path, text), before, ⟨read, rfl⟩, ?_⟩
      dsimp only
      rw [if_neg (by omega)]
      exact pushText_gives.mpr ⟨values, parsed, rfl⟩

/-- The environment of a recipe is that of its layers. -/
theorem build_gives {inputs : EnvironmentInputs} {files : FileTree} {environment : Environment}
    {before : Sources} :
    Running.Gives (inputs.build files) before environment ↔
      ∃ layers, inputs.Lays files layers ∧ environment = .ofLayers layers := by
  have given : (Environment.empty.push ⟨.defaults, inputs.defaults⟩).push? .inherited inputs.inherited =
      .ofLayers ([⟨.defaults, inputs.defaults⟩] ++
        (inputs.inherited.map (Layer.mk .inherited)).toList) := by
    rw [Environment.ofLayers_optional]
    rfl
  have whole (properties overrides : Option Table) :
      .ofLayers (inputs.layers properties overrides) =
        ((((Environment.ofLayers ([⟨.defaults, inputs.defaults⟩] ++
          (inputs.inherited.map (Layer.mk .inherited)).toList)).push? .propertiesFile properties).push?
            .overrides overrides).push? .external inputs.external).push ⟨.ambient, inputs.ambientTable⟩ := by
    simp only [layers, Environment.ofLayers_concat, Environment.ofLayers_optional]
  rw [build]
  dsimp only
  rw [given]
  constructor
  · intro built
    obtain ⟨_, _, first, built⟩ := (Running.gives_bind _ _ _ _).mp built
    obtain ⟨_, _, second, built⟩ := (Running.gives_bind _ _ _ _).mp built
    obtain rfl := (Running.gives_pure _ _ _).mp built
    obtain ⟨properties, defined, rfl⟩ := pushProperties_gives.mp ⟨_, first⟩
    obtain ⟨overrides, overridden, rfl⟩ := pushOverrides_gives.mp ⟨_, second⟩
    rw [← Environment.ofLayers_optional] at overridden
    exact ⟨_, ⟨properties, overrides, defined, overridden, rfl⟩, (whole properties overrides).symm⟩
  · rintro ⟨_, ⟨properties, overrides, defined, overridden, rfl⟩, rfl⟩
    obtain ⟨_, first⟩ := pushProperties_gives.mpr ⟨properties, defined, rfl⟩
    rw [Environment.ofLayers_optional] at overridden
    obtain ⟨_, second⟩ := pushOverrides_gives.mpr ⟨overrides, overridden, rfl⟩
    refine (Running.gives_bind _ _ _ _).mpr ⟨_, _, first, ?_⟩
    refine (Running.gives_bind _ _ _ _).mpr ⟨_, _, second, ?_⟩
    exact (Running.gives_pure _ _ _).mpr (whole properties overrides).symm

end EnvironmentInputs

namespace Environment

/-- The table of layers holds exactly what stands at the end of their history, each value from the highest
layer that has the name; the inherited table is that of the layers that are not ambient. So the table
that is built for a recipe has each value from the highest of its inputs. -/
theorem table_exact :
    (∀ layers key value,
      (ofLayers layers).merged.find? key = some value ↔
        Table.Stands (layers.flatMap Layer.values) key value) ∧
    (∀ layers key value, (ofLayers layers).merged.find? key = some value →
      (ofLayers layers).HighestGives key value) ∧
    (∀ layers, (ofLayers layers).inheritable =
      (ofLayers (layers.filter fun layer => layer.source ≠ .ambient)).merged) ∧
    (∀ (inputs : EnvironmentInputs) files before environment after,
      inputs.build files before = .ok environment after →
        inputs.Lays files environment.layers ∧
          ∀ key value, environment.merged.find? key = some value →
            environment.HighestGives key value) := by
  have exact (layers : List Layer) (key : String) (value : Value) :
      (ofLayers layers).merged.find? key = some value ↔
        Table.Stands (layers.flatMap Layer.values) key value := by
    rw [merged_ofLayers, Table.find?_overwriteAll_nil]
  have highest (layers : List Layer) (key : String) (value : Value)
      (found : (ofLayers layers).merged.find? key = some value) :
      (ofLayers layers).HighestGives key value :=
    highestGives_of_stands layers key value ((exact layers key value).mp found)
  refine ⟨exact, highest, inheritable_ofLayers, ?_⟩
  intro inputs files before environment after built
  obtain ⟨layers, lays, rfl⟩ := EnvironmentInputs.build_gives.mp ⟨after, built⟩
  exact ⟨by rwa [layers_ofLayers], highest layers⟩

/-- The inherited value hides the default one, and with it the default of a name within. -/
theorem table_exact_inherited :
    ∃ (inputs : EnvironmentInputs) (environment : Environment) (after : Sources),
      inputs.defaults = [("k", .int 1), ("k.a", .int 2)] ∧ inputs.inherited = some [("k", .int 3)] ∧
      inputs.build (FileTree.empty ["w"]) [] = .ok environment after ∧
      environment.merged.find? "k.a" = none ∧ environment.HighestGives "k" (.int 3) := by
  have built : EnvironmentInputs.build ⟨⟨"/w/a-service.recipe"⟩, [("k", .int 1), ("k.a", .int 2)],
      some [("k", .int 3)], none, none, some [("d.x", .int 5)], [("m", .null)], 100⟩
      (FileTree.empty ["w"]) [] = .ok (ofLayers [
        ⟨.defaults, [("k", .int 1), ("k.a", .int 2)]⟩, ⟨.inherited, [("k", .int 3)]⟩,
        ⟨.external, [("d.x", .int 5)]⟩,
        ⟨.ambient, [("m", .null), ("recipeFilePath", .text "/w/a-service.recipe"),
          ("recipeDir", .text "/w")]⟩]) [] := rfl
  have highest := (table_exact.2.2.2 _ _ _ _ _ built).2
  exact ⟨_, _, _, rfl, rfl, built, rfl, highest "k" (.int 3) rfl⟩

end Environment

end DeployRecipe
