import DeployRecipe.Compilation.Statement
import DeployRecipe.Proofs.Environment.History
import DeployRecipe.Proofs.Environment.Order

/-!
The table that a recipe hands down to its base. A table that is laid above the defaults it was made from comes
out with the same entries, so along a chain of bases without files of their own every base hands down what the
first recipe does.
-/

namespace DeployRecipe

open DottedName (isWithin)

namespace Table

/-- What an ordered table holds stands at its end. -/
theorem Ordered.stands {table : Table} (ordered : table.Ordered) {key : String} {value : Value}
    (found : table.find? key = some value) : Stands table key value := by
  obtain ⟨before, after, rfl⟩ := List.append_of_mem (Entries.mem_of_find? found)
  refine ⟨before, after, rfl, fun entry member => ?_⟩
  rw [Ordered, Entries.keys, List.map_append, List.map_cons, List.pairwise_append, List.pairwise_cons] at ordered
  obtain ⟨differs, outside⟩ := ordered.2.1.1 entry.1 (List.mem_map_of_mem member)
  exact ⟨Ne.symm differs, outside⟩

theorem nodup_keys_of_ordered {table : Table} (ordered : table.Ordered) : table.keys.Nodup :=
  ordered.imp And.left

/-- Ordered tables in which every name has the same value have the same entries. -/
theorem perm_of_find? {table other : Table} (ordered : table.Ordered) (ordered' : other.Ordered)
    (same : ∀ key, table.find? key = other.find? key) : table.Perm other := by
  have distinct {table : Table} (ordered : table.Ordered) : table.Nodup :=
    List.Nodup.of_map Prod.fst (nodup_keys_of_ordered ordered)
  have mem_iff {table : Table} (ordered : table.Ordered) (entry : String × Value) :
      entry ∈ table ↔ table.find? entry.1 = some entry.2 :=
    ⟨fun member => Entries.find?_of_mem (nodup_keys_of_ordered ordered) member, Entries.mem_of_find?⟩
  refine (List.perm_ext_iff_of_nodup (distinct ordered) (distinct ordered')).mpr fun entry => ?_
  rw [mem_iff ordered, mem_iff ordered', same]

/-- A name that is written is there at the end, or a name around it is. -/
theorem covered_of_mem {history : Table} {key : String} (written : key ∈ history.keys) :
    ∃ name ∈ (overwriteAll [] history).keys, name = key ∨ isWithin key name = true := by
  induction history using List.reverseRecOn with
  | nil => exact absurd written List.not_mem_nil
  | append_singleton history entry inductionHypothesis =>
    rw [overwriteAll_append, overwriteAll_cons, overwriteAll_nil, overwrite_eq]
    simp only [Entries.mem_keys_insert, mem_keys_without]
    rw [Entries.keys, List.map_append, List.mem_append] at written
    rcases written with earlier | last
    · obtain ⟨name, there, covers⟩ := inductionHypothesis earlier
      by_cases dropped : isWithin name entry.1 = true
      · refine ⟨entry.1, .inl rfl, .inr ?_⟩
        rcases covers with rfl | inside
        · exact dropped
        · exact DottedName.isWithin_trans inside dropped
      · exact ⟨name, .inr ⟨there, by simpa using dropped⟩, covers⟩
    · exact ⟨entry.1, .inl rfl, .inl (List.mem_singleton.mp last).symm⟩

/-- What stands behind a later part of a history without its name has no name around it in that part. -/
theorem Stands.isWithin_of_append {first rest : Table} {key : String} {value : Value}
    (stands : Stands (first ++ rest) key value) (absent : key ∉ rest.keys) {name : String}
    (there : name ∈ rest.keys) : isWithin key name = false := by
  obtain ⟨before, after, split, quiet⟩ := stands
  obtain ⟨entry, member, rfl⟩ := List.mem_map.mp there
  rcases List.append_eq_append_iff.mp split with ⟨part, -, rest'⟩ | ⟨part, -, rest'⟩
  · rw [rest'] at absent
    exact absurd (by simp [Entries.keys]) absent
  · cases part with
    | nil =>
      rw [List.nil_append] at rest'
      rw [← rest'] at absent
      exact absurd (by simp [Entries.keys]) absent
    | cons last part =>
      obtain ⟨-, after'⟩ := List.cons.inj rest'
      exact (quiet entry (after' ▸ List.mem_append_right part member)).2

/-- To lay a table above the entries that its history began with changes no value. -/
theorem find?_overwriteAll_inherited (first rest : Table) (key : String) :
    (overwriteAll [] (first ++ overwriteAll [] (first ++ rest))).find? key =
      (overwriteAll [] (first ++ rest)).find? key := by
  have ordered : Ordered (overwriteAll [] (first ++ rest)) := ordered_overwriteAll ordered_nil _
  cases found : (overwriteAll [] (first ++ rest)).find? key with
  | some value => exact (find?_overwriteAll_nil _ _ _).mpr ((ordered.stands found).append_left first)
  | none =>
    -- only the first entries could give the name a value, but what covers those is written after them
    by_contra there
    obtain ⟨value, again⟩ := Option.ne_none_iff_exists'.mp there
    have absent := (Entries.find?_eq_none_iff_not_mem_keys _ _).mp found
    have stands := (find?_overwriteAll_nil _ _ _).mp again
    have written : key ∈ Entries.keys (first ++ rest) := by
      obtain ⟨before, after, split, -⟩ := stands
      have member : (key, value) ∈ first ++ overwriteAll [] (first ++ rest) :=
        split ▸ List.mem_append_right _ List.mem_cons_self
      rw [Entries.keys, List.map_append]
      refine List.mem_append_left _ ?_
      rcases List.mem_append.mp member with early | late
      · exact List.mem_map_of_mem early
      · exact absurd (List.mem_map_of_mem late) absent
    obtain ⟨name, outer, covers⟩ := covered_of_mem written
    rcases covers with rfl | inside
    · exact absent outer
    · rw [stands.isWithin_of_append absent outer] at inside
      cases inside

end Table

namespace EnvironmentInputs

/-- The layers above the defaults, without the ambient ones. -/
def aboveDefaults (inputs : EnvironmentInputs) (properties overrides : Option Table) : Table :=
  inputs.inherited.getD [] ++ properties.getD [] ++ overrides.getD [] ++ inputs.external.getD []

theorem inheritable_layers (inputs : EnvironmentInputs) (properties overrides : Option Table) :
    (Environment.ofLayers (inputs.layers properties overrides)).inheritable =
      Table.overwriteAll [] (inputs.defaults ++ inputs.aboveDefaults properties overrides) := by
  rw [Environment.inheritable_ofLayers, Environment.merged_ofLayers, layers, aboveDefaults]
  cases inputs.inherited <;> cases properties <;> cases overrides <;> cases inputs.external <;> simp

/-- There is neither a properties file nor overrides. -/
structure OwnsNoFiles (inputs : EnvironmentInputs) (files : FileTree) : Prop where
  properties : inputs.propertiesPath? files = none
  overrides : inputs.overridesText? files = .ok none

variable {inputs : EnvironmentInputs} {files : FileTree}

/-- Without files there is one environment, and nothing is read for it. -/
theorem OwnsNoFiles.build_eq (own : inputs.OwnsNoFiles files) (before : Sources) :
    inputs.build files before = .ok (.ofLayers (inputs.layers none none)) before := by
  have properties (environment : Environment) : inputs.pushProperties files environment = pure environment := by
    rw [pushProperties, own.properties]
  have overrides (environment : Environment) : inputs.pushOverrides files environment = pure environment := by
    rw [pushOverrides, own.overrides]
    rfl
  have layered : Environment.ofLayers (inputs.layers none none) =
      ((((Environment.empty.push ⟨.defaults, inputs.defaults⟩).push? .inherited inputs.inherited)).push? .external
        inputs.external).push ⟨.ambient, inputs.ambientTable⟩ := by
    simp only [layers, Environment.ofLayers_concat, Environment.ofLayers_optional]
    rfl
  rw [layered, build]
  dsimp only
  rw [properties]
  simp only [pure_bind, overrides]
  rfl

/-- Where no other files are given, those next to the recipe count. -/
theorem OwnsNoFiles.of_siblings (properties : inputs.propertiesFile = none) (overrides : inputs.overrides = none)
    (noProperties : files.isFile (inputs.recipeFile.withExtension "properties") = false)
    (noOverrides : files.isFile (inputs.recipeFile.withExtension "overrides") = false) :
    inputs.OwnsNoFiles files := by
  have without (extension : String)
      (absent : files.isFile (inputs.recipeFile.withExtension extension) = false) :
      inputs.sibling? files extension = none := by
    rw [sibling?, Option.filter_some, absent]
    rfl
  refine ⟨?_, ?_⟩
  · rw [propertiesPath?, properties, without "properties" noProperties]
    rfl
  · simp only [overridesText?, overrides, without "overrides" noOverrides]

/-- The values of the defaults under the inherited table make up the inherited one again. -/
theorem inheritable_of_inherited {child base : EnvironmentInputs} {properties overrides : Option Table}
    (defaults : base.defaults = child.defaults)
    (inherited : base.inherited = some (Environment.ofLayers (child.layers properties overrides)).inheritable)
    (external : base.external = none) :
    (Environment.ofLayers (base.layers none none)).inheritable.Perm
      (Environment.ofLayers (child.layers properties overrides)).inheritable := by
  rw [inheritable_layers, aboveDefaults, inherited, external, defaults, inheritable_layers]
  simp only [Option.getD_some, Option.getD_none, List.append_nil]
  exact Table.perm_of_find? (Table.ordered_overwriteAll Table.ordered_nil _)
    (Table.ordered_overwriteAll Table.ordered_nil _) (Table.find?_overwriteAll_inherited _ _)

end EnvironmentInputs

namespace Environment

/-- What is handed down has only names that a layer has which is not ambient. -/
theorem find?_inheritable_of_ambient {layers : List Layer} {key : String}
    (ambient : ∀ layer ∈ layers, layer.source ≠ .ambient → layer.values.has key = false) :
    (ofLayers layers).inheritable.find? key = none := by
  have absent : key ∉ Entries.keys ((layers.filter fun layer => layer.source ≠ .ambient).flatMap Layer.values) := by
    intro member
    obtain ⟨entry, there, rfl⟩ := List.mem_map.mp member
    obtain ⟨layer, kept, inside⟩ := List.mem_flatMap.mp there
    obtain ⟨here, other⟩ := List.mem_filter.mp kept
    have missing := ambient layer here (by simpa using other)
    rw [Entries.has, Option.isSome_eq_false_iff, Option.isNone_iff_eq_none, Entries.find?_eq_none_iff] at missing
    exact missing entry inside rfl
  rw [inheritable_ofLayers, merged_ofLayers]
  by_contra found
  obtain ⟨value, held⟩ := Option.ne_none_iff_exists'.mp found
  obtain ⟨before, after, split, -⟩ := (Table.find?_overwriteAll_nil _ _ _).mp held
  exact absent (split ▸ by simp [Entries.keys])

/-- Builds the environments of bases one below the other, each of which inherits the table of the one above. -/
def alongBases (job : Job) (environment : Environment) (bases : List Path) : Recording Environment :=
  bases.foldlM (fun above base =>
    ((Evaluation.Handover.inherited above.inheritable).inputs job base).build job.files) environment

/-- Bases without files of their own get an environment each, and the last one hands down what the first recipe
does. -/
theorem alongBases_perm {job : Job} {child : EnvironmentInputs} {properties overrides : Option Table}
    (defaults : child.defaults = job.settings.defaults) {bases : List Path}
    (bare : ∀ base ∈ bases, job.files.isFile (base.withExtension "properties") = false ∧
      job.files.isFile (base.withExtension "overrides") = false) (sources : Sources) :
    ∃ last, alongBases job (.ofLayers (child.layers properties overrides)) bases sources = .ok last sources ∧
      last.inheritable.Perm (ofLayers (child.layers properties overrides)).inheritable := by
  induction bases generalizing child properties overrides with
  | nil => exact ⟨_, rfl, .refl _⟩
  | cons base rest inductionHypothesis =>
    obtain ⟨⟨noProperties, noOverrides⟩, further⟩ := List.forall_mem_cons.mp bare
    let lower := (Evaluation.Handover.inherited (ofLayers (child.layers properties overrides)).inheritable).inputs
      job base
    have place : lower.recipeFile = base := rfl
    have own : lower.OwnsNoFiles job.files :=
      .of_siblings rfl rfl (by rw [place, noProperties]) (by rw [place, noOverrides])
    have built := own.build_eq sources
    have same : (ofLayers (lower.layers none none)).inheritable.Perm
        (ofLayers (child.layers properties overrides)).inheritable :=
      EnvironmentInputs.inheritable_of_inherited defaults.symm rfl rfl
    obtain ⟨last, run, perm⟩ := @inductionHypothesis lower none none rfl further
    exact ⟨last, (Running.bind_of_ok built _).trans run, perm.trans same⟩

/-- Inheritance hands the table down unchanged. A base without files of its own, built with the same defaults
above which the recipe's table is laid, hands down the same entries; so does the last of any number of such bases,
each of which is extended by the one before it. No name that only ambient layers have is among them. -/
theorem inheritable_along_bases {child : EnvironmentInputs} {files : FileTree} {before : Sources}
    {environment : Environment} (built : Running.Gives (child.build files) before environment) :
    (∀ (base : EnvironmentInputs) (place : FileTree) (sources : Sources), base.defaults = child.defaults →
      base.inherited = some environment.inheritable → base.external = none → base.OwnsNoFiles place →
      ∃ lower, base.build place sources = .ok lower sources ∧
        lower.inheritable.Perm environment.inheritable) ∧
    (∀ (job : Job) (bases : List Path) (sources : Sources), child.defaults = job.settings.defaults →
      (∀ base ∈ bases, job.files.isFile (base.withExtension "properties") = false ∧
        job.files.isFile (base.withExtension "overrides") = false) →
      ∃ last, alongBases job environment bases sources = .ok last sources ∧
        last.inheritable.Perm environment.inheritable ∧
        ∀ key, (∀ layer ∈ environment.layers, layer.source ≠ .ambient → layer.values.has key = false) →
          last.inheritable.find? key = none) := by
  obtain ⟨_, ⟨properties, overrides, _, _, rfl⟩, rfl⟩ := EnvironmentInputs.build_gives.mp built
  constructor
  · intro base place sources defaults inherited external own
    exact ⟨_, own.build_eq sources, EnvironmentInputs.inheritable_of_inherited defaults inherited external⟩
  · intro job bases sources defaults bare
    obtain ⟨last, run, perm⟩ := alongBases_perm defaults bare sources
    refine ⟨last, run, perm, fun key ambient => ?_⟩
    rw [layers_ofLayers] at ambient
    have nowhere := find?_inheritable_of_ambient ambient
    rw [Entries.find?_eq_none_iff] at nowhere ⊢
    exact fun entry member => nowhere entry (perm.mem_iff.mp member)

/-- A table in which a name hides one of the defaults, two bases below. -/
theorem inheritable_along_bases_hidden :
    let settings := { Settings.standard with defaults := [("k", .int 1), ("k.a", .int 2)] }
    let job := Job.plain (FileTree.empty ["w"]) settings
    let child : EnvironmentInputs := ⟨⟨"/w/a-service.recipe"⟩, settings.defaults, none, none, none,
      some [("k", .int 3), ("k.b", .int 4)], [("m", .null)], 100⟩
    ∃ environment last, child.build job.files [] = .ok environment [] ∧
      alongBases job environment [⟨"/w/b-service.recipe"⟩, ⟨"/w/c-service.recipe"⟩] [] = .ok last [] ∧
      last.inheritable.Perm environment.inheritable ∧
      environment.inheritable.find? "k.a" = none ∧ environment.inheritable.find? "k.b" = some (.int 4) ∧
      last.inheritable.find? "recipeFilePath" = none := by
  intro settings job child
  have built : child.build job.files [] = .ok (.ofLayers (child.layers none none)) [] :=
    (EnvironmentInputs.OwnsNoFiles.of_siblings rfl rfl (by decide +kernel) (by decide +kernel)).build_eq []
  have bare : ∀ base ∈ [⟨"/w/b-service.recipe"⟩, ⟨"/w/c-service.recipe"⟩],
      job.files.isFile (Path.withExtension base "properties") = false ∧
        job.files.isFile (Path.withExtension base "overrides") = false := by
    decide +kernel
  obtain ⟨last, run, perm, nowhere⟩ := (inheritable_along_bases ⟨_, built⟩).2 job _ [] rfl bare
  refine ⟨_, last, built, run, perm, rfl, rfl, nowhere _ ?_⟩
  intro layer member other
  rw [layers_ofLayers] at member
  have all : ∀ layer ∈ child.layers none none, layer.source = .ambient ∨
      layer.values.has "recipeFilePath" = false := by
    decide +kernel
  exact (all layer member).resolve_left other

end Environment

end DeployRecipe
