import DeployRecipe.Proofs.FileTree

/-!
The record of the files that a compilation reads. It only grows, and an absolute path in it stands for a text
that can be read at that path.
-/

namespace DeployRecipe

namespace Sources

theorem has_iff {sources : Sources} {path : Path} :
    sources.has path = true ↔ ∃ source ∈ sources, source.path.same path = true := by
  simp [has]

theorem has_of_same {sources : Sources} {path other : Path} (recorded : sources.has path = true)
    (same : path.same other = true) : sources.has other = true := by
  obtain ⟨source, member, known⟩ := has_iff.mp recorded
  exact has_iff.mpr ⟨source, member, Path.same_trans known same⟩

theorem has_record {sources : Sources} {path other : Path} {text : String} :
    (sources.record path text).has other = true ↔ sources.has other = true ∨ path.same other = true := by
  rw [record]
  split
  · rename_i there
    exact ⟨Or.inl, fun either => either.elim id (has_of_same there)⟩
  · simp [has]

/-- What is recorded under an absolute path was read there. -/
def Read (files : FileTree) (sources : Sources) : Prop :=
  ∀ source ∈ sources, source.path.isAbsolute = true →
    ∃ text, files.readText source.path = .ok text ∧ source.hash = hashText text

theorem Read.nil (files : FileTree) : Read files [] := nofun

/-- No path is recorded twice. -/
def Distinct (sources : Sources) : Prop :=
  sources.Pairwise fun source other => source.path.same other.path = false

theorem Distinct.record {sources : Sources} (distinct : sources.Distinct) (path : Path) (text : String) :
    (sources.record path text).Distinct := by
  rw [Sources.record]
  split
  · exact distinct
  · rename_i free
    refine List.pairwise_append.mpr ⟨distinct, List.pairwise_singleton _ _, fun source member other last => ?_⟩
    obtain rfl := List.mem_singleton.mp last
    by_contra same
    exact free (has_iff.mpr ⟨source, member, by simpa using same⟩)

theorem Distinct.eq {sources : Sources} (distinct : sources.Distinct) {source other : Source}
    (member : source ∈ sources) (member' : other ∈ sources) (same : source.path.same other.path = true) : source = other := by
  by_contra differs
  have symmetric : Std.Symm fun source other : Source => source.path.same other.path = false := by
    refine ⟨fun source other apart => ?_⟩
    rw [← Bool.not_eq_true] at apart ⊢
    exact fun same => apart (Path.same_symm same)
  exact Bool.false_ne_true ((List.Pairwise.forall distinct member member' differs).symm.trans same)

/-- A record that became another one. -/
structure Grow (files : FileTree) (before after : Sources) : Prop where
  keeps : before ⊆ after
  read : before.Read files → after.Read files
  distinct : before.Distinct → after.Distinct

variable {files : FileTree} {before between after : Sources}

theorem has_of_subset (inside : before ⊆ after) {path : Path} (recorded : before.has path = true) :
    after.has path = true := by
  obtain ⟨source, member, same⟩ := has_iff.mp recorded
  exact has_iff.mpr ⟨source, inside member, same⟩

theorem Grow.has (grow : Grow files before after) (path : Path) (recorded : before.has path = true) :
    after.has path = true :=
  has_of_subset grow.keeps recorded

theorem Grow.refl (files : FileTree) (sources : Sources) : Grow files sources sources := ⟨fun _ => id, id, id⟩

theorem Grow.trans (one : Grow files before between) (other : Grow files between after) : Grow files before after :=
  ⟨fun _ there => other.keeps (one.keeps there), fun read => other.read (one.read read),
    fun distinct => other.distinct (one.distinct distinct)⟩

theorem record_subset (sources : Sources) (path : Path) (text : String) : sources ⊆ sources.record path text := by
  rw [record]
  split
  · exact fun _ => id
  · exact fun _ => List.mem_append_left _

theorem Grow.record {path : Path} {text : String}
    (read : path.isAbsolute = true → files.readText path = .ok text) (sources : Sources) :
    Grow files sources (sources.record path text) := by
  refine ⟨record_subset sources path text, fun before => ?_, fun before => before.record path text⟩
  rw [Sources.record]
  split
  · exact before
  · intro source member absolute
    rcases List.mem_append.mp member with old | new
    · exact before source old absolute
    · obtain rfl := List.mem_singleton.mp new
      exact ⟨text, read absolute, rfl⟩

/-- A file that is recorded can be read at every absolute path that can be read at all if one with its
components can. -/
theorem Read.readText {path : Path} (read : before.Read files) (recorded : before.has path = true)
    (absolute : path.isAbsolute = true) (reads : files.Reads path) : ∃ text, files.readText path = .ok text := by
  obtain ⟨source, member, same⟩ := has_iff.mp recorded
  have absolute' : source.path.isAbsolute = true := (Path.moves_of_same same).2.trans absolute
  obtain ⟨text, found, _⟩ := read source member absolute'
  exact ⟨text, reads _ _ same found⟩

end Sources

namespace EnvironmentInputs

variable {inputs : EnvironmentInputs} {files : FileTree} {environment above : Environment} {before after : Sources}

theorem pushText_eq_ok {source : LayerSource} {path : Path} {text : String} :
    pushText environment source path text before = .ok above after ↔
      ∃ values, Properties.parse text path environment.merged = .ok values ∧
        above = environment.push ⟨source, values⟩ ∧ after = before.record path text := by
  simp only [pushText, recordSource, Running.bind_eq_ok, Running.modify_eq_ok, Running.ofExcept_eq_ok,
    Running.pure_eq_ok]
  constructor
  · rintro ⟨_, _, rfl, values, _, ⟨parsed, rfl⟩, rfl, rfl⟩
    exact ⟨values, parsed, rfl, rfl⟩
  · rintro ⟨values, parsed, rfl, rfl⟩
    exact ⟨(), _, rfl, values, _, ⟨parsed, rfl⟩, rfl, rfl⟩

/-- The properties file is recorded where there is one. -/
theorem pushProperties_eq_ok (run : inputs.pushProperties files environment before = .ok above after) :
    inputs.propertiesPath? files = none ∧ after = before ∨
      ∃ path text, inputs.propertiesPath? files = some path ∧ files.readText path = .ok text ∧
        after = before.record path text := by
  rw [pushProperties] at run
  cases found : inputs.propertiesPath? files with
  | none =>
    rw [found] at run
    exact Or.inl ⟨rfl, ((Running.pure_eq_ok _ _ _ _).mp run).2.symm⟩
  | some path =>
    rw [found] at run
    obtain ⟨text, _, reading, pushed⟩ := (Running.bind_eq_ok _ _ _ _ _).mp run
    obtain ⟨read, rfl⟩ := (Running.ofExcept_eq_ok _ _ _ _).mp reading
    obtain ⟨_, _, _, rfl⟩ := pushText_eq_ok.mp pushed
    exact Or.inr ⟨path, text, rfl, read, rfl⟩

/-- The overrides are recorded where there are some. -/
theorem pushOverrides_eq_ok (run : inputs.pushOverrides files environment before = .ok above after) :
    inputs.overridesText? files = .ok none ∧ after = before ∨
      ∃ path text, inputs.overridesText? files = .ok (some (path, text)) ∧ after = before.record path text := by
  rw [pushOverrides] at run
  obtain ⟨found, _, reading, run⟩ := (Running.bind_eq_ok _ _ _ _ _).mp run
  obtain ⟨read, rfl⟩ := (Running.ofExcept_eq_ok _ _ _ _).mp reading
  cases found with
  | none => exact Or.inl ⟨read, ((Running.pure_eq_ok _ _ _ _).mp run).2.symm⟩
  | some pair =>
    obtain ⟨path, text⟩ := pair
    dsimp only at run
    split at run
    · obtain ⟨_, _, thrown, _⟩ := (Running.bind_eq_ok _ _ _ _ _).mp run
      exact absurd thrown (Running.throw_ne_ok _ _ _ _)
    · obtain ⟨_, _, _, rfl⟩ := pushText_eq_ok.mp run
      exact Or.inr ⟨path, text, read, rfl⟩

/-- To build an environment is to lay the properties and then the overrides. -/
theorem build_eq_ok (run : inputs.build files before = .ok above after) :
    ∃ lower upper middle between, inputs.pushProperties files lower before = .ok middle between ∧
      inputs.pushOverrides files middle between = .ok upper after := by
  obtain ⟨middle, between, properties, run⟩ := (Running.bind_eq_ok _ _ _ _ _).mp run
  obtain ⟨upper, last, overrides, finish⟩ := (Running.bind_eq_ok _ _ _ _ _).mp run
  obtain ⟨_, rfl⟩ := (Running.pure_eq_ok _ _ _ _).mp finish
  exact ⟨_, upper, middle, between, properties, overrides⟩

/-- Overrides that stand at an absolute path were read there. -/
theorem readText_of_overridesText? {path : Path} {text : String}
    (found : inputs.overridesText? files = .ok (some (path, text))) (absolute : path.isAbsolute = true) :
    files.readText path = .ok text := by
  have ofFile {other : Path} (read : (files.readText other).map (fun text => some (other, text)) =
      .ok (some (path, text))) : files.readText path = .ok text := by
    obtain ⟨_, there, same⟩ := (Running.map_eq_ok _ _ _).mp read
    obtain ⟨rfl, rfl⟩ := Prod.mk.inj (Option.some.inj same)
    exact there
  rw [overridesText?] at found
  dsimp only at found
  split at found
  · exact ofFile found
  · obtain ⟨rfl, _⟩ := Prod.mk.inj (Option.some.inj (Except.ok.inj found))
    exact absurd absolute (by decide)
  · split at found
    · exact ofFile found
    · cases found

theorem build_grows (run : inputs.build files before = .ok above after) : Sources.Grow files before after := by
  obtain ⟨_, _, _, between, properties, overrides⟩ := build_eq_ok run
  have first : Sources.Grow files before between := by
    rcases pushProperties_eq_ok properties with ⟨_, rfl⟩ | ⟨path, text, _, read, rfl⟩
    · exact .refl _ _
    · exact .record (fun _ => read) _
  refine first.trans ?_
  rcases pushOverrides_eq_ok overrides with ⟨_, rfl⟩ | ⟨path, text, found, rfl⟩
  · exact .refl _ _
  · exact .record (readText_of_overridesText? found) _

end EnvironmentInputs

end DeployRecipe
