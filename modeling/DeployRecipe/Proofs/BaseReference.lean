import DeployRecipe.RecipeFile.Base

/-!
In which order a base is looked for. A candidate settles the search in one of three ways, or it is passed over. The
first candidate that settles the search decides, also where it decides on an error; a search fails as a whole only where
every candidate is passed over. So more search roots matter only where a search failed as a whole.
-/

namespace DeployRecipe.BaseReference

/-- The candidate ends the search with this outcome. -/
inductive Settles (files : FileTree) (candidate : Path) : Except ErrorKind Path → Prop
  /-- A directory ends the search also where it has no service recipe, or more than one. -/
  | directory (directory : files.isDirectory candidate = true) :
    Settles files candidate (files.theFileEndingIn candidate RecipeKind.service.suffix >>= absolute files)
  | file (directory : files.isDirectory candidate = false) (file : files.isFile candidate = true) :
    Settles files candidate (absolute files candidate)
  | extended (directory : files.isDirectory candidate = false) (file : files.isFile candidate = false)
    (extended : files.isFile (candidate.append ".recipe") = true) :
    Settles files candidate (absolute files (candidate.append ".recipe"))

/-- Nothing stands at the candidate that could end the search. -/
def PassedOver (files : FileTree) (candidate : Path) : Prop :=
  files.isDirectory candidate = false ∧ files.isFile candidate = false ∧
    files.isFile (candidate.append ".recipe") = false

/-- The first of the candidates that ends the search ends it with this outcome. -/
def Decide (files : FileTree) (tried : List Path) (outcome : Except ErrorKind Path) : Prop :=
  ∃ before candidate after, tried = before ++ candidate :: after ∧
    (∀ earlier ∈ before, PassedOver files earlier) ∧ Settles files candidate outcome

instance (files : FileTree) (candidate : Path) : Decidable (PassedOver files candidate) :=
  inferInstanceAs (Decidable (_ ∧ _))

variable {files : FileTree} {candidate : Path} {tried further : List Path} {outcome : Except ErrorKind Path}

theorem settle?_eq_some_iff : settle? files candidate = some outcome ↔ Settles files candidate outcome := by
  constructor
  · intro settled
    rw [settle?] at settled
    split at settled
    · obtain rfl := Option.some.inj settled
      exact .directory ‹_›
    · rename_i directory
      rw [Bool.not_eq_true] at directory
      split at settled
      · obtain rfl := Option.some.inj settled
        exact .file directory ‹_›
      · rename_i file
        rw [Bool.not_eq_true] at file
        obtain ⟨extended, same⟩ := Option.ite_none_right_eq_some.mp settled
        obtain rfl := Option.some.inj same
        exact .extended directory file extended
  · intro settles
    cases settles with
    | directory directory => simp [settle?, directory]
    | file directory file => simp [settle?, directory, file]
    | extended directory file extended => simp [settle?, directory, file, extended]

theorem settle?_eq_none_iff : settle? files candidate = none ↔ PassedOver files candidate := by
  rw [settle?, PassedOver]
  cases files.isDirectory candidate <;> cases files.isFile candidate <;> simp

/-- A candidate never ends the search with the failure of the search as a whole. -/
theorem Settles.ne_unresolved (settles : Settles files candidate outcome) (reference : String) (searched : List Path) :
    outcome ≠ .error (.extensionResolutionFailure reference searched) := by
  have absolute (path : Path) : absolute files path ≠ .error (.extensionResolutionFailure reference searched) := by
    rw [BaseReference.absolute]
    split <;> simp
  cases settles with
  | directory directory =>
    rw [FileTree.theFileEndingIn]
    split
    · exact nofun
    · exact absolute _
    · exact nofun
  | file directory file => exact absolute _
  | extended directory file extended => exact absolute _

namespace Decide

theorem findSome?_eq_some : tried.findSome? (settle? files) = some outcome ↔ Decide files tried outcome := by
  simp only [List.findSome?_eq_some_iff, settle?_eq_some_iff, settle?_eq_none_iff, Decide, and_comm]

/-- What is tried later does not matter. -/
theorem append (decision : Decide files tried outcome) (further : List Path) :
    Decide files (tried ++ further) outcome := by
  obtain ⟨before, candidate, after, rfl, passed, settles⟩ := decision
  exact ⟨before, candidate, after ++ further, by simp, passed, settles⟩

/-- What is passed over does not matter. -/
theorem later (decision : Decide files further outcome) (passed : ∀ candidate ∈ tried, PassedOver files candidate) :
    Decide files (tried ++ further) outcome := by
  obtain ⟨before, candidate, after, rfl, passed', settles⟩ := decision
  exact ⟨tried ++ before, candidate, after, by simp, List.forall_mem_append.mpr ⟨passed, passed'⟩, settles⟩

theorem ne_unresolved (decision : Decide files tried outcome) (reference : String) (searched : List Path) :
    outcome ≠ .error (.extensionResolutionFailure reference searched) := by
  obtain ⟨_, _, _, _, _, settles⟩ := decision
  exact settles.ne_unresolved reference searched

end Decide

variable {reference named : String} {directory : Path} {roots searched : List Path}

theorem resolve_of_decide (decision : Decide files (candidates ⟨reference⟩ directory roots) outcome) :
    resolve files reference directory roots = outcome := by
  rw [resolve, Decide.findSome?_eq_some.mpr decision, Option.getD_some]

theorem resolve_of_passedOver
    (passed : ∀ candidate ∈ candidates ⟨reference⟩ directory roots, PassedOver files candidate) :
    resolve files reference directory roots =
      .error (.extensionResolutionFailure reference (candidates ⟨reference⟩ directory roots)) := by
  rw [resolve, List.findSome?_eq_none_iff.mpr fun candidate member => settle?_eq_none_iff.mpr (passed candidate member),
    Option.getD_none]

/-- A candidate decides, or the search fails as a whole. -/
theorem resolve_cases (files : FileTree) (reference : String) (directory : Path) (roots : List Path) :
    Decide files (candidates ⟨reference⟩ directory roots) (resolve files reference directory roots) ∨
      ∀ candidate ∈ candidates ⟨reference⟩ directory roots, PassedOver files candidate := by
  cases found : (candidates ⟨reference⟩ directory roots).findSome? (settle? files) with
  | some outcome =>
    have decision := Decide.findSome?_eq_some.mp found
    exact Or.inl (resolve_of_decide decision ▸ decision)
  | none =>
    exact Or.inr fun candidate member => settle?_eq_none_iff.mp (List.findSome?_eq_none_iff.mp found candidate member)

/-- A search that fails as a whole lists everything that it tried, and all of it was passed over. -/
theorem of_resolve_unresolved
    (failed : resolve files reference directory roots = .error (.extensionResolutionFailure named searched)) :
    named = reference ∧ searched = candidates ⟨reference⟩ directory roots ∧
      ∀ candidate ∈ searched, PassedOver files candidate := by
  rcases resolve_cases files reference directory roots with decision | passed
  · exact absurd failed (decision.ne_unresolved named searched)
  · obtain ⟨rfl, rfl⟩ := ErrorKind.extensionResolutionFailure.inj
      (Except.error.inj ((resolve_of_passedOver passed).symm.trans failed))
    exact ⟨rfl, rfl, passed⟩

theorem candidates_of_isAbsolute {reference : Path} (absolute : reference.isAbsolute = true) (directory : Path)
    (roots : List Path) : candidates reference directory roots = [reference] := by
  rw [candidates, if_pos absolute]

theorem candidates_append {reference : Path} (relative : reference.isAbsolute = false) (directory : Path)
    (roots more : List Path) :
    candidates reference directory (roots ++ more) =
      candidates reference directory roots ++ more.map (·.join reference) := by
  simp [candidates, relative]

/-- Search roots that come later never matter where a search ends. Where it fails as a whole, it lists what it tried; an
absolute reference still fails, and what a relative reference means below the later roots decides in their order. -/
theorem resolve_append (files : FileTree) (reference : String) (directory : Path) (roots more : List Path) :
    ((∀ named searched,
        resolve files reference directory roots ≠ .error (.extensionResolutionFailure named searched)) →
      resolve files reference directory (roots ++ more) = resolve files reference directory roots) ∧
    ∀ named searched,
      resolve files reference directory roots = .error (.extensionResolutionFailure named searched) →
        named = reference ∧ searched = candidates ⟨reference⟩ directory roots ∧
        ((Path.mk reference).isAbsolute = true →
          resolve files reference directory (roots ++ more) =
            .error (.extensionResolutionFailure reference searched)) ∧
        ((Path.mk reference).isAbsolute = false →
          (∀ outcome, Decide files (more.map (·.join ⟨reference⟩)) outcome →
            resolve files reference directory (roots ++ more) = outcome) ∧
          ((∀ candidate ∈ more.map (·.join ⟨reference⟩), PassedOver files candidate) →
            resolve files reference directory (roots ++ more) =
              .error (.extensionResolutionFailure reference (searched ++ more.map (·.join ⟨reference⟩)))) ∧
          ∀ named' searched',
            resolve files reference directory (roots ++ more) =
              .error (.extensionResolutionFailure named' searched') →
            named' = reference ∧ searched' = searched ++ more.map (·.join ⟨reference⟩)) := by
  refine ⟨fun ends => ?_, fun named searched failed => ?_⟩
  · rcases resolve_cases files reference directory roots with decision | passed
    · by_cases absolute : (Path.mk reference).isAbsolute = true
      · rw [resolve, resolve, candidates_of_isAbsolute absolute, candidates_of_isAbsolute absolute]
      · rw [Bool.not_eq_true] at absolute
        exact resolve_of_decide (candidates_append absolute directory roots more ▸ decision.append _)
    · exact absurd (resolve_of_passedOver passed) (ends _ _)
  · obtain ⟨rfl, rfl, passed⟩ := of_resolve_unresolved failed
    refine ⟨rfl, rfl, fun absolute => ?_, fun relative => ?_⟩
    · rw [← failed, resolve, resolve, candidates_of_isAbsolute absolute, candidates_of_isAbsolute absolute]
    · have listed := candidates_append relative directory roots more
      refine ⟨fun outcome decision => resolve_of_decide (listed ▸ decision.later passed), fun passed' => ?_,
        fun named' searched' failed' => ?_⟩
      · rw [← listed]
        exact resolve_of_passedOver (listed ▸ List.forall_mem_append.mpr ⟨passed, passed'⟩)
      · obtain ⟨same, searched, _⟩ := of_resolve_unresolved failed'
        exact ⟨same, searched.trans listed⟩

/-- A base below the second of two search roots: the first root and the directory of the recipe do not have it, and a
directory of its name below a third root does not matter. -/
theorem resolve_below_later_root :
    let files : FileTree :=
      ⟨[(["r"], .directory), (["one"], .directory), (["two"], .directory),
        (["two", "base-service.recipe"], .file (.text "service \x7b\x7d\n")),
        (["three"], .directory), (["three", "base-service"], .directory)], ["r"]⟩
    let more : List Path := [⟨"/two"⟩, ⟨"/three"⟩]
    resolve files "base-service" ⟨"/r"⟩ [⟨"/one"⟩] =
        .error (.extensionResolutionFailure "base-service" [⟨"/r/base-service"⟩, ⟨"/one/base-service"⟩]) ∧
      Decide files (more.map (·.join ⟨"base-service"⟩)) (.ok ⟨"/two/base-service.recipe"⟩) ∧
      resolve files "base-service" ⟨"/r"⟩ ([⟨"/one"⟩] ++ more) = .ok ⟨"/two/base-service.recipe"⟩ ∧
      resolve files "base-service" ⟨"/r"⟩ ([⟨"/one"⟩] ++ more ++ [⟨"/one"⟩]) = .ok ⟨"/two/base-service.recipe"⟩ := by
  intro files more
  have failed : resolve files "base-service" ⟨"/r"⟩ [⟨"/one"⟩] =
      .error (.extensionResolutionFailure "base-service" [⟨"/r/base-service"⟩, ⟨"/one/base-service"⟩]) :=
    resolve_of_passedOver (by decide +kernel)
  have decision : Decide files (more.map (·.join ⟨"base-service"⟩)) (.ok ⟨"/two/base-service.recipe"⟩) := by
    refine ⟨[], ⟨"/two/base-service"⟩, [⟨"/three/base-service"⟩], by decide +kernel, List.forall_mem_nil _, ?_⟩
    exact .extended (by decide +kernel) (by decide +kernel) (by decide +kernel)
  obtain ⟨_, _, _, below⟩ := (resolve_append files "base-service" ⟨"/r"⟩ [⟨"/one"⟩] more).2 _ _ failed
  have found := (below (by decide +kernel)).1 _ decision
  have found' : ∀ reference tried, resolve files "base-service" ⟨"/r"⟩ ([⟨"/one"⟩] ++ more) ≠
      .error (.extensionResolutionFailure reference tried) := by
    rw [found]
    exact nofun
  have later := (resolve_append files "base-service" ⟨"/r"⟩ ([⟨"/one"⟩] ++ more) [⟨"/one"⟩]).1 found'
  exact ⟨failed, decision, found, later.trans found⟩

end DeployRecipe.BaseReference
