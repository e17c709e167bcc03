import DeployRecipe.Proofs.Compilation.Runs
import DeployRecipe.Validation.Basic

/-!
Steps that lead to no other file. Whatever goes wrong in them, it is not that files led to files too often, or back to
one of them.
-/

namespace DeployRecipe

namespace Running

variable {ε α β : Type}

/-- No failure of the outcome is a bad one. -/
def Spares (bad : ε → Prop) (outcome : Except ε α) : Prop :=
  ∀ error, outcome = .error error → ¬ bad error

namespace Spares

variable {bad : ε → Prop}

theorem ok (value : α) : Spares bad (.ok value : Except ε α) := nofun

theorem error {failure : ε} (good : ¬ bad failure) : Spares bad (.error failure : Except ε α) := by
  rintro _ ⟨⟩
  exact good

theorem bind {first : Except ε α} {next : α → Except ε β} (head : Spares bad first)
    (rest : ∀ value, first = .ok value → Spares bad (next value)) : Spares bad (first >>= next) := by
  cases first with
  | ok value => exact rest value rfl
  | error failure => exact error (head failure rfl)

theorem map {first : Except ε α} (change : α → β) (head : Spares bad first) :
    Spares bad (first.map change) := by
  cases first with
  | ok value => exact ok (change value)
  | error failure => exact error (head failure rfl)

theorem forM {action : α → Except ε PUnit} {list : List α} (each : ∀ item ∈ list, Spares bad (action item)) :
    Spares bad (list.forM action) := by
  induction list with
  | nil => exact ok _
  | cons first rest inductionHypothesis =>
    obtain ⟨here, others⟩ := List.forall_mem_cons.mp each
    exact here.bind fun _ _ => inductionHypothesis others

end Spares

end Running

open Running

/-- The failure that files led to files too often. -/
def ErrorKind.OfDepth (kind : ErrorKind) : Prop := kind = .tooDeep

def CompileError.OfDepth (error : CompileError) : Prop := error.kind.OfDepth

/-- The failures of files that lead to files: too often, or back to one of them. -/
inductive ErrorKind.OfNesting : ErrorKind → Prop
  | tooDeep : OfNesting .tooDeep
  | circular (cycle : List Path) : OfNesting (.circularReference cycle)

def CompileError.OfNesting (error : CompileError) : Prop := error.kind.OfNesting

theorem CompileError.OfDepth.ofNesting {error : CompileError} (deep : error.OfDepth) : error.OfNesting := by
  rw [OfNesting, show error.kind = .tooDeep from deep]
  exact .tooDeep

namespace Entity

theorem setCoerced_spares (entity : Entity) (name : String) (value : Value) :
    Spares ErrorKind.OfNesting (entity.setCoerced name value) := by
  unfold setCoerced
  dsimp only
  split
  · exact .ok _
  · exact .error nofun
  · split
    · exact .ok _
    · exact .error nofun

theorem single_spares (kind : EntityKind) (name : String) (arguments : List Value) :
    Spares ErrorKind.OfNesting (single kind name arguments) := by
  unfold single
  split
  · exact .ok _
  · exact .ok _
  · exact .error nofun

theorem replace_spares (entity : Entity) (name : String) (value : Value) :
    Spares ErrorKind.OfNesting (entity.replace name value) := by
  unfold replace
  split
  · exact .ok _
  · exact .error nofun
  · exact .error nofun

theorem bind_spares (entity : Entity) (used : UsedNames) (name : String) (arguments : List Value) :
    Spares ErrorKind.OfNesting (entity.bind used name arguments) := by
  refine (single_spares _ _ _).bind fun value _ => ?_
  dsimp only
  split
  · exact .error nofun
  · split
    · exact .error nofun
    · exact (setCoerced_spares _ _ _).bind fun _ _ => .ok _

theorem bindEntity_spares (parent : Entity) (used : UsedNames) (child : Entity) :
    Spares ErrorKind.OfNesting (parent.bindEntity used child) := by
  unfold bindEntity
  dsimp only
  split
  · exact .error nofun
  · split
    · exact .error nofun
    · exact (replace_spares _ _ _).bind fun _ _ => .ok _

theorem assignPath_spares (entity : Entity) (path : List String) (value : Value) :
    Spares ErrorKind.OfNesting (entity.assignPath path value) := by
  induction path generalizing entity value with
  | nil => exact .ok entity
  | cons head rest inductionHypothesis =>
    cases rest with
    | nil =>
      unfold assignPath
      dsimp only
      split
      · exact .error nofun
      · exact setCoerced_spares _ _ _
    | cons second others =>
      unfold assignPath
      dsimp only
      split
      · exact .error nofun
      · split
        · split
          · exact .error nofun
          · rename_i descriptor _ _ _
            have inside (child : Entity) : Spares ErrorKind.OfNesting (do
                let child ← child.assignPath (second :: others) value
                entity.replace head child.toValue) :=
              (inductionHypothesis child value).bind fun _ _ => replace_spares _ _ _
            split
            · exact inside _
            · split
              · exact inside _
              · exact .error nofun
        · exact setCoerced_spares _ _ _

theorem bindPath_spares (entity : Entity) (used : UsedNames) (path : String) (arguments : List Value) :
    Spares ErrorKind.OfNesting (entity.bindPath used path arguments) := by
  refine (single_spares _ _ _).bind fun value _ => ?_
  dsimp only
  split
  · exact .error nofun
  · exact (assignPath_spares _ _ _).bind fun _ _ => .ok _

end Entity

namespace FileTree

variable (files : FileTree)

theorem theFileEndingIn_spares (directory : Path) (suffix : String) :
    Spares ErrorKind.OfNesting (files.theFileEndingIn directory suffix) := by
  unfold theFileEndingIn
  split
  · exact .error nofun
  · exact .ok _
  · exact .error nofun

theorem readText_spares (path : Path) : Spares CompileError.OfNesting (files.readText path) := by
  unfold readText
  split
  · split
    · exact .ok _
    · exact .error nofun
  · exact .error nofun

end FileTree

namespace BaseReference

theorem absolute_spares (files : FileTree) (path : Path) :
    Spares ErrorKind.OfNesting (absolute files path) := by
  unfold absolute
  split
  · exact .ok _
  · exact .error nofun

theorem settle?_spares {files : FileTree} {candidate : Path} {outcome : Except ErrorKind Path}
    (settled : settle? files candidate = some outcome) : Spares ErrorKind.OfNesting outcome := by
  unfold settle? at settled
  dsimp only at settled
  split at settled
  · obtain rfl := Option.some.inj settled
    exact (files.theFileEndingIn_spares _ _).bind fun _ _ => absolute_spares _ _
  · split at settled
    · obtain rfl := Option.some.inj settled
      exact absolute_spares _ _
    · split at settled
      · obtain rfl := Option.some.inj settled
        exact absolute_spares _ _
      · cases settled

theorem resolve_spares (files : FileTree) (reference : String) (directory : Path) (roots : List Path) :
    Spares ErrorKind.OfNesting (resolve files reference directory roots) := by
  unfold resolve
  dsimp only
  cases found : (candidates ⟨reference⟩ directory roots).findSome? (settle? files) with
  | none => exact .error nofun
  | some outcome =>
    obtain ⟨candidate, _, settled⟩ := List.exists_of_findSome?_eq_some found
    exact settle?_spares settled

end BaseReference

theorem Properties.parse_spares (text : String) (path : Path) (lower : Table) :
    Spares CompileError.OfNesting (Properties.parse text path lower) := by
  unfold parse
  dsimp only
  split
  · exact .error nofun
  · split
    · exact .ok _
    · exact .error nofun

namespace EnvironmentInputs

theorem overridesText?_spares (inputs : EnvironmentInputs) (files : FileTree) :
    Spares CompileError.OfNesting (inputs.overridesText? files) := by
  unfold overridesText?
  dsimp only
  split
  · exact (files.readText_spares _).map _
  · exact .ok _
  · split
    · exact (files.readText_spares _).map _
    · exact .ok _

end EnvironmentInputs

namespace Evaluation

theorem inheritedContent_spares (parent : Scope) (descriptor : Descriptor) :
    Spares ErrorKind.OfNesting (inheritedContent parent descriptor) := by
  unfold inheritedContent
  dsimp only
  split
  · exact .ok _
  · exact .ok _
  · split
    · exact .ok _
    · exact .error nofun

theorem checkFamily_spares (parent : Scope) (descriptor : Descriptor) :
    Spares ErrorKind.OfNesting (checkFamily parent descriptor) := by
  unfold checkFamily
  split
  · split
    · exact .error nofun
    · exact .ok _
  · exact .ok _

theorem openAttached_spares (state : Evaluation) (descriptor : Descriptor) :
    Spares ErrorKind.OfNesting (openAttached state descriptor) := by
  unfold openAttached
  split
  · exact .ok _
  · exact (checkFamily_spares _ _).bind fun _ _ => inheritedContent_spares _ _

theorem checkPlace_spares (state : Evaluation) (descriptor : Descriptor) (attached : Bool) :
    Spares ErrorKind.OfNesting (checkPlace state descriptor attached) := by
  unfold checkPlace
  dsimp only
  split
  · exact .error nofun
  · split
    · exact .ok _
    · exact .error nofun

theorem extendingKind_spares (state : Evaluation) : Spares ErrorKind.OfNesting (extendingKind state) := by
  unfold extendingKind
  split
  · exact .error nofun
  · dsimp only
    split
    · exact .error nofun
    · split
      · exact .error nofun
      · exact .ok _

theorem bound_spares (scope : Scope) (name : String) (values : List Value) :
    Spares ErrorKind.OfNesting (bound scope name values) := by
  unfold bound
  split
  · exact Entity.bindPath_spares _ _ _ _
  · exact Entity.bind_spares _ _ _ _

end Evaluation

namespace Validation

theorem checkOne_spares (context : ValidationContext) (entity : Entity) :
    Spares ErrorKind.OfNesting (checkOne context entity) := by
  refine Spares.forM fun check _ => ?_
  split
  · exact .ok _
  · exact .error nofun

theorem validate_spares (context : ValidationContext) (entity : Entity) :
    Spares ErrorKind.OfNesting (validate context entity) := by
  rw [validate]
  exact (checkOne_spares context entity).bind fun _ _ =>
    .forM fun ⟨child, _⟩ _ => validate_spares context child
termination_by entity.kind.height
decreasing_by exact Entity.height_of_mem_children ‹_›

end Validation

end DeployRecipe
