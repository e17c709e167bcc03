import DeployRecipe.Proofs.Compilation.Calls
import DeployRecipe.Proofs.Environment.Flat
import DeployRecipe.Proofs.Environment.Inheritance

/-!
The names of the caller in every recipe that is compiled. They lie above everything that files, overrides and other
recipes give to the environment, and only a name that a recipe gives itself, outside of all blocks, comes before them.
-/

namespace DeployRecipe

open DottedName Evaluation

theorem Entries.nodup_keys_insert {κ α : Type} [DecidableEq κ] {entries : Entries κ α} (distinct : entries.keys.Nodup)
    (key : κ) (value : α) : (entries.insert key value).keys.Nodup := by
  rw [keys_insert]
  split
  · exact distinct
  · rename_i new
    exact List.nodup_append.mpr ⟨distinct, List.nodup_singleton key, fun name there other same => by
      rw [List.mem_singleton.mp same]
      rintro rfl
      exact new there⟩

/-- A name of a table that no name of it is around stands for its value. -/
theorem Table.stands_of_find? {table : Table} (distinct : table.keys.Nodup) {key : String} {value : Value}
    (found : table.find? key = some value) (outside : ∀ name ∈ table.keys, isWithin key name = false) :
    Stands table key value := by
  obtain ⟨before, after, rfl⟩ := List.append_of_mem (Entries.mem_of_find? found)
  refine ⟨before, after, rfl, fun entry member => ⟨?_, outside _ (List.mem_map_of_mem ?_)⟩⟩
  · rw [Entries.keys, List.map_append, List.map_cons] at distinct
    have new := (List.nodup_cons.mp (List.nodup_append.mp distinct).2.1).1
    exact fun same => new (List.mem_map.mpr ⟨entry, member, same⟩)
  · exact List.mem_append_right _ (List.mem_cons_of_mem _ member)

namespace EnvironmentInputs

variable {inputs : EnvironmentInputs}

theorem find?_ambientTable (inputs : EnvironmentInputs) (key : String) :
    inputs.ambientTable.find? key =
      if key = "recipeDir" then some (.text ((inputs.recipeFile.parent?.map Path.text).getD ""))
      else if key = "recipeFilePath" then some (.text inputs.recipeFile.text)
      else inputs.ambient.find? key := by
  rw [ambientTable, Entries.find?_insert, Entries.find?_insert]
  simp only [eq_comm]

/-- An ambient name stands for its value, unless it is within one of the two names of the recipe. -/
theorem stands_ambientTable (flat : inputs.ambient.Flat) {key : String} {value : Value}
    (found : inputs.ambientTable.find? key = some value) (path : isWithin key "recipeFilePath" = false)
    (directory : isWithin key "recipeDir" = false) : Table.Stands inputs.ambientTable key value := by
  have there := (mem_keys_ambientTable inputs).mp (List.mem_map_of_mem (Entries.mem_of_find? found))
  refine Table.stands_of_find? ?_ found fun name member => ?_
  · exact Entries.nodup_keys_insert (Entries.nodup_keys_insert flat.nodup _ _) _ _
  · rcases (mem_keys_ambientTable inputs).mp member with rfl | rfl | given
    · exact directory
    · exact path
    · rcases there with rfl | rfl | given'
      · exact isWithin_of_not_dotted (by decide) name
      · exact isWithin_of_not_dotted (by decide) name
      · by_cases same : key = name
        · rw [same, isWithin_self]
        · exact (flat.apart given' given same).outside

/-- An environment shows an ambient name whatever lies below the ambient ones. -/
theorem lookup?_of_stands {files : FileTree} {environment : Environment} {sources : Sources}
    (built : Running.Gives (inputs.build files) sources environment) {key : String} {value : Value}
    (stands : Table.Stands inputs.ambientTable key value) : environment.lookup? key = some value := by
  obtain ⟨_, ⟨properties, overrides, _, _, rfl⟩, rfl⟩ := build_gives.mp built
  refine Table.lookup?_of_find? ?_
  rw [merged_layers, Table.find?_overwriteAll_nil]
  exact stands.append_left _

end EnvironmentInputs

namespace Evaluation.Call

/-- A reference to the name, where the call stands, has the value. -/
def Shows (call : Call) (key : String) (value : Value) : Prop :=
  call.state.resolve? call.context key = some value ∧
    ∀ line, evaluate (Deeper.upTo call.depth) call.context line (.reference key) call.state = .ok value call.state

/-- The recipe has given itself nothing that the name is looked up in. -/
def LeavesFree (call : Call) (key : String) : Prop :=
  call.state.locals.lookup? key = none

theorem shows_of_resolve? {call : Call} {key : String} {value : Value}
    (found : call.state.resolve? call.context key = some value) : call.Shows key value :=
  ⟨found, fun _ => evaluate_reference_eq_ok.mpr ⟨found, rfl⟩⟩

end Evaluation.Call

/-- Wherever something is evaluated in a compilation, the names of the caller have their values, but for names within
the two names of the recipe, and those stand for its own path and directory, unless that recipe has given the name a
value itself. It has not if nothing that it evaluates outside of all blocks gives one to the name, to one around it or
to one within it. -/
theorem Job.Evaluates.shows_ambient {job : Job} {path : Path} {text : String} (flat : job.ambient.Flat) {call : Call}
    (evaluates : job.Evaluates path text call) :
    (∀ key value, job.ambient.find? key = some value → key ≠ "recipeFilePath" → key ≠ "recipeDir" →
      isWithin key "recipeFilePath" = false → isWithin key "recipeDir" = false →
        call.LeavesFree key → call.Shows key value) ∧
    (call.LeavesFree "recipeFilePath" → call.Shows "recipeFilePath" (.text call.context.recipeFile.text)) ∧
    (call.LeavesFree "recipeDir" →
      call.Shows "recipeDir" (.text ((call.context.recipeFile.parent?.map Path.text).getD ""))) ∧
    ∀ key, (∀ giving, job.Evaluates path text giving → giving.context = call.context →
      ∀ name, giving.Defines name → ¬ Overlaps name key) → call.LeavesFree key := by
  obtain ⟨_, inputs, sources, file, ambient, built⟩ := evaluates.builtBy
  have shows' {key : String} {value : Value} (found : inputs.ambientTable.find? key = some value)
      (inPath : isWithin key "recipeFilePath" = false) (inDirectory : isWithin key "recipeDir" = false)
      (free : call.LeavesFree key) : call.Shows key value := by
    refine Call.shows_of_resolve? ?_
    rw [resolve?, show call.state.locals.lookup? key = none from free]
    exact EnvironmentInputs.lookup?_of_stands built
      (EnvironmentInputs.stands_ambientTable (ambient ▸ flat) found inPath inDirectory)
  refine ⟨fun key value given path directory => shows' ?_, shows' ?_ ?_ ?_, shows' ?_ ?_ ?_, fun key aside => ?_⟩
  · rw [EnvironmentInputs.find?_ambientTable, if_neg directory, if_neg path, ambient, given]
  · rw [EnvironmentInputs.find?_ambientTable, if_neg (by decide), if_pos rfl, file]
  · exact isWithin_of_not_dotted (by decide) _
  · exact isWithin_of_not_dotted (by decide) _
  · rw [EnvironmentInputs.find?_ambientTable, if_pos rfl, file]
  · exact isWithin_of_not_dotted (by decide) _
  · exact isWithin_of_not_dotted (by decide) _
  · refine Table.lookup?_eq_none fun name there => ?_
    obtain ⟨giving, reached, context, defines⟩ := evaluates.defined name there
    exact aside giving reached context name defines

/-- A service in one directory and the base that it extends in another one, whose files give values to names of the
caller and of the recipe. -/
def ambientJob : Job :=
  { Job.plain
      ⟨[(["r"], .directory), (["r", "a-service.properties"], .file (.text "k = 1\n")), (["b"], .directory),
        (["b", "b-service.recipe"], .file (.text "service \x7b\n numInstances k\n\x7d\n")),
        (["b", "b-service.properties"], .file (.text "k = 2\nrecipeDir = \"/x\"\n"))], ["r"]⟩ .standard with
    ambient := [("k", .int 5), ("recipeDir.name", .text "r")] }

def ambientText : String :=
  "service \x7b\n extend \"/b/b-service.recipe\"\n\x7d\n"

theorem ambientJob_flat : ambientJob.ambient.Flat := by
  have apart : ambientJob.ambient.keys.Pairwise fun one other =>
      one ≠ other ∧ isWithin one other = false ∧ isWithin other one = false := by decide +kernel
  exact apart.imp fun ⟨differs, outside, around⟩ => ⟨differs, outside, around⟩

namespace Evaluation

/-- The base that the first declaration of the service extends. -/
def ambientBase? : Option Call :=
  match ambientJob.opening ⟨"/r/a-service.recipe"⟩ ambientText .empty, ambientJob.depth with
  | .ok (context, .mk name line (.block (first :: _)) :: _) session, depth + 1 =>
    match openBlock context name line true (start session) with
    | .ok entity between =>
      let inside := between.insideBlock entity
      match Step.opens? ⟨depth + 1, context, first, inside⟩ inside with
      | .ok (some (nested, declarations)) last => some ⟨depth, nested, .declarations declarations, start last.session⟩
      | _ => none
    | _ => none
  | _, _ => none

theorem evaluates_of_ambientBase? {call : Call} (computed : ambientBase? = some call) :
    ambientJob.Evaluates ⟨"/r/a-service.recipe"⟩ ambientText call := by
  rw [ambientBase?] at computed
  split at computed
  · rename_i context name line first _ _ session depth opened deep
    split at computed
    · rename_i entity between block
      dsimp only at computed
      split at computed
      · rename_i nested declarations last base
        obtain rfl := Option.some.inj computed
        refine ⟨context, _, session, opened, ?_⟩
        rw [deep]
        exact .head .declaration (.head (.block block) (.head .declaration
          (.head (.recipe (List.cons_ne_nil _ _) base) .refl)))
      · cases computed
    · cases computed
  · cases computed

end Evaluation

/-- In the base, the name of the caller and those of the recipe have their own values, against the files next to it. -/
theorem Job.Evaluates.shows_ambient_base :
    ∃ call, ambientJob.Evaluates ⟨"/r/a-service.recipe"⟩ ambientText call ∧
      call.context.recipeFile.text = "/b/b-service.recipe" ∧ call.Shows "k" (.int 5) ∧
      call.Shows "recipeFilePath" (.text "/b/b-service.recipe") ∧ call.Shows "recipeDir" (.text "/b") := by
  have computed : (ambientBase?.map fun call => (call.context.recipeFile.text,
      (call.context.recipeFile.parent?.map Path.text).getD "", call.state.locals)) =
        some ("/b/b-service.recipe", "/b", []) := by decide +kernel
  obtain ⟨call, found, facts⟩ := Option.map_eq_some_iff.mp computed
  obtain ⟨file, facts⟩ := Prod.mk.inj facts
  obtain ⟨directory, locals⟩ := Prod.mk.inj facts
  have evaluates := evaluates_of_ambientBase? found
  have free (key : String) : call.LeavesFree key := by
    rw [Call.LeavesFree, locals, Table.lookup?_nil]
  obtain ⟨given, recipe, around, _⟩ := evaluates.shows_ambient ambientJob_flat
  refine ⟨call, evaluates, file, ?_, ?_, ?_⟩
  · exact given "k" _ rfl (by decide) (by decide) (by decide +kernel) (by decide +kernel) (free _)
  · rw [← file]
    exact recipe (free _)
  · rw [← directory]
    exact around (free _)

/-- Gives a name of the caller a value, outside of all blocks. -/
def ownText : String :=
  "k = 7\nservice \x7b\n numInstances k\n\x7d\n"

namespace Evaluation

/-- A reference to the name that stands on the line. -/
def Part.isReference (line : Nat) (name : String) : Part → Bool
  | .expression place (.reference found) => place = line && found = name
  | _ => false

theorem Part.eq_of_isReference {line : Nat} {name : String} {part : Part} (reference : part.isReference line name) :
    part = .expression line (.reference name) := by
  rw [isReference.eq_def] at reference
  split at reference
  · simp only [Bool.and_eq_true, decide_eq_true_eq] at reference
    rw [reference.1, reference.2]
  · cases reference

/-- The reference in the service. -/
def ownReference? : Option Call :=
  match ambientJob.opening ⟨"/r/a-service.recipe"⟩ ownText .empty with
  | .ok (context, [first, .mk name line (.block [.mk _ inner (.arguments [expression])])]) session =>
    match evaluateInPlace (Deeper.upTo ambientJob.depth) context first (start session) with
    | .ok () after =>
      match openBlock context name line true after with
      | .ok entity between => some ⟨ambientJob.depth, context, .expression inner expression, between.insideBlock entity⟩
      | _ => none
    | _ => none
  | _ => none

theorem evaluates_of_ownReference? {call : Call} (computed : ownReference? = some call) :
    ambientJob.Evaluates ⟨"/r/a-service.recipe"⟩ ownText call := by
  rw [ownReference?] at computed
  split at computed
  · rename_i context first name line _ inner expression session opened
    split at computed
    · rename_i after evaluated
      split at computed
      · rename_i entity between block
        obtain rfl := Option.some.inj computed
        refine ⟨context, _, session, opened, ?_⟩
        exact .head (.declarations evaluated) (.head .declaration (.head (.block block) (.head .declaration
          (.head .arguments (.head .item .refl)))))
      · cases computed
    · cases computed
  · cases computed

end Evaluation

/-- A reference in a recipe that gives itself a value for a name of the caller stands for that value, and one to a name
of the caller within the directory's name for nothing. -/
theorem Job.Evaluates.shows_own :
    ∃ call, ambientJob.Evaluates ⟨"/r/a-service.recipe"⟩ ownText call ∧ ambientJob.ambient.Flat ∧
      ambientJob.ambient.find? "k" = some (.int 5) ∧ call.part = .expression 3 (.reference "k") ∧
      call.Shows "k" (.int 7) ∧
      ambientJob.ambient.find? "recipeDir.name" = some (.text "r") ∧
      call.state.resolve? call.context "recipeDir.name" = none := by
  have computed : (ownReference?.map fun call => (call.part.isReference 3 "k",
      call.state.resolve? call.context "k", call.state.resolve? call.context "recipeDir.name")) =
        some (true, some (.int 7), none) := by decide +kernel
  obtain ⟨call, found, facts⟩ := Option.map_eq_some_iff.mp computed
  obtain ⟨part, facts⟩ := Prod.mk.inj facts
  obtain ⟨resolved, unresolved⟩ := Prod.mk.inj facts
  exact ⟨call, evaluates_of_ownReference? found, ambientJob_flat, rfl, Part.eq_of_isReference part,
    Call.shows_of_resolve? resolved, rfl, unresolved⟩

end DeployRecipe
