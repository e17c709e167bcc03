import DeployRecipe.Proofs.Compilation.Law
import DeployRecipe.Proofs.Environment.Around
import DeployRecipe.Proofs.Environment.Replay

/-!
Assignments outside of all blocks of a recipe, beside the same lines of a properties file. Two evaluators give the same
values to expressions in sight of the same names. The names of the recipe stand in a table of their own, which shows
them as the table of the file does where no assignment hides an earlier one.
-/

namespace DeployRecipe

open DottedName

namespace Expression

mutual

/-- No block and no file stands in the expression. -/
def isPlain : Expression → Bool
  | .block _ _ _ | .load _ => false
  | .list items => arePlain items
  | .map entries => arePlainEntries entries
  | .null | .bool _ | .int _ | .float _ | .text _ | .interpolated _ | .reference _ => true

def arePlain : List Expression → Bool
  | [] => true
  | first :: rest => isPlain first && arePlain rest

def arePlainEntries : List (String × Expression) → Bool
  | [] => true
  | (_, item) :: rest => isPlain item && arePlainEntries rest

end

end Expression

namespace Evaluation

open Running Expression

variable {deeper : Deeper} {context : RecipeContext} {line : Nat} {visible : Table}

mutual

/-- In sight of the same names, the expression has the same value in a properties file. -/
theorem evaluate_plain {before after : Evaluation} (same : before.resolve? context = visible.lookup?)
    (expression : Expression) (plain : expression.isPlain = true) {value : Value}
    (run : evaluate deeper context line expression before = .ok value after) :
    after = before ∧ Properties.evaluate visible expression = .ok value := by
  cases expression with
  | null | bool | int | float | text =>
    rw [evaluate] at run
    obtain ⟨rfl, rfl⟩ := (pure_eq_ok _ _ _ _).mp run
    exact ⟨rfl, by rw [Properties.evaluate]⟩
  | interpolated parts =>
    obtain ⟨text, put, rfl, rfl⟩ := evaluate_interpolated_eq_ok.mp run
    rw [same] at put
    exact ⟨rfl, by rw [Properties.evaluate, put]⟩
  | reference name =>
    obtain ⟨found, rfl⟩ := evaluate_reference_eq_ok.mp run
    rw [same] at found
    exact ⟨rfl, by rw [Properties.evaluate, found]⟩
  | list items =>
    rw [isPlain] at plain
    rw [evaluate] at run
    obtain ⟨values, _, evaluated, run⟩ := (bind_eq_ok _ _ _ _ _).mp run
    obtain ⟨rfl, rfl⟩ := (pure_eq_ok _ _ _ _).mp run
    obtain ⟨rfl, read⟩ := evaluateItems_plain same items plain evaluated
    exact ⟨rfl, by rw [Properties.evaluate, read, Except.map]⟩
  | map entries =>
    rw [isPlain] at plain
    rw [evaluate] at run
    obtain ⟨mapping, _, evaluated, run⟩ := (bind_eq_ok _ _ _ _ _).mp run
    obtain ⟨rfl, rfl⟩ := (pure_eq_ok _ _ _ _).mp run
    obtain ⟨rfl, read⟩ := evaluateEntries_plain same entries plain evaluated
    exact ⟨rfl, by rw [Properties.evaluate, read, Except.map]⟩
  | block | load =>
    rw [isPlain] at plain
    cases plain
termination_by structural expression

theorem evaluateItems_plain {before after : Evaluation} (same : before.resolve? context = visible.lookup?)
    (items : List Expression) (plain : arePlain items = true) {values : List Value}
    (run : evaluateItems deeper context line items before = .ok values after) :
    after = before ∧ Properties.evaluateItems visible items = .ok values := by
  cases items with
  | nil =>
    rw [evaluateItems] at run
    obtain ⟨rfl, rfl⟩ := (pure_eq_ok _ _ _ _).mp run
    exact ⟨rfl, by rw [Properties.evaluateItems]⟩
  | cons first rest =>
    obtain ⟨one, others⟩ := Bool.and_eq_true_iff.mp plain
    rw [evaluateItems] at run
    obtain ⟨value, _, evaluated, run⟩ := (bind_eq_ok _ _ _ _ _).mp run
    obtain ⟨more, _, evaluated', run⟩ := (bind_eq_ok _ _ _ _ _).mp run
    obtain ⟨rfl, rfl⟩ := (pure_eq_ok _ _ _ _).mp run
    obtain ⟨rfl, read⟩ := evaluate_plain same first one evaluated
    obtain ⟨rfl, read'⟩ := evaluateItems_plain same rest others evaluated'
    refine ⟨rfl, ?_⟩
    rw [Properties.evaluateItems, read, read']
    rfl
termination_by structural items

theorem evaluateEntries_plain {before after : Evaluation} (same : before.resolve? context = visible.lookup?)
    (entries : List (String × Expression)) (plain : arePlainEntries entries = true) {mapping result : Mapping}
    (run : evaluateEntries deeper context line mapping entries before = .ok result after) :
    after = before ∧ Properties.evaluateEntries visible mapping entries = .ok result := by
  match entries with
  | [] =>
    rw [evaluateEntries] at run
    obtain ⟨rfl, rfl⟩ := (pure_eq_ok _ _ _ _).mp run
    exact ⟨rfl, by rw [Properties.evaluateEntries]⟩
  | (key, item) :: rest =>
    rw [arePlainEntries, Bool.and_eq_true_iff] at plain
    rw [evaluateEntries] at run
    obtain ⟨value, _, evaluated, further⟩ := (bind_eq_ok _ _ _ _ _).mp run
    obtain ⟨rfl, read⟩ := evaluate_plain same item plain.1 evaluated
    obtain ⟨rfl, read'⟩ := evaluateEntries_plain same rest plain.2 further
    refine ⟨rfl, ?_⟩
    rw [Properties.evaluateEntries, read]
    exact read'
termination_by structural entries

end

end Evaluation

namespace Table

/-- No name of the table begins with the first segment of the name. -/
def Foreign (table : Table) (name : String) : Prop :=
  ∀ key ∈ table.keys, head key ≠ head name

theorem head_of_overlaps {first second : String} (overlaps : Overlaps first second) : head first = head second := by
  rcases overlaps with rfl | inside | around
  · rfl
  · exact head_of_isWithin inside
  · exact (head_of_isWithin around).symm

theorem Foreign.not_overlaps {table : Table} {name : String} (foreign : table.Foreign name) :
    ∀ key ∈ table.keys, ¬ Overlaps key name :=
  fun key member overlaps => foreign key member (head_of_overlaps overlaps)

theorem Foreign.around {table : Table} {name : String} (foreign : table.Foreign name) : table.around name = [] :=
  (around_eq_nil_iff table name).mpr foreign.not_overlaps

theorem Foreign.lookup? {table : Table} {name : String} (foreign : table.Foreign name) : table.lookup? name = none :=
  lookup?_eq_none foreign.not_overlaps

/-- Two tables whose names begin differently show what either one shows. -/
theorem lookup?_append {table locals : Table} (foreign : ∀ name ∈ locals.keys, table.Foreign name) (key : String) :
    Table.lookup? (table ++ locals) key = (locals.lookup? key).orElse fun _ => table.lookup? key := by
  by_cases here : table.Foreign key
  · rw [← lookup?_around (table ++ locals), around_append, here.around, List.nil_append, lookup?_around, here.lookup?]
    cases locals.lookup? key <;> rfl
  · have absent : locals.Foreign key := by
      intro name member same
      exact here fun other there equal => foreign name member other there (equal.trans same.symm)
    rw [← lookup?_around (table ++ locals), around_append, absent.around, List.append_nil, lookup?_around,
      absent.lookup?]
    rfl

/-- A name that begins like none of a table is overwritten behind that table. -/
theorem overwrite_append {table : Table} {name : String} (foreign : table.Foreign name) (locals : Table)
    (value : Value) : Table.overwrite (table ++ locals) name value = table ++ locals.overwrite name value := by
  have kept : table.without name = table := without_eq_self fun key member => by
    by_contra inside
    exact foreign key member (head_of_isWithin (by simpa using inside))
  have new : name ∉ table.keys := fun member => foreign name member rfl
  rw [overwrite_eq, without, List.filter_append, ← without, ← without, kept, Entries.insert_append, if_neg new,
    overwrite_eq]

end Table

/-- The declaration gives a name a value in which no block and no file stands. -/
def Declaration.IsAssignment (declaration : Declaration) : Prop :=
  ∃ expression : Expression, declaration.body = .assignment expression ∧ expression.isPlain = true

namespace Evaluation

open Running

variable {deeper : Deeper} {context : RecipeContext} {before after : Evaluation}

theorem resolve?_append (foreign : ∀ name ∈ before.locals.keys, context.environment.merged.Foreign name) :
    before.resolve? context = Table.lookup? (context.environment.merged ++ before.locals) :=
  funext fun name => (Table.lookup?_append foreign name).symm

/-- An assignment that hides no name of the recipe defines its name as a properties file does. -/
theorem evaluateTopLevel_flattenOne {declaration : Declaration} (assignment : declaration.IsAssignment)
    (new : context.environment.merged.Foreign declaration.name)
    (foreign : ∀ name ∈ before.locals.keys, context.environment.merged.Foreign name)
    (shown : ∀ name ∈ before.locals.keys, isWithin name declaration.name = false)
    (run : evaluateTopLevel deeper context declaration before = .ok () after) :
    Properties.flattenOne "" declaration ⟨context.environment.merged ++ before.locals, before.locals⟩ =
        .ok ⟨context.environment.merged ++ after.locals, after.locals⟩ ∧
      ∀ name ∈ after.locals.keys, name = declaration.name ∨ name ∈ before.locals.keys := by
  obtain ⟨name, line, body⟩ := declaration
  obtain ⟨expression, same, plain⟩ := assignment
  dsimp only [Declaration.name, Declaration.body] at new shown same
  subst same
  obtain ⟨value, between, evaluated, defining⟩ := (bind_eq_ok _ _ _ _ _).mp run
  obtain rfl := (modify_eq_ok _ _ _ _).mp defining
  obtain ⟨rfl, read⟩ := evaluate_plain (resolve?_append foreign) expression plain evaluated
  have inserted : between.locals.insert name value = between.locals.overwrite name value := by
    rw [Table.overwrite_eq, Table.without_eq_self shown]
  refine ⟨?_, fun other member => (Entries.mem_keys_insert _ _ _ _).mp member⟩
  rw [Properties.flattenOne, Properties.flattenBody, read, Properties.qualified, if_pos rfl]
  dsimp only [Properties.Tables.define, Declaration.name]
  rw [Table.overwrite_append new, inserted]

theorem forM_evaluateTopLevel_flatten {declarations : List Declaration}
    (assignments : ∀ declaration ∈ declarations, declaration.IsAssignment ∧
      context.environment.merged.Foreign declaration.name)
    (order : (declarations.map Declaration.name).Pairwise fun earlier later => isWithin earlier later = false)
    (foreign : ∀ name ∈ before.locals.keys, context.environment.merged.Foreign name)
    (shown : ∀ name ∈ before.locals.keys, ∀ declaration ∈ declarations, isWithin name declaration.name = false)
    (run : declarations.forM (evaluateTopLevel deeper context) before = .ok () after) :
    Properties.flatten "" declarations ⟨context.environment.merged ++ before.locals, before.locals⟩ =
      .ok ⟨context.environment.merged ++ after.locals, after.locals⟩ := by
  induction declarations generalizing before with
  | nil =>
    obtain ⟨_, rfl⟩ := (pure_eq_ok _ _ _ _).mp run
    rw [Properties.flatten]
  | cons first rest inductionHypothesis =>
    rw [List.map_cons, List.pairwise_cons] at order
    obtain ⟨first_shown, order⟩ := order
    obtain ⟨⟨assignment, new⟩, assignments⟩ := List.forall_mem_cons.mp assignments
    obtain ⟨_, between, one, further⟩ := (bind_eq_ok _ _ _ _ _).mp run
    obtain ⟨defined, names⟩ := evaluateTopLevel_flattenOne assignment new foreign
      (fun name member => shown name member first List.mem_cons_self) one
    rw [Properties.flatten, defined]
    refine inductionHypothesis assignments order ?_ ?_ further
    · intro name member
      rcases names name member with rfl | old
      · exact new
      · exact foreign name old
    · intro name member declaration later
      rcases names name member with rfl | old
      · exact first_shown declaration.name (List.mem_map_of_mem later)
      · exact shown name old declaration (List.mem_cons_of_mem _ later)

/-- Assignments outside of all blocks define what the same lines of a properties file define, if their names begin like
none of the environment and no name comes after one within it. -/
theorem topLevel_as_properties {declarations : List Declaration} {text : String} {session : Session}
    (reads : Recipe.readDeclarations text = .ok declarations)
    (assignments : ∀ declaration ∈ declarations, declaration.IsAssignment ∧
      context.environment.merged.Foreign declaration.name)
    (order : (declarations.map Declaration.name).Pairwise fun earlier later => isWithin earlier later = false)
    (run : declarations.forM (evaluateTopLevel deeper context) (start session) = .ok () after) (path : Path) :
    ∃ values, Properties.parse text path context.environment.merged = .ok values ∧ after.locals = values ∧
      ∀ key, context.environment.merged.Foreign key →
        after.locals.lookup? key = values.lookup? key ∧ after.resolve? context key = values.lookup? key := by
  have none : (start session).locals.keys = [] := rfl
  have flat := forM_evaluateTopLevel_flatten assignments order (by simp [none]) (by simp [none]) run
  rw [start, List.append_nil] at flat
  refine ⟨after.locals, Properties.parse_eq_ok.mpr ⟨declarations, _, reads, flat⟩, rfl, fun key foreign => ⟨rfl, ?_⟩⟩
  rw [resolve?, show context.environment.lookup? key = Option.none from foreign.lookup?]
  cases after.locals.lookup? key <;> rfl

/-- Assignments of a dotted name, of a list that refers to it and to the environment, and of a text that shows it. -/
def assignmentsText : String :=
  "base.port = 1\nbase.all = [base.port, k]\nlabel = \"p$\x7bbase.port\x7d\"\n"

def assignmentsLines : List Declaration :=
  [.mk "base.port" 1 (.assignment (.int 1)),
    .mk "base.all" 2 (.assignment (.list [.reference "base.port", .reference "k"])),
    .mk "label" 3 (.assignment (.interpolated [.literal "p", .reference "base.port"]))]

theorem read_assignmentsText : Recipe.readDeclarations assignmentsText = .ok assignmentsLines :=
  Recipe.readDeclarations_of_readsAs (by decide +kernel)

/-- A recipe whose environment has one name. -/
def assignmentsContext : RecipeContext :=
  ⟨.plain (FileTree.empty ["r"]) .standard, ⟨"/r/a-service.recipe"⟩, ⟨[], [("k", .int 7)]⟩⟩

/-- The names that the recipe defines for itself with the declarations. -/
def assignmentsLocals? (declarations : List Declaration) : Option Table :=
  match declarations.forM (evaluateTopLevel .refuse assignmentsContext) (start .empty) with
  | .ok () after => some after.locals
  | .error _ _ => none

theorem run_of_assignmentsLocals? {declarations : List Declaration} {locals : Table}
    (computed : assignmentsLocals? declarations = some locals) :
    ∃ after, declarations.forM (evaluateTopLevel .refuse assignmentsContext) (start .empty) = .ok () after ∧
      after.locals = locals := by
  rw [assignmentsLocals?] at computed
  split at computed
  · rename_i after run
    exact ⟨after, run, Option.some.inj computed⟩
  · cases computed

theorem assignmentsContext_foreign (name : String) (differs : head name ≠ "k") :
    assignmentsContext.environment.merged.Foreign name := by
  intro key member
  obtain rfl := List.mem_singleton.mp member
  exact differs.symm

theorem topLevel_as_properties_assignmentsText :
    ∃ after, assignmentsLines.forM (evaluateTopLevel .refuse assignmentsContext) (start .empty) = .ok () after ∧
      after.locals =
        [("base.port", .int 1), ("base.all", .sequence [.int 1, .int 7]), ("label", .text "p1")] ∧
      Properties.parse assignmentsText ⟨"/r/a.properties"⟩ [("k", .int 7)] = .ok after.locals ∧
      after.resolve? assignmentsContext "base" = after.locals.lookup? "base" := by
  obtain ⟨after, run, locals⟩ := run_of_assignmentsLocals? (show assignmentsLocals? assignmentsLines =
    some [("base.port", .int 1), ("base.all", .sequence [.int 1, .int 7]), ("label", .text "p1")] by decide +kernel)
  have foreign := assignmentsContext_foreign
  obtain ⟨_, parsed, rfl, agree⟩ := topLevel_as_properties read_assignmentsText (List.forall_mem_cons.mpr
    ⟨⟨⟨_, rfl, rfl⟩, foreign _ (by decide)⟩, List.forall_mem_cons.mpr
      ⟨⟨⟨_, rfl, rfl⟩, foreign _ (by decide)⟩, List.forall_mem_singleton.mpr ⟨⟨_, rfl, rfl⟩, foreign _ (by decide)⟩⟩⟩)
    (by decide) run ⟨"/r/a.properties"⟩
  exact ⟨after, run, locals, parsed, (agree "base" (foreign _ (by decide))).2⟩

/-- A dotted name, and then the name around it. -/
def hidingText : String :=
  "a.b = 1\na = 2\n"

def hidingLines : List Declaration :=
  [.mk "a.b" 1 (.assignment (.int 1)), .mk "a" 2 (.assignment (.int 2))]

theorem read_hidingText : Recipe.readDeclarations hidingText = .ok hidingLines :=
  Recipe.readDeclarations_of_readsAs (by decide +kernel)

/-- A properties file drops the name that a later one hides, and a recipe keeps it. -/
theorem topLevel_keeps_hidden :
    ∃ after values, Recipe.readDeclarations hidingText = .ok hidingLines ∧
      (∀ declaration ∈ hidingLines, declaration.IsAssignment ∧
        assignmentsContext.environment.merged.Foreign declaration.name) ∧
      hidingLines.forM (evaluateTopLevel .refuse assignmentsContext) (start .empty) = .ok () after ∧
      Properties.parse hidingText ⟨"/r/a.properties"⟩ assignmentsContext.environment.merged = .ok values ∧
      assignmentsContext.environment.merged.Foreign "a.b" ∧
      after.locals.lookup? "a.b" = some (.int 1) ∧ values.lookup? "a.b" = none := by
  have foreign := assignmentsContext_foreign
  obtain ⟨after, run, locals⟩ := run_of_assignmentsLocals?
    (show assignmentsLocals? hidingLines = some [("a.b", .int 1), ("a", .int 2)] by decide +kernel)
  refine ⟨after, [("a", .int 2)], read_hidingText, List.forall_mem_cons.mpr
    ⟨⟨⟨_, rfl, rfl⟩, foreign _ (by decide)⟩, List.forall_mem_singleton.mpr ⟨⟨_, rfl, rfl⟩, foreign _ (by decide)⟩⟩, run,
    Properties.parse_eq_ok.mpr ⟨hidingLines, _, read_hidingText, rfl⟩, foreign _ (by decide), ?_, by decide +kernel⟩
  rw [locals]
  decide +kernel

end Evaluation

end DeployRecipe
