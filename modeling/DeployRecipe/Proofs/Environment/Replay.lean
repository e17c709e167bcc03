import DeployRecipe.Compilation.Statement
import DeployRecipe.Proofs.Environment.Order
import DeployRecipe.Proofs.Properties
import DeployRecipe.Proofs.Recipe.Reading
import DeployRecipe.Proofs.Running

/-!
What a properties file defines, laid above the table that the file was read in sight of, is the table that its
references saw last. The names are written in two tables at once, and each one drops the names within them for itself;
to replay what is left in the one that started empty onto the start of the other one leads to the same table.
-/

namespace DeployRecipe

namespace Table

open DottedName (isWithin)

theorem without_eq_self {table : Table} {key : String} (outside : ∀ name ∈ table.keys, isWithin name key = false) :
    table.without key = table := by
  rw [without, List.filter_eq_self]
  intro entry member
  simp [outside entry.1 (List.mem_map_of_mem member)]

theorem without_without (table : Table) (key : String) : (table.without key).without key = table.without key :=
  without_eq_self fun _ member => (mem_keys_without.mp member).2

theorem overwrite_same (table : Table) (key : String) (old value : Value) :
    (table.overwrite key old).overwrite key value = table.overwrite key value := by
  rw [overwrite_overwrite (by simp), Entries.insert_insert, without_without, overwrite_eq]

/-- To overwrite a name drops what stood within it, also what was written there just before. -/
theorem without_overwrite_of_isWithin {inner key : String} (inside : isWithin inner key = true) (table : Table)
    (value : Value) : (table.overwrite inner value).without key = table.without key := by
  rw [overwrite_eq, without, Entries.filter_insert_of_neg _ (fun name => !isWithin name key) (by simp [inside]),
    ← without, without_comm]
  refine without_eq_self fun name member => ?_
  obtain ⟨_, outside⟩ := mem_keys_without.mp member
  by_contra deeper
  rw [DottedName.isWithin_trans (by simpa using deeper) inside] at outside
  cases outside

theorem without_overwrite {other key : String} (outside : isWithin other key = false) (table : Table) (value : Value) :
    (table.overwrite other value).without key = (table.without key).overwrite other value := by
  rw [overwrite_eq, without, Entries.filter_insert _ (fun name => !isWithin name key) (by simp [outside]), ← without,
    without_comm, overwrite_eq]

theorem without_cons (entry : String × Value) (rest : Table) (key : String) :
    without (entry :: rest) key = if isWithin entry.1 key then rest.without key else entry :: rest.without key := by
  rw [without, List.filter_cons]
  by_cases inside : isWithin entry.1 key <;> simp [inside, without]

/-- The names within a name are dropped before or after others are overwritten. -/
theorem without_overwriteAll (table entries : Table) (key : String) :
    (table.overwriteAll entries).without key = (table.without key).overwriteAll (entries.without key) := by
  induction entries generalizing table with
  | nil => rfl
  | cons entry rest inductionHypothesis =>
    rw [overwriteAll_cons, inductionHypothesis, without_cons]
    by_cases inside : isWithin entry.1 key = true
    · rw [without_overwrite_of_isWithin inside, if_pos inside]
    · have outside : isWithin entry.1 key = false := by simpa using inside
      rw [without_overwrite outside, if_neg inside, overwriteAll_cons]

/-- A name that is there keeps its place, so it may be overwritten before other names that it is not within. -/
theorem overwriteAll_overwrite_of_mem {table entries : Table} {key : String} (there : key ∈ table.keys)
    (aside : ∀ name ∈ entries.keys, key ≠ name ∧ isWithin key name = false) (value : Value) :
    (table.overwriteAll entries).overwrite key value =
      (table.overwrite key value).overwriteAll (entries.without key) := by
  induction entries generalizing table with
  | nil => rfl
  | cons entry rest inductionHypothesis =>
    obtain ⟨differs, apart⟩ := aside entry.1 List.mem_cons_self
    have stays : key ∈ (table.overwrite entry.1 entry.2).keys := by
      rw [overwrite_eq, Entries.mem_keys_insert, mem_keys_without]
      exact Or.inr ⟨there, apart⟩
    rw [overwriteAll_cons, inductionHypothesis stays fun name member => aside name (List.mem_cons_of_mem _ member),
      without_cons]
    by_cases inside : isWithin entry.1 key = true
    · rw [if_pos inside, overwrite_eq, without_overwrite_of_isWithin inside, ← overwrite_eq]
    · have outside : isWithin entry.1 key = false := by simpa using inside
      have kept : key ∈ ((table.without key).without entry.1).keys :=
        mem_keys_without.mpr ⟨mem_keys_without.mpr ⟨there, by simp⟩, apart⟩
      rw [if_neg inside, overwriteAll_cons, overwrite_overwrite outside, overwrite_overwrite apart, without_comm,
        Entries.insert_comm differs kept]

/-- Entries that are overwritten in a list of entries are overwritten in what the list is laid above. -/
theorem overwriteAll_overwrite {entries : Table} (ordered : entries.Ordered) (table : Table) (key : String)
    (value : Value) :
    table.overwriteAll (entries.overwrite key value) = (table.overwriteAll entries).overwrite key value := by
  by_cases there : key ∈ entries.keys
  · obtain ⟨⟨name, old⟩, member, rfl⟩ := List.mem_map.mp there
    obtain ⟨before, rest, rfl⟩ := List.append_of_mem member
    have kept := without_of_ordered ordered
    dsimp only at kept
    rw [Ordered, Entries.keys, List.map_append, List.map_cons, List.pairwise_append, List.pairwise_cons] at ordered
    obtain ⟨_, ⟨after, _⟩, across⟩ := ordered
    have new : name ∉ Entries.keys before := fun earlier => (across _ earlier _ List.mem_cons_self).1 rfl
    have replaced : overwrite (before ++ (name, old) :: rest) name value =
        before ++ (name, value) :: without rest name := by
      rw [overwrite_eq, without, List.filter_append, ← without, ← without, kept, without_cons, if_neg (by simp),
        Entries.insert_append, if_neg new]
      simp [Entries.insert]
    have present : name ∈ ((table.overwriteAll before).overwrite name old).keys := by
      rw [overwrite_eq, Entries.mem_keys_insert]
      exact Or.inl rfl
    rw [replaced, overwriteAll_append, overwriteAll_append, overwriteAll_cons, overwriteAll_cons,
      overwriteAll_overwrite_of_mem present after, overwrite_same]
  · have absent : key ∉ (entries.without key).keys := fun member => there (mem_keys_without.mp member).1
    rw [overwrite_eq, Entries.insert_of_not_mem absent, overwriteAll_append, overwriteAll_cons, overwriteAll_nil,
      overwrite_eq, without_overwriteAll, without_without, ← without_overwriteAll, ← overwrite_eq]

/-- What a history leaves in the empty table, laid above a table, is the history laid above it. -/
theorem overwriteAll_replay (table history : Table) :
    table.overwriteAll (overwriteAll [] history) = table.overwriteAll history := by
  induction history using List.reverseRecOn with
  | nil => rfl
  | append_singleton history entry inductionHypothesis =>
    rw [overwriteAll_append, overwriteAll_append, overwriteAll_cons, overwriteAll_nil, overwriteAll_cons,
      overwriteAll_nil, overwriteAll_overwrite (ordered_overwriteAll ordered_nil history), inductionHypothesis]

end Table

namespace Properties

mutual

/-- The names that declarations inside a group define, in the order in which they stand, with what is written for
them. -/
def definitions (group : String) : List Declaration → List (String × Expression)
  | [] => []
  | first :: rest => definitionsOne group first ++ definitions group rest

def definitionsOne (group : String) : Declaration → List (String × Expression)
  | .mk name _ body => definitionsBody (qualified group name) body

def definitionsBody (key : String) : Body → List (String × Expression)
  | .block inner => definitions key inner
  | .assignment expression => [(key, expression)]
  | .arguments expressions => expressions.map fun expression => (key, expression)

end

/-- The entries that definitions write above a table, each one in sight of those before it. -/
def history (visible : Table) : List (String × Expression) → Except PropertiesFault Table
  | [] => .ok []
  | (key, expression) :: rest => do
    let value ← evaluate visible expression
    let entries ← history (visible.overwrite key value) rest
    pure ((key, value) :: entries)

theorem history_append {visible first rest : Table} {definitions others : List (String × Expression)}
    (one : history visible definitions = .ok first) (two : history (visible.overwriteAll first) others = .ok rest) :
    history visible (definitions ++ others) = .ok (first ++ rest) := by
  induction definitions generalizing visible first with
  | nil =>
    obtain rfl := Except.ok.inj one
    exact two
  | cons definition more inductionHypothesis =>
    obtain ⟨key, expression⟩ := definition
    obtain ⟨value, evaluated, one⟩ := (Running.attempt_eq_ok _ _ _).mp one
    obtain ⟨entries, others, same⟩ := (Running.attempt_eq_ok _ _ _).mp one
    obtain rfl := Except.ok.inj same
    refine (Running.attempt_eq_ok _ _ _).mpr ⟨value, evaluated, ?_⟩
    exact (Running.attempt_eq_ok _ _ _).mpr ⟨entries ++ rest, inductionHypothesis others two, rfl⟩

theorem history_singleton {visible : Table} {key : String} {expression : Expression} {value : Value}
    (evaluated : evaluate visible expression = .ok value) :
    history visible [(key, expression)] = .ok [(key, value)] := by
  rw [history, evaluated]
  rfl

theorem Tables.defineAll_append (tables : Tables) (first rest : Table) :
    tables.defineAll (first ++ rest) = (tables.defineAll first).defineAll rest := by
  simp only [defineAll, Table.overwriteAll_append]

mutual

/-- Declarations define what their definitions write, in both tables. -/
theorem flatten_history {group : String} {declarations : List Declaration} {tables after : Tables}
    (flat : flatten group declarations tables = .ok after) :
    ∃ entries, history tables.visible (definitions group declarations) = .ok entries ∧
      after = tables.defineAll entries := by
  cases declarations with
  | nil =>
    rw [flatten] at flat
    obtain rfl := Except.ok.inj flat
    exact ⟨[], by rw [definitions, history], rfl⟩
  | cons first rest =>
    rw [flatten] at flat
    obtain ⟨between, one, two⟩ := (Running.attempt_eq_ok _ _ _).mp flat
    obtain ⟨entries, written, rfl⟩ := flattenOne_history one
    obtain ⟨others, written', rfl⟩ := flatten_history two
    refine ⟨entries ++ others, ?_, (tables.defineAll_append entries others).symm⟩
    rw [definitions]
    exact history_append written written'
termination_by structural declarations

theorem flattenOne_history {group : String} {declaration : Declaration} {tables after : Tables}
    (flat : flattenOne group declaration tables = .ok after) :
    ∃ entries, history tables.visible (definitionsOne group declaration) = .ok entries ∧
      after = tables.defineAll entries := by
  cases declaration with
  | mk name line body =>
    rw [flattenOne] at flat
    rw [definitionsOne]
    exact flattenBody_history flat
termination_by structural declaration

theorem flattenBody_history {key : String} {line : Nat} {body : Body} {tables after : Tables}
    (flat : flattenBody key line body tables = .ok after) :
    ∃ entries, history tables.visible (definitionsBody key body) = .ok entries ∧ after = tables.defineAll entries := by
  have one {expression : Expression} (flat : (match evaluate tables.visible expression with
      | .ok value => .ok (tables.define key value)
      | .error fault => .error (line, fault) : Except (Nat × PropertiesFault) Tables) = .ok after) :
      ∃ entries, history tables.visible [(key, expression)] = .ok entries ∧ after = tables.defineAll entries := by
    cases evaluated : evaluate tables.visible expression with
    | error fault =>
      rw [evaluated] at flat
      cases flat
    | ok value =>
      rw [evaluated] at flat
      obtain rfl := Except.ok.inj flat
      exact ⟨[(key, value)], history_singleton evaluated, rfl⟩
  cases body with
  | block inner =>
    rw [flattenBody] at flat
    rw [definitionsBody]
    exact flatten_history flat
  | assignment expression =>
    rw [flattenBody] at flat
    exact one flat
  | arguments expressions =>
    match expressions with
    | [] =>
      rw [flattenBody] at flat
      · cases flat
      · simp
    | [expression] =>
      rw [flattenBody] at flat
      exact one flat
    | _ :: _ :: _ =>
      rw [flattenBody] at flat
      · cases flat
      · simp
termination_by structural body

end

theorem flatten_append (group : String) (declarations more : List Declaration) (tables : Tables) :
    flatten group (declarations ++ more) tables = (flatten group declarations tables >>= flatten group more) := by
  induction declarations generalizing tables with
  | nil =>
    rw [flatten]
    rfl
  | cons first rest inductionHypothesis =>
    rw [List.cons_append, flatten, flatten, bind_assoc]
    exact bind_congr inductionHypothesis

theorem parse_eq_ok {text : String} {path : Path} {lower values : Table} :
    parse text path lower = .ok values ↔ ∃ declarations visible, Recipe.readDeclarations text = .ok declarations ∧
      flatten "" declarations ⟨lower, []⟩ = .ok ⟨visible, values⟩ := by
  rw [parse]
  dsimp only
  cases Recipe.readDeclarations text with
  | error error => simp
  | ok declarations =>
    cases flat : flatten "" declarations ⟨lower, []⟩ with
    | error fault => simp [flat]
    | ok tables =>
      obtain ⟨visible, defined⟩ := tables
      simp [flat]

/-- What is refused in the last line of a text is refused in the text. -/
theorem parse_concat {more : String} {path : Path} {lower values visible : Table} {declarations : List Declaration}
    (flat : flatten "" declarations ⟨lower, []⟩ = .ok ⟨visible, values⟩) {key : String} {line : Nat}
    {expression : Expression}
    (reads : Recipe.readDeclarations more = .ok (declarations ++ [.mk key line (.assignment expression)])) :
    parse more path lower = match evaluate visible expression with
      | .ok value => .ok (values.overwrite key value)
      | .error fault => .error ((CompileError.inFile path (.propertiesParseError path fault)).atLine line) := by
  have last : flatten "" [.mk key line (.assignment expression)] ⟨visible, values⟩ =
      match evaluate visible expression with
      | .ok value => .ok (Tables.define ⟨visible, values⟩ key value)
      | .error fault => .error (line, fault) := by
    simp only [flatten, flattenOne, flattenBody, qualified, if_true]
    cases evaluate visible expression <;> rfl
  have whole : flatten "" (declarations ++ [.mk key line (.assignment expression)]) ⟨lower, []⟩ =
      match evaluate visible expression with
      | .ok value => .ok (Tables.define ⟨visible, values⟩ key value)
      | .error fault => .error (line, fault) := by
    rw [flatten_append, flat]
    exact last
  simp only [parse, reads, whole]
  cases evaluate visible expression <;> rfl

/-- A properties file, laid above the table that it is read in sight of, makes up the table that its references see
after its last declaration. So the same reference at the end of the file and in a recipe above the file stands for the
same value, or is refused in both. -/
theorem push_shows_definitions {text : String} {path : Path} {lower : Environment} {values : Table}
    (parsed : parse text path lower.merged = .ok values) (source : LayerSource) :
    ∃ declarations entries, Recipe.readDeclarations text = .ok declarations ∧
      history lower.merged (definitions "" declarations) = .ok entries ∧
      flatten "" declarations ⟨lower.merged, []⟩ = .ok ⟨lower.merged.overwriteAll entries, values⟩ ∧
      (lower.push ⟨source, values⟩).merged = lower.merged.overwriteAll entries ∧
      ∀ (more key name : String) (line : Nat) (deeper : Deeper) (context : RecipeContext) (state : Evaluation),
        Recipe.readDeclarations more = .ok (declarations ++ [.mk key line (.assignment (.reference name))]) →
        context.environment = lower.push ⟨source, values⟩ → state.locals.lookup? name = none →
          (∃ value, parse more path lower.merged = .ok (values.overwrite key value) ∧
            Evaluation.evaluate deeper context line (.reference name) state = .ok value state) ∨
          parse more path lower.merged = .error
              ((CompileError.inFile path (.propertiesParseError path (.unresolved name))).atLine line) ∧
            Evaluation.evaluate deeper context line (.reference name) state = .error
              ((CompileError.inFile (state.currentFile context) (.unresolvedReference name)).atLine line) state := by
  obtain ⟨declarations, visible, reads, flat⟩ := parse_eq_ok.mp parsed
  obtain ⟨entries, written, same⟩ := flatten_history flat
  obtain rfl : visible = lower.merged.overwriteAll entries := congrArg Tables.visible same
  obtain rfl : values = Table.overwriteAll [] entries := congrArg Tables.defined same
  have merged : (lower.push ⟨source, Table.overwriteAll [] entries⟩).merged = lower.merged.overwriteAll entries :=
    Table.overwriteAll_replay lower.merged entries
  refine ⟨declarations, entries, reads, written, flat, merged, ?_⟩
  intro more key name line deeper context state longer above unset
  have resolved : state.resolve? context name = (lower.merged.overwriteAll entries).lookup? name := by
    rw [Evaluation.resolve?, unset, above, ← merged]
    rfl
  rw [parse_concat flat longer, Evaluation.evaluate, Running.get_bind, resolved, evaluate]
  cases (lower.merged.overwriteAll entries).lookup? name with
  | some value => exact Or.inl ⟨value, rfl, rfl⟩
  | none => exact Or.inr ⟨rfl, rfl⟩

/-- Defines a name with a name inside it, hides that one and defines it again. -/
def replayText : String :=
  "db = [\"host\": 1]\ndb.port 2\ndb \"all\"\ndb.port = db\n"

/-- The same lines and a reference to what the last one defines. -/
def replayLongerText : String :=
  replayText ++ "last = db.port\n"

def replayLines : List Declaration :=
  [.mk "db" 1 (.assignment (.map [("host", .int 1)])), .mk "db.port" 2 (.arguments [.int 2]),
    .mk "db" 3 (.arguments [.text "all"]), .mk "db.port" 4 (.assignment (.reference "db"))]

theorem read_replayText : Recipe.readDeclarations replayText = .ok replayLines :=
  Recipe.readDeclarations_of_readsAs (by decide +kernel)

theorem read_replayLongerText :
    Recipe.readDeclarations replayLongerText =
      .ok (replayLines ++ [.mk "last" 5 (.assignment (.reference "db.port"))]) :=
  Recipe.readDeclarations_of_readsAs (by decide +kernel)

theorem flatten_replayLines :
    flatten "" replayLines ⟨[("db.host", .null), ("k", .int 3)], []⟩ =
      .ok ⟨[("k", .int 3), ("db", .text "all"), ("db.port", .text "all")],
        [("db", .text "all"), ("db.port", .text "all")]⟩ := rfl

theorem push_shows_definitions_replayText :
    ∃ (lower : Environment) (values : Table) (context : RecipeContext) (state : Evaluation),
      lower.merged = [("db.host", .null), ("k", .int 3)] ∧ values = [("db", .text "all"), ("db.port", .text "all")] ∧
        parse replayText ⟨"/r/app.properties"⟩ lower.merged = .ok values ∧
        (lower.push ⟨.propertiesFile, values⟩).merged = ("k", .int 3) :: values ∧
        context.environment = lower.push ⟨.propertiesFile, values⟩ ∧
        parse replayLongerText ⟨"/r/app.properties"⟩ lower.merged = .ok (values.overwrite "last" (.text "all")) ∧
        Evaluation.evaluate .refuse context 5 (.reference "db.port") state = .ok (.text "all") state := by
  let lower : Environment := ⟨[], [("db.host", .null), ("k", .int 3)]⟩
  let values : Table := [("db", .text "all"), ("db.port", .text "all")]
  let context : RecipeContext :=
    ⟨.plain (FileTree.empty ["r"]) .standard, ⟨"/r/a.recipe"⟩, lower.push ⟨.propertiesFile, values⟩⟩
  have flat : flatten "" replayLines ⟨lower.merged, []⟩ = .ok ⟨("k", .int 3) :: values, values⟩ :=
    flatten_replayLines
  have parsed : parse replayText ⟨"/r/app.properties"⟩ lower.merged = .ok values :=
    parse_eq_ok.mpr ⟨replayLines, _, read_replayText, flat⟩
  obtain ⟨declarations, entries, reads, -, flat', merged, agree⟩ := push_shows_definitions parsed .propertiesFile
  obtain rfl : replayLines = declarations := Except.ok.inj (read_replayText.symm.trans reads)
  have visible : lower.merged.overwriteAll entries = ("k", .int 3) :: values :=
    congrArg Tables.visible (Except.ok.inj (flat'.symm.trans flat))
  have unset : (Evaluation.start .empty).locals.lookup? "db.port" = none := by decide +kernel
  have found : (Evaluation.start .empty).resolve? context "db.port" = some (.text "all") := by decide +kernel
  have run : Evaluation.evaluate .refuse context 5 (.reference "db.port") (.start .empty) =
      .ok (.text "all") (.start .empty) := by
    rw [Evaluation.evaluate, Running.get_bind, found]
    rfl
  refine ⟨lower, values, context, .start .empty, rfl, rfl, parsed, merged.trans visible, rfl, ?_⟩
  rcases agree replayLongerText "last" "db.port" 5 .refuse context (.start .empty) read_replayLongerText rfl unset with
    ⟨value, longer, evaluated⟩ | ⟨-, refused⟩
  · obtain ⟨rfl, -⟩ := EStateM.Result.ok.inj (run.symm.trans evaluated)
    exact ⟨longer, run⟩
  · rw [run] at refused
    cases refused

end Properties

end DeployRecipe
