import DeployRecipe.Proofs.Compilation.Onward
import DeployRecipe.Proofs.MatchingTrees

/-!
The files that a compilation uses, one after the other: recipes, fragments and the files of environments. A file is
listed each time it is used, with what its text is read as, wherever the reading comes from.
-/

namespace DeployRecipe

/-- What the text of a file is read as. -/
inductive Reading where
  | declarations (declarations : List Declaration)
  | expression (expression : Expression)
  | properties

/-- A file that is used. -/
structure Use where
  path : Path
  reading : Reading

/-- The text is read as the use says. -/
def Use.Reads (use : Use) (text : String) : Prop :=
  match use.reading with
  | .declarations declarations => Recipe.readDeclarations text = .ok declarations
  | .expression expression => Recipe.readExpression text = .ok expression
  | .properties => ∃ lower values, Properties.parse text use.path lower = .ok values

namespace EnvironmentInputs

/-- The files that an environment is made from, the properties first. -/
def uses (inputs : EnvironmentInputs) (files : FileTree) : List Use :=
  ((inputs.propertiesPath? files).toList ++ (inputs.overridesPath? files).toList).map (⟨·, .properties⟩)

end EnvironmentInputs

namespace Evaluation

/-- What is used to get a recipe ready that another one leads to. -/
def nestedUses (job : Job) (path : Path) (declarations : List Declaration) : List Use :=
  -- The table that is handed over has no say in which files stand next to a recipe.
  ⟨path, .declarations declarations⟩ :: ((Handover.inherited []).inputs job path).uses job.files

theorem Handover.uses_eq (handover other : Handover) (job : Job) (path : Path) :
    (handover.inputs job path).uses job.files = (other.inputs job path).uses job.files := by
  cases handover <;> cases other <;> rfl

/-- A way from a call to one that it leads to, with what is used in between. -/
structure Way where
  uses : List Use
  call : Call

/-- The ways after an action that ends well. -/
def waysAfter {ε σ α : Type} (action : EStateM ε σ α) (state : σ) (more : α → σ → List Way) : List Way :=
  match action state with
  | .ok value after => more value after
  | .error _ _ => []

section Ways

variable {ε σ α : Type} {action : EStateM ε σ α} {before after : σ} {value : α} {more : α → σ → List Way} {way : Way}

theorem waysAfter_of_ok (run : action before = .ok value after) : waysAfter action before more = more value after := by
  rw [waysAfter, run]

theorem mem_waysAfter :
    way ∈ waysAfter action before more ↔ ∃ value after, action before = .ok value after ∧ way ∈ more value after := by
  rw [waysAfter]
  cases action before <;> simp

theorem mem_waysAfter_single {next : α → σ → Way} :
    way ∈ waysAfter action before (fun value after => [next value after]) ↔
      ∃ value after, action before = .ok value after ∧ way = next value after := by
  simp only [mem_waysAfter, List.mem_singleton]

end Ways

/-- The way into a block that is opened. -/
def blockWays (depth : Nat) (context : RecipeContext) (name : String) (line : Nat) (attached : Bool)
    (declarations : List Declaration) (state : Evaluation) : List Way :=
  waysAfter (openBlock context name line attached) state fun entity between =>
    [⟨[], depth, context, .declarations declarations, between.insideBlock entity⟩]

/-- The way into a fragment that holds an expression. -/
def valueWays : Nat → RecipeContext → Nat → String → Evaluation → List Way
  | 0, _, _, _, _ => []
  | depth + 1, context, line, relative, state =>
    waysAfter (openValue context line relative) state fun expression inside =>
      [⟨[⟨inside.currentFile context, .expression expression⟩], depth, context, .expression 1 expression, inside⟩]

/-- The way into a fragment that is evaluated in place. -/
def fragmentWays : Nat → RecipeContext → Nat → List Expression → Evaluation → List Way
  | 0, _, _, _, _ => []
  | depth + 1, context, line, expressions, state =>
    waysAfter (openFragment (Deeper.upTo (depth + 1)) context line expressions) state fun declarations inside =>
      [⟨[⟨inside.currentFile context, .declarations declarations⟩],
        depth, context, .declarations declarations, inside⟩]

/-- The way into the base that a block extends, or into the service in the directory that it is named after. -/
def recipeWays (depth : Nat) (context : RecipeContext) (declaration : Declaration) (state : Evaluation) : List Way :=
  if state.scopes.isEmpty then []
  else waysAfter (Step.opens? ⟨depth, context, declaration, state⟩) state fun opened between =>
    match opened, depth with
    | some (nested, declarations), less + 1 =>
      [⟨nestedUses nested.job nested.recipeFile declarations,
        less, nested, .declarations declarations, start between.session⟩]
    | _, _ => []

namespace Call

/-- The ways that an evaluation takes, one after the other. -/
def ways : Call → List Way
  | ⟨depth, context, .expression line expression, state⟩ =>
    match expression with
    | .list items => [⟨[], depth, context, .items line items, state⟩]
    | .map entries => [⟨[], depth, context, .items line (entries.map Prod.snd), state⟩]
    | .block name blockLine declarations => blockWays depth context name blockLine false declarations state
    | .load relative => valueWays depth context line relative state
    | _ => []
  | ⟨depth, context, .items line items, state⟩ =>
    match items with
    | [] => []
    | first :: rest =>
      ⟨[], depth, context, .expression line first, state⟩ ::
        waysAfter (evaluate (Deeper.upTo depth) context line first) state fun _ after =>
          [⟨[], depth, context, .items line rest, after⟩]
  | ⟨depth, context, .declarations declarations, state⟩ =>
    match declarations with
    | [] => []
    | first :: rest =>
      ⟨[], depth, context, .declaration first, state⟩ ::
        waysAfter (evaluateInPlace (Deeper.upTo depth) context first) state fun _ after =>
          [⟨[], depth, context, .declarations rest, after⟩]
  | ⟨depth, context, .declaration (.mk name line body), state⟩ =>
    match body with
    | .block declarations => blockWays depth context name line true declarations state
    | .assignment expression =>
      ⟨[], depth, context, .expression line expression, state⟩ ::
        recipeWays depth context (.mk name line (.assignment expression)) state
    | .arguments expressions =>
      ⟨[], depth, context, .items line expressions, state⟩ ::
        if name = loadWord then fragmentWays depth context line expressions state
        else recipeWays depth context (.mk name line (.arguments expressions)) state

end Call

theorem leads_of_mem_fragmentWays {depth : Nat} {context : RecipeContext} {line : Nat} {expressions : List Expression}
    {state : Evaluation} {way : Way} (member : way ∈ fragmentWays depth context line expressions state) :
    Leads ⟨depth, context, .declaration (.mk loadWord line (.arguments expressions)), state⟩ way.call := by
  cases depth with
  | zero => cases member
  | succ depth =>
    obtain ⟨declarations, inside, opened, rfl⟩ := mem_waysAfter_single.mp member
    exact .fragment opened

theorem leads_of_mem_recipeWays {depth : Nat} {context : RecipeContext} {declaration : Declaration}
    {state : Evaluation} {way : Way} (member : way ∈ recipeWays depth context declaration state) :
    Leads ⟨depth, context, .declaration declaration, state⟩ way.call := by
  rw [recipeWays] at member
  split at member
  · cases member
  · rename_i inside
    obtain ⟨opened, between, run, member⟩ := mem_waysAfter.mp member
    split at member
    · obtain rfl := List.mem_singleton.mp member
      exact .recipe (by simpa using inside) run
    · cases member

/-- A call leads to each call that it has a way to. -/
theorem leads_of_mem_ways {call : Call} {way : Way} (member : way ∈ call.ways) : Leads call way.call := by
  obtain ⟨depth, context, part, state⟩ := call
  cases part with
  | expression line expression =>
    cases expression with
    | list items =>
      obtain rfl := List.mem_singleton.mp member
      exact .list
    | map entries =>
      obtain rfl := List.mem_singleton.mp member
      exact .map
    | block name blockLine declarations =>
      obtain ⟨entity, between, opened, rfl⟩ := mem_waysAfter_single.mp member
      exact .value opened
    | load relative =>
      cases depth with
      | zero => cases member
      | succ depth =>
        obtain ⟨expression, inside, opened, rfl⟩ := mem_waysAfter_single.mp member
        exact .load opened
    | null | bool | int | float | text | interpolated | reference => cases member
  | items line items =>
    cases items with
    | nil => cases member
    | cons first rest =>
      rcases List.mem_cons.mp member with rfl | member
      · exact .item
      · obtain ⟨_, after, evaluated, rfl⟩ := mem_waysAfter_single.mp member
        exact .items evaluated
  | declarations declarations =>
    cases declarations with
    | nil => cases member
    | cons first rest =>
      rcases List.mem_cons.mp member with rfl | member
      · exact .declaration
      · obtain ⟨_, after, evaluated, rfl⟩ := mem_waysAfter_single.mp member
        exact .declarations evaluated
  | declaration declaration =>
    obtain ⟨name, line, body⟩ := declaration
    cases body with
    | block declarations =>
      obtain ⟨entity, between, opened, rfl⟩ := mem_waysAfter_single.mp member
      exact .block opened
    | assignment expression =>
      rcases List.mem_cons.mp member with rfl | member
      · exact .assignment
      · exact leads_of_mem_recipeWays member
    | arguments expressions =>
      rcases List.mem_cons.mp member with rfl | member
      · exact .arguments
      · split at member
        · rename_i load
          exact load ▸ leads_of_mem_fragmentWays member
        · exact leads_of_mem_recipeWays member

/-- What is used along the ways of a call. -/
def Call.uses (call : Call) : List Use :=
  call.ways.attach.flatMap fun ⟨way, _⟩ => way.uses ++ way.call.uses
termination_by (call.depth, sizeOf call.part)
decreasing_by exact (leads_of_mem_ways ‹_›).descends

theorem Call.uses_eq (call : Call) : call.uses = call.ways.flatMap fun way => way.uses ++ way.call.uses := by
  rw [uses]
  conv_rhs => rw [← List.attach_map_subtype_val call.ways, List.flatMap_map]

end Evaluation

namespace Job

open Evaluation

/-- The files that the compilation of a text uses. -/
def uses (job : Job) (path : Path) (text : String) : List Use :=
  match job.opening path text Session.empty with
  | .ok (context, declarations) session =>
    ⟨path, .declarations declarations⟩ :: (job.inputs path).uses job.files ++
      Call.uses ⟨job.depth, context, .declarations declarations, start session⟩
  | .error _ _ => []

/-- The files that the compilation of a file uses. -/
def usesOfFile (job : Job) (file : Path) : List Use :=
  match job.files.canonical file with
  | .error _ => []
  | .ok path =>
    match job.files.readText path with
    | .error _ => []
    | .ok text => job.uses path text

end Job

end DeployRecipe
