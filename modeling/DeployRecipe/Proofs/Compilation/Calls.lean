import DeployRecipe.Proofs.Compilation.Innermost
import DeployRecipe.Proofs.Compilation.ServiceEnvironment

/-!
What the evaluation of a recipe evaluates on its way: expressions and declarations, each in the state that it is
reached in, also those of the fragments, bases and services that the recipe leads to. A call leads to the next ones in
the order of the evaluation, so what one step of this relation keeps holds of everything that is evaluated.
-/

namespace DeployRecipe

open Running Relation

namespace Evaluation

/-- Something that is evaluated. -/
inductive Part where
  | expression (line : Nat) (expression : Expression)
  | items (line : Nat) (items : List Expression)
  /-- A declaration where it stands, in an open block or outside of all blocks. -/
  | declaration (declaration : Declaration)
  | declarations (declarations : List Declaration)

/-- Something that is evaluated, with the recipe that it belongs to and the state before it. -/
structure Call where
  /-- How often files may lead to files from here. -/
  depth : Nat
  context : RecipeContext
  part : Part
  state : Evaluation

/-- Gets ready to evaluate the expression that a fragment holds. -/
def openValue (context : RecipeContext) (line : Nat) (relative : String) : Evaluating Expression := do
  let path ← fragmentPath context line relative
  inSession (Session.enter path)
  let expression ← readFragment context path
  modify fun state => { state with fragments := path :: state.fragments }
  pure expression

/-- The state inside a block that was opened. -/
def insideBlock (state : Evaluation) (entity : Entity) : Evaluation :=
  { state with scopes := .opening entity :: state.scopes }

/-- To evaluate the first call is to evaluate the second one on the way. -/
inductive Leads : Call → Call → Prop
  | list {depth context state line} {items : List Expression} :
    Leads ⟨depth, context, .expression line (.list items), state⟩ ⟨depth, context, .items line items, state⟩
  | map {depth context state line} {entries : List (String × Expression)} :
    Leads ⟨depth, context, .expression line (.map entries), state⟩
      ⟨depth, context, .items line (entries.map Prod.snd), state⟩
  | value {depth context state line name blockLine declarations entity between}
    (opened : openBlock context name blockLine false state = .ok entity between) :
    Leads ⟨depth, context, .expression line (.block name blockLine declarations), state⟩
      ⟨depth, context, .declarations declarations, between.insideBlock entity⟩
  | load {depth context state line relative expression inside}
    (opened : openValue context line relative state = .ok expression inside) :
    Leads ⟨depth + 1, context, .expression line (.load relative), state⟩
      -- The expression of a fragment stands on its first line.
      ⟨depth, context, .expression 1 expression, inside⟩
  | item {depth context state line first} {rest : List Expression} :
    Leads ⟨depth, context, .items line (first :: rest), state⟩ ⟨depth, context, .expression line first, state⟩
  | items {depth context state line first value after} {rest : List Expression}
    (evaluated : evaluate (Deeper.upTo depth) context line first state = .ok value after) :
    Leads ⟨depth, context, .items line (first :: rest), state⟩ ⟨depth, context, .items line rest, after⟩
  | declaration {depth context state first} {rest : List Declaration} :
    Leads ⟨depth, context, .declarations (first :: rest), state⟩ ⟨depth, context, .declaration first, state⟩
  | declarations {depth context state first after} {rest : List Declaration}
    (evaluated : evaluateInPlace (Deeper.upTo depth) context first state = .ok () after) :
    Leads ⟨depth, context, .declarations (first :: rest), state⟩ ⟨depth, context, .declarations rest, after⟩
  | block {depth context state name line declarations entity between}
    (opened : openBlock context name line true state = .ok entity between) :
    Leads ⟨depth, context, .declaration (.mk name line (.block declarations)), state⟩
      ⟨depth, context, .declarations declarations, between.insideBlock entity⟩
  | assignment {depth context state name line expression} :
    Leads ⟨depth, context, .declaration (.mk name line (.assignment expression)), state⟩
      ⟨depth, context, .expression line expression, state⟩
  | arguments {depth context state name line} {expressions : List Expression} :
    Leads ⟨depth, context, .declaration (.mk name line (.arguments expressions)), state⟩
      ⟨depth, context, .items line expressions, state⟩
  | fragment {depth context state line declarations inside} {expressions : List Expression}
    (opened : openFragment (Deeper.upTo (depth + 1)) context line expressions state = .ok declarations inside) :
    Leads ⟨depth + 1, context, .declaration (.mk loadWord line (.arguments expressions)), state⟩
      ⟨depth, context, .declarations declarations, inside⟩
  /-- The base that a block extends, or the service in the directory that a block is named after. -/
  | recipe {depth context state declaration nested declarations between} (inside : state.scopes ≠ [])
    (opened : Step.opens? ⟨depth + 1, context, declaration, state⟩ state = .ok (some (nested, declarations)) between) :
    Leads ⟨depth + 1, context, .declaration declaration, state⟩
      ⟨depth, nested, .declarations declarations, start between.session⟩

namespace Call

/-- The call gives a name of the recipe a value, outside of all blocks. -/
def Defines (call : Call) (name : String) : Prop :=
  call.state.scopes = [] ∧ ∃ line expression, call.part = .declaration (.mk name line (.assignment expression))

/-- The call leads to one of the same recipe that gives the name a value. -/
def LeadsToDefine (call : Call) (name : String) : Prop :=
  ∃ giving, ReflTransGen Leads call giving ∧ giving.context = call.context ∧ giving.Defines name

theorem LeadsToDefine.head {call next : Call} {name : String} (leads : Leads call next)
    (same : next.context = call.context) (gives : next.LeadsToDefine name) : call.LeadsToDefine name := by
  obtain ⟨giving, path, context, defines⟩ := gives
  exact ⟨giving, .head leads path, context.trans same, defines⟩

end Call

variable {deeper : Deeper} {context : RecipeContext} {before after : Evaluation}

/-- The recipe has defined the same names. -/
def Contents.SameLocals (before after : Contents) : Prop := after.locals = before.locals

instance : IsPreorder Contents Contents.SameLocals where
  refl _ := rfl
  trans _ _ _ one other := other.trans one

theorem noteFamily_sameLocals (descriptor : Descriptor) (state : Evaluation) :
    Framed Contents.SameLocals state (state.mapInnermost (noteFamily descriptor)) := by
  rw [mapInnermost]
  split <;> exact ⟨rfl, rfl, rfl⟩

theorem openBlock_locals {name : String} {line : Nat} {attached : Bool} {entity : Entity}
    (run : openBlock context name line attached before = .ok entity after) : after.locals = before.locals :=
  ((openBlock_preserves (fun _ => noteFamily_sameLocals) name line before).ok entity after run).contents

/-- A block defines no names, also where it becomes the root of the recipe. -/
theorem attached_locals {name : String} {line depth : Nat} {declarations : List Declaration}
    (run : (evaluateBlock context name line true (evaluateStatements (Deeper.upTo depth) context declarations) >>=
      attach context line) before = .ok () after) : after.locals = before.locals := by
  obtain ⟨entity, between, evaluated, attached⟩ := (bind_eq_ok _ _ _ _ _).mp run
  have body : Preserves Grown (evaluateStatements (Deeper.upTo depth) context declarations) :=
    evaluateStatements_preserves (Deeper.upTo_preserve depth) declarations
  have block : Framed Contents.SameLocals before between :=
    (evaluateBlock_preserves body (fun _ => noteFamily_sameLocals) name line before).ok entity between evaluated
  have same : after.locals = between.locals := by
    rcases (attach_eq_ok _ _).mp attached with ⟨_, rfl⟩ | ⟨_, _, _, _, _, _, rfl⟩ <;> rfl
  exact same.trans block.contents

theorem openValue_locals {line : Nat} {relative : String} {expression : Expression}
    (run : openValue context line relative before = .ok expression after) : after.locals = before.locals := by
  simp only [openValue, readFragment, bind_eq_ok, fragmentPath_eq_ok, inSession_eq_ok, modify_eq_ok, pure_eq_ok] at run
  obtain ⟨_, _, ⟨_, rfl⟩, _, _, ⟨_, _, rfl⟩, _, _, ⟨text, _, ⟨_, _, rfl⟩, parsing⟩, _, _, rfl, _, rfl⟩ := run
  cases parsed : Recipe.readExpression text with
  | error error =>
    rw [parsed] at parsing
    exact absurd parsing (throw_ne_ok _ _ _ _)
  | ok expression =>
    rw [parsed] at parsing
    obtain ⟨_, rfl⟩ := (pure_eq_ok _ _ _ _).mp parsing
    rfl

theorem openFragment_locals {depth line : Nat} {expressions : List Expression} {declarations : List Declaration}
    (run : openFragment (Deeper.upTo depth) context line expressions before = .ok declarations after) :
    after.locals = before.locals := by
  obtain ⟨_, between, _, _, evaluated, _, _, _, rfl⟩ := (openFragment_eq_ok _ _ _).mp run
  change between.locals = before.locals
  exact (evaluateItems_unchanged evaluated).locals

/-- What a recipe that a step leads to is got ready by. -/
theorem Step.opens?_opens {step : Step} {nested : RecipeContext} {declarations : List Declaration}
    (opened : step.opens? before = .ok (some (nested, declarations)) after) :
    ∃ path handover session later,
      openNested step.context.job path handover session = .ok (nested, declarations) later := by
  obtain ⟨depth, context, ⟨name, line, body⟩, state⟩ := step
  cases body with
  | block declarations => cases opened
  | arguments expressions =>
    simp only [opens?] at opened
    split at opened
    · obtain ⟨_, _, base, found⟩ := (bind_eq_ok _ _ _ _ _).mp opened
      obtain ⟨same, rfl⟩ := (pure_eq_ok _ _ _ _).mp found
      obtain rfl := Option.some.inj same
      simp only [openBase, bind_eq_ok, inSession_eq_ok] at base
      obtain ⟨_, _, _, _, _, _, _, _, _, path, _, _, session, ready, _⟩ := base
      exact ⟨path, _, _, session, ready⟩
    · split at opened
      · obtain ⟨path, session, later, ready⟩ := openService?_opens opened
        exact ⟨path, _, session, later, ready⟩
      · cases opened
  | assignment expression =>
    simp only [opens?] at opened
    split at opened
    · obtain ⟨path, session, later, ready⟩ := openService?_opens opened
      exact ⟨path, _, session, later, ready⟩
    · cases opened

/-- Declarations of a file give a name of the recipe a value only where a call gives it one. -/
theorem forM_evaluateInPlace_defines {depth : Nat} {name : String}
    (step : ∀ {declaration before after},
      evaluateInPlace (Deeper.upTo depth) context declaration before = .ok () after → name ∈ after.locals.keys →
        name ∈ before.locals.keys ∨ Call.LeadsToDefine ⟨depth, context, .declaration declaration, before⟩ name)
    {declarations : List Declaration}
    (run : declarations.forM (evaluateInPlace (Deeper.upTo depth) context) before = .ok () after)
    (there : name ∈ after.locals.keys) :
    name ∈ before.locals.keys ∨ Call.LeadsToDefine ⟨depth, context, .declarations declarations, before⟩ name := by
  induction declarations generalizing before with
  | nil =>
    obtain ⟨_, rfl⟩ := (pure_eq_ok _ _ _ _).mp run
    exact Or.inl there
  | cons first rest inductionHypothesis =>
    obtain ⟨_, between, one, further⟩ := (bind_eq_ok _ _ _ _ _).mp run
    rcases inductionHypothesis further with earlier | later
    · exact (step one earlier).imp id (Call.LeadsToDefine.head .declaration rfl)
    · exact Or.inr (later.head (.declarations one) rfl)

/-- A name that the recipe has after a declaration it had before, or a call gives it a value on the way. -/
theorem evaluateInPlace_defines {depth : Nat} {declaration : Declaration}
    (run : evaluateInPlace (Deeper.upTo depth) context declaration before = .ok () after) {name : String}
    (there : name ∈ after.locals.keys) :
    name ∈ before.locals.keys ∨ Call.LeadsToDefine ⟨depth, context, .declaration declaration, before⟩ name := by
  induction depth using Nat.strong_induction_on generalizing context declaration before after with
  | _ depth inductionHypothesis =>
    by_cases outside : before.scopes = []
    · obtain ⟨name', line, body⟩ := declaration
      rw [evaluateInPlace_outside outside] at run
      cases body with
      | block declarations => exact Or.inl (attached_locals run ▸ there)
      | assignment expression =>
        obtain ⟨value, between, evaluated, defined⟩ := (bind_eq_ok _ _ _ _ _).mp run
        obtain rfl := (modify_eq_ok _ _ _ _).mp defined
        rcases (Entries.mem_keys_insert _ _ _ _).mp there with rfl | old
        · exact Or.inr ⟨_, .refl, rfl, outside, line, expression, rfl⟩
        · exact Or.inl ((evaluate_unchanged evaluated).locals ▸ old)
      | arguments expressions =>
        change (if name' = loadWord then _ else if name' = extendWord then _ else _ : Evaluating Unit) before = _ at run
        split at run
        · rename_i load
          obtain rfl : name' = loadWord := load
          obtain ⟨declarations, inside, inner, opened, ran, rfl⟩ := (splice_iff_openFragment _ _).mp run
          cases depth with
          | zero => exact absurd ran (throw_ne_ok _ _ _ _)
          | succ depth =>
            rcases forM_evaluateInPlace_defines (inductionHypothesis depth (Nat.lt_succ_self depth)) ran there with
              earlier | later
            · exact Or.inl (openFragment_locals opened ▸ earlier)
            · exact Or.inr (later.head (.fragment opened) rfl)
        · split at run
          · exact absurd run (fail_ne_ok _ _ _)
          · exact absurd run (fail_ne_ok _ _ _)
    · exact Or.inl ((evaluateInPlace_grown run).locals outside ▸ there)

/-- A step stays in the recipe, and what the recipe has of names it had before or a call gives it; or it goes on with
another recipe, which has no names yet. -/
theorem Leads.cases {call next : Call} (leads : Leads call next) :
    (next.context = call.context ∧ ∀ name ∈ next.state.locals.keys,
      name ∈ call.state.locals.keys ∨ call.LeadsToDefine name) ∨
    (next.state.locals = [] ∧ ∃ path handover session declarations later,
      openNested call.context.job path handover session = .ok (next.context, declarations) later) := by
  cases leads with
  | list | map | item | declaration | assignment | arguments => exact Or.inl ⟨rfl, fun name there => Or.inl there⟩
  | value opened | block opened =>
    exact Or.inl ⟨rfl, fun name there => Or.inl (openBlock_locals opened ▸ there)⟩
  | load opened => exact Or.inl ⟨rfl, fun name there => Or.inl (openValue_locals opened ▸ there)⟩
  | fragment opened => exact Or.inl ⟨rfl, fun name there => Or.inl (openFragment_locals opened ▸ there)⟩
  | items evaluated =>
    exact Or.inl ⟨rfl, fun name there => Or.inl ((evaluate_unchanged evaluated).locals ▸ there)⟩
  | declarations evaluated =>
    refine Or.inl ⟨rfl, fun name there => ?_⟩
    exact (evaluateInPlace_defines evaluated there).imp id (Call.LeadsToDefine.head .declaration rfl)
  | recipe inside opened =>
    obtain ⟨path, handover, session, later, ready⟩ := Step.opens?_opens opened
    exact Or.inr ⟨rfl, path, handover, session, _, later, ready⟩

end Evaluation

open Evaluation

/-- The call is reached where a text is compiled that stands for a file at a path. -/
def Job.Evaluates (job : Job) (path : Path) (text : String) (call : Call) : Prop :=
  ∃ context declarations session, job.opening path text Session.empty = .ok (context, declarations) session ∧
    ReflTransGen Leads ⟨job.depth, context, .declarations declarations, start session⟩ call

namespace Job.Evaluates

variable {job : Job} {path : Path} {text : String} {call : Call}

/-- A recipe has only the names that were given values outside of all blocks in the same recipe. -/
theorem defined (evaluates : job.Evaluates path text call) :
    ∀ name ∈ call.state.locals.keys, ∃ giving, job.Evaluates path text giving ∧ giving.context = call.context ∧
      giving.Defines name := by
  obtain ⟨context, declarations, session, opened, reached⟩ := evaluates
  induction reached with
  | refl => exact fun name there => absurd there List.not_mem_nil
  | tail earlier leads inductionHypothesis =>
    intro name there
    rcases leads.cases with ⟨same, names⟩ | ⟨none, _⟩
    · rw [same]
      rcases names name there with old | ⟨giving, path, context, defines⟩
      · exact inductionHypothesis name old
      · exact ⟨giving, ⟨_, _, _, opened, earlier.trans path⟩, context, defines⟩
    · rw [none] at there
      exact absurd there List.not_mem_nil

end Job.Evaluates

/-- The environment of the recipe is that of its file, with the ambient names of the job. -/
def RecipeContext.BuiltBy (context : RecipeContext) (job : Job) : Prop :=
  context.job = job ∧ ∃ (inputs : EnvironmentInputs) (sources : Sources), inputs.recipeFile = context.recipeFile ∧
    inputs.ambient = job.ambient ∧ Gives (inputs.build job.files) sources context.environment

/-- Every recipe that is evaluated on the way has the ambient names of the job. -/
theorem Job.Evaluates.builtBy {job : Job} {path : Path} {text : String} {call : Call}
    (evaluates : job.Evaluates path text call) : call.context.BuiltBy job := by
  obtain ⟨context, declarations, session, opened, reached⟩ := evaluates
  induction reached with
  | refl =>
    obtain ⟨environment, sources, _, built, rfl, rfl⟩ := (opening_eq_ok _ _ _ _ _ _).mp opened
    exact ⟨rfl, job.inputs path, _, rfl, rfl, _, built⟩
  | tail earlier leads inductionHypothesis =>
    rcases leads.cases with ⟨same, _⟩ | ⟨_, path, handover, before, _, later, ready⟩
    · rwa [same]
    · obtain ⟨outer, _⟩ := inductionHypothesis
      rw [outer] at ready
      obtain ⟨inner, file, sources, built⟩ := openNested_eq_ok ready
      refine ⟨inner, handover.inputs job path, sources, ?_, ?_, built⟩
      · rw [file]
        cases handover <;> rfl
      · cases handover <;> rfl

end DeployRecipe
