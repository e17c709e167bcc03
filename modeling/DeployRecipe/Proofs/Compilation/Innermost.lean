import DeployRecipe.Proofs.Compilation.ErrorChain

/-!
What evaluation leaves alone, however it ends. An expression leaves the open blocks as they are; a declaration in an
open block changes that block alone, which keeps its kind and the names that were used in it. Both leave every file
and every fragment again that they enter.
-/

namespace DeployRecipe

open Running

section Outcomes

variable {σ α β : Type} {same stronger : σ → σ → Prop}

/-- However a step ends, the state after it is related to the state before it. -/
def PreservesAt (same : σ → σ → Prop) (action : EStateM CompileError σ α) (state : σ) : Prop :=
  Ends (same state) (fun _ => True) (action state)

def Preserves (same : σ → σ → Prop) (action : EStateM CompileError σ α) : Prop :=
  ∀ state, PreservesAt same action state

variable {first : EStateM CompileError σ α} {next : α → EStateM CompileError σ β}

namespace PreservesAt

variable {state : σ}

theorem mono (preserves : PreservesAt stronger first state)
    (weaker : ∀ after, stronger state after → same state after) : PreservesAt same first state :=
  ⟨fun value after run => weaker after (preserves.ok value after run),
    fun error after run => ⟨weaker after (preserves.error error after run).1, trivial⟩⟩

theorem bind [IsTrans σ same] (head : PreservesAt same first state)
    (rest : ∀ value between, first state = .ok value between → PreservesAt same (next value) between) :
    PreservesAt same (first >>= next) state := by
  rw [PreservesAt]
  cases run : first state with
  | ok value between =>
    have kept := head.ok value between run
    have later := rest value between run
    rw [bind_of_ok run]
    exact ⟨fun result after ran => trans_of same kept (later.ok result after ran),
      fun error after ran => ⟨trans_of same kept (later.error error after ran).1, trivial⟩⟩
  | error error between =>
    rw [bind_of_error run]
    exact .of_error (head.error error between run).1 trivial

end PreservesAt

namespace Preserves

theorem bind [IsTrans σ same] (head : Preserves same first) (rest : ∀ value, Preserves same (next value)) :
    Preserves same (first >>= next) := fun state =>
  (head state).bind fun value between _ => rest value between

theorem get_bind {next : σ → EStateM CompileError σ β} (rest : ∀ state, Preserves same (next state)) :
    Preserves same (get >>= next) := fun state => rest state state

theorem modify {change : σ → σ} (kept : ∀ state, same state (change state)) :
    Preserves same (modify change : EStateM CompileError σ PUnit) := fun state => .of_ok (kept state) PUnit.unit

variable [IsPreorder σ same]

theorem pure (value : α) : Preserves same (Pure.pure value : EStateM CompileError σ α) := fun state =>
  .of_ok (refl_of same state) value

theorem throw (error : CompileError) : Preserves same (MonadExcept.throw error : EStateM CompileError σ α) :=
  fun state => .of_error (refl_of same state) trivial

theorem ofExcept (outcome : Except CompileError α) :
    Preserves same (MonadExcept.ofExcept outcome : EStateM CompileError σ α) := by
  cases outcome with
  | ok value => exact pure value
  | error error => exact throw error

/-- Actions one after the other, from a state on for which something holds that they keep. -/
theorem forM_from (holds : σ → Prop) {action : α → EStateM CompileError σ PUnit}
    (each : ∀ item state, holds state → PreservesAt same (action item) state)
    (keeps : ∀ before after, same before after → holds before → holds after) (list : List α) {state : σ}
    (start : holds state) : PreservesAt same (list.forM action) state := by
  induction list generalizing state with
  | nil => exact pure _ state
  | cons first rest inductionHypothesis =>
    have head := each first state start
    exact head.bind fun _ between run => inductionHypothesis (keeps state between (head.ok _ between run) start)

theorem forM {action : α → EStateM CompileError σ PUnit} (each : ∀ item, Preserves same (action item))
    (list : List α) : Preserves same (list.forM action) := fun _ =>
  forM_from (fun _ => True) (fun item state _ => each item state) (fun _ _ _ => id) list trivial

end Preserves

end Outcomes

namespace Session

/-- The same files are being compiled. -/
def SameActive (before after : Session) : Prop :=
  after.active = before.active

instance : IsPreorder Session SameActive where
  refl _ := rfl
  trans _ _ _ one other := other.trans one

theorem recording_preserves {α : Type} (action : Recording α) : Preserves SameActive (recording action) := by
  intro session
  have kept (sources : Sources) : SameActive session { session with sources } := rfl
  rw [PreservesAt, recording]
  cases action session.sources with
  | ok value sources => exact .of_ok (kept sources) value
  | error error sources => exact .of_error (kept sources) trivial

theorem read_preserves (job : Job) (path : Path) : Preserves SameActive (read job path) :=
  (Preserves.ofExcept _).bind fun _ => (recording_preserves _).bind fun _ => .pure _

theorem parseText_preserves (path : Path) (text : String) : Preserves SameActive (parseText path text) := by
  intro session
  rw [PreservesAt, parseText, Running.get_bind]
  cases session.parsed? path with
  | some declarations => exact Preserves.pure declarations session
  | none =>
    cases Recipe.readDeclarations text with
    | error error => exact Preserves.throw _ session
    | ok declarations =>
      have kept : SameActive session { session with parsed := (path, declarations) :: session.parsed } := rfl
      exact .of_ok kept declarations

theorem parseFile_preserves (job : Job) (path : Path) : Preserves SameActive (parseFile job path) := by
  refine .get_bind fun session => ?_
  split
  · exact .pure _
  · exact (read_preserves job path).bind fun text => parseText_preserves path text

end Session

/-- What becomes of an open block whose declarations are evaluated. -/
structure Scope.Grows (scope changed : Scope) : Prop where
  kind : changed.entity.kind = scope.entity.kind
  used : scope.used ⊆ changed.used
  position : scope.position ≤ changed.position

namespace Evaluation

/-- What a state holds besides the files that are being compiled. -/
structure Contents where
  scopes : List Scope
  locals : Table
  root : Option Entity

def contents (state : Evaluation) : Contents :=
  ⟨state.scopes, state.locals, state.root⟩

/-- Only the innermost open block has changed, and it has grown. Outside of all blocks, none is open afterwards. -/
inductive Contents.Grows : Contents → Contents → Prop
  | outside {locals locals' : Table} {root root' : Option Entity} : Grows ⟨[], locals, root⟩ ⟨[], locals', root'⟩
  | inside {scope changed : Scope} {outer : List Scope} {locals : Table} {root : Option Entity}
    (grows : scope.Grows changed) : Grows ⟨scope :: outer, locals, root⟩ ⟨changed :: outer, locals, root⟩

instance : IsPreorder Contents Contents.Grows where
  refl := fun ⟨scopes, _, _⟩ => by
    cases scopes with
    | nil => exact .outside
    | cons scope outer => exact .inside ⟨rfl, fun _ => id, Nat.le_refl _⟩
  trans first second third one other := by
    cases one with
    | outside =>
      cases other with
      | outside => exact .outside
    | inside grows =>
      cases other with
      | inside more =>
        exact .inside ⟨more.kind.trans grows.kind, fun _ member => more.used (grows.used member),
          grows.position.trans more.position⟩

theorem Contents.Grows.around {scope : Scope} {outer : List Scope} {locals : Table} {root : Option Entity}
    {after : Contents} (grows : Grows ⟨scope :: outer, locals, root⟩ after) :
    ∃ changed, after = ⟨changed :: outer, locals, root⟩ ∧ scope.Grows changed := by
  cases grows with
  | inside grows => exact ⟨_, rfl, grows⟩

theorem Contents.Grows.scopes_eq_nil {before after : Contents} (grows : Grows before after)
    (outside : before.scopes = []) : after.scopes = [] := by
  cases grows with
  | outside => rfl
  | inside => cases outside

/-- The files that are being compiled and the fragments among them are the same, and everything else is alike. -/
structure Framed (alike : Contents → Contents → Prop) (before after : Evaluation) : Prop where
  active : after.session.active = before.session.active
  fragments : after.fragments = before.fragments
  contents : alike before.contents after.contents

/-- The innermost open block may have grown; everything else is the same. -/
abbrev Grown : Evaluation → Evaluation → Prop := Framed Contents.Grows

/-- Nothing but what is known about files may have changed. -/
abbrev Unchanged : Evaluation → Evaluation → Prop := Framed Eq

section Alike

variable {alike : Contents → Contents → Prop} [IsPreorder Contents alike]

instance : IsPreorder Evaluation (Framed alike) where
  refl _ := ⟨rfl, rfl, refl_of alike _⟩
  trans _ _ _ one other :=
    ⟨other.active.trans one.active, other.fragments.trans one.fragments, trans_of alike one.contents other.contents⟩

theorem Unchanged.framed {before after : Evaluation} (unchanged : Unchanged before after) : Framed alike before after :=
  ⟨unchanged.active, unchanged.fragments, unchanged.contents ▸ refl_of alike _⟩

variable {α : Type} {context : RecipeContext}

theorem unchanged_preserves {action : Evaluating α} (preserves : Preserves Unchanged action) :
    Preserves (Framed alike) action := fun state => (preserves state).mono fun _ => Unchanged.framed

theorem fail_preserves (line : Nat) (kind : ErrorKind) :
    Preserves (Framed alike) (fail context line kind : Evaluating α) :=
  .get_bind fun _ => .throw _

theorem demand_preserves (line : Nat) (outcome : Except ErrorKind α) :
    Preserves (Framed alike) (demand context line outcome) := by
  cases outcome with
  | ok value => exact .pure value
  | error kind => exact fail_preserves line kind

theorem onePath_preserves (line : Nat) (kind : EntityKind) (directive : String) (values : List Value) :
    Preserves (Framed alike) (onePath context line kind directive values) := by
  unfold onePath
  split
  · exact .pure _
  · exact fail_preserves line _

theorem fragmentPath_preserves (line : Nat) (relative : String) :
    Preserves (Framed alike) (fragmentPath context line relative) := by
  refine .get_bind fun state => ?_
  dsimp only
  split
  · split
    · exact .pure _
    · exact fail_preserves line _
  · exact fail_preserves line _

theorem inSession_preserves {action : Compiling α} (preserves : Preserves Session.SameActive action) :
    Preserves (Framed alike) (inSession action) := by
  intro state
  rw [PreservesAt, inSession_eq_carry]
  exact (preserves state.session).carry _ (fun _ active => ⟨active, rfl, refl_of alike _⟩) fun _ _ => trivial

theorem readFragment_preserves (path : Path) : Preserves (Framed alike) (readFragment context path) := by
  refine (inSession_preserves (Session.read_preserves context.job path)).bind fun text => ?_
  split
  · exact .pure _
  · exact .throw _

omit [IsPreorder Contents alike] in
theorem withFragment_preserves {action : Evaluating α} (preserves : Preserves (Framed alike) action) (path : Path) :
    Preserves (Framed alike) (withFragment path action) := by
  intro state
  rw [PreservesAt, withFragment, Running.modify_bind, ensuring_eq_carry]
  refine (preserves { state with fragments := path :: state.fragments }).carry _ ?_ fun _ _ => trivial
  rintro after ⟨active, fragments, contents⟩
  exact ⟨active, congrArg List.tail fragments, contents⟩

/-- A fragment that is being compiled already is not entered, and any other one is left again. -/
theorem inFragment_preserves {action : Evaluating α} (preserves : Preserves (Framed alike) action) (line : Nat)
    (path : Path) : Preserves (Framed alike) (inFragment context line path action) := by
  intro state
  rw [PreservesAt]
  cases busy : state.session.isActive path with
  | true =>
    rw [inFragment_of_busy busy]
    exact .of_error (refl_of (Framed alike) state) trivial
  | false =>
    rw [inFragment_of_free busy]
    have entered := preserves { state with session := { state.session with active := path :: state.session.active } }
    have left : Ends (Framed alike state) (fun _ => True)
        (carry id (fun value _ => value) (fun after => { after with session := after.session.leave }) (action _)) :=
      entered.carry _ (fun _ kept => ⟨congrArg List.tail kept.active, kept.fragments, kept.contents⟩) fun _ _ => trivial
    exact left.carry _ (fun _ kept => kept) fun _ _ => trivial

theorem interpolated_preserves (deeper : Deeper) (line : Nat) (parts : List TextPart) :
    Preserves (Framed alike) (evaluate deeper context line (.interpolated parts)) := by
  refine .get_bind fun state => ?_
  split
  · exact .pure _
  · exact fail_preserves line _

theorem reference_preserves (deeper : Deeper) (line : Nat) (name : String) :
    Preserves (Framed alike) (evaluate deeper context line (.reference name)) := by
  refine .get_bind fun state => ?_
  split
  · exact .pure _
  · exact fail_preserves line _

theorem openBlock_preserves {attached : Bool}
    (noted : attached = true → ∀ descriptor state, Framed alike state (state.mapInnermost (noteFamily descriptor)))
    (name : String) (line : Nat) : Preserves (Framed alike) (openBlock context name line attached) := by
  unfold openBlock
  split
  · exact fail_preserves line _
  · refine .get_bind fun state => (demand_preserves line _).bind fun _ => ?_
    split
    · exact (demand_preserves line _).bind fun _ => (Preserves.modify (noted ‹_› _)).bind fun _ => .pure _
    · exact .pure _

/-- The block that is opened for a body is the innermost one, and it is closed again. -/
theorem inScope_preserves {body : Evaluating Unit} (preserves : Preserves Grown body) (entity : Entity) :
    Preserves (Framed alike) (inScope entity body) := by
  intro state
  rw [PreservesAt, inScope_eq_carry]
  refine (preserves { state with scopes := .opening entity :: state.scopes }).carry _ ?_ fun _ _ => trivial
  rintro after ⟨active, fragments, grows⟩
  obtain ⟨changed, same, -⟩ := Contents.Grows.around grows
  obtain ⟨scopes, locals, root⟩ := Contents.mk.inj same
  have closed : state.contents = contents { after with scopes := after.scopes.tail } := by
    rw [contents, contents, scopes, locals, root, List.tail_cons]
  exact ⟨active, fragments, closed ▸ refl_of alike _⟩

theorem evaluateBlock_preserves {attached : Bool} {body : Evaluating Unit} (preserves : Preserves Grown body)
    (noted : attached = true → ∀ descriptor state, Framed alike state (state.mapInnermost (noteFamily descriptor)))
    (name : String) (line : Nat) : Preserves (Framed alike) (evaluateBlock context name line attached body) := by
  rw [evaluateBlock_eq]
  exact (openBlock_preserves noted name line).bind fun entity => inScope_preserves preserves entity

end Alike

section Innermost

variable {α β : Type} {context : RecipeContext} {before after : Evaluation} {scope changed : Scope} {outer : List Scope}

/-- An open block that has grown inside of the others. -/
theorem grown_of_scopes (opened : before.scopes = scope :: outer) (grows : scope.Grows changed) :
    Grown before { before with scopes := changed :: outer } := by
  refine ⟨rfl, rfl, ?_⟩
  rw [contents, opened]
  exact .inside grows

theorem Grown.innermost (grown : Grown before after) (opened : before.scopes = scope :: outer) :
    ∃ changed, after.scopes = changed :: outer ∧ scope.Grows changed ∧ after.locals = before.locals ∧
      after.root = before.root := by
  have contents := grown.contents
  rw [Evaluation.contents, opened] at contents
  obtain ⟨changed, same, grows⟩ := contents.around
  obtain ⟨scopes, locals, root⟩ := Contents.mk.inj same
  exact ⟨changed, scopes, grows, locals, root⟩

/-- Names are defined outside of all blocks only. -/
theorem Grown.locals (grown : Grown before after) (inside : before.scopes ≠ []) : after.locals = before.locals := by
  obtain ⟨scope, outer, opened⟩ := List.exists_cons_of_ne_nil inside
  obtain ⟨_, _, _, locals, _⟩ := grown.innermost opened
  exact locals

theorem Unchanged.locals (unchanged : Unchanged before after) : after.locals = before.locals :=
  (congrArg Contents.locals unchanged.contents).symm

theorem Unchanged.sameFrame (unchanged : Unchanged before after) : SameFrame before after :=
  ⟨unchanged.active, unchanged.fragments, congrArg (List.length ∘ Contents.scopes) unchanged.contents.symm⟩

theorem Grown.sameFrame (grown : Grown before after) : SameFrame before after := by
  refine ⟨grown.active, grown.fragments, ?_⟩
  cases opened : before.scopes with
  | nil =>
    have outside : after.scopes = [] := grown.contents.scopes_eq_nil opened
    rw [outside]
  | cons scope outer =>
    obtain ⟨changed, scopes, -⟩ := grown.innermost opened
    rw [scopes, List.length_cons, List.length_cons]

theorem mapInnermost_grown {change : Scope → Scope} (state : Evaluation)
    (grows : ∀ scope ∈ state.scopes.head?, scope.Grows (change scope)) : Grown state (state.mapInnermost change) := by
  rw [mapInnermost]
  cases opened : state.scopes with
  | nil => exact refl_of Grown state
  | cons scope outer => exact grown_of_scopes opened (grows scope (by rw [opened]; rfl))

theorem noteFamily_grown (descriptor : Descriptor) (state : Evaluation) :
    Grown state (state.mapInnermost (noteFamily descriptor)) := by
  refine mapInnermost_grown state fun scope _ => ?_
  rw [noteFamily]
  split <;> exact ⟨rfl, fun _ => id, Nat.le_refl _⟩

theorem countDeclaration_grown (state : Evaluation) :
    Grown state (state.mapInnermost fun scope => { scope with position := scope.position + 1 }) :=
  mapInnermost_grown state fun _ _ => ⟨rfl, fun _ => id, Nat.le_succ _⟩

theorem bound_grows {name : String} {values : List Value} {entity : Entity} {used : UsedNames}
    (success : bound scope name values = .ok (entity, used)) : scope.Grows { scope with entity, used } := by
  obtain ⟨_, set⟩ := bound_sets success
  obtain ⟨_, _, _, _, rfl⟩ := bound_eq_ok_iff.mp success
  exact ⟨Entity.setProperty_kind set, UsedNames.subset_add _ _, Nat.le_refl _⟩

theorem bindName_preserves (line : Nat) (name : String) (values : List Value) :
    Preserves Grown (bindName context line name values) := by
  intro state
  rw [PreservesAt, bindName, Running.get_bind]
  cases opened : state.scopes with
  | nil => exact fail_preserves line _ state
  | cons scope outer =>
    show PreservesAt Grown (demand context line (bound scope name values) >>= _) state
    cases success : bound scope name values with
    | ok pair => exact .of_ok (grown_of_scopes opened (bound_grows success)) ()
    | error kind => exact fail_preserves line kind state

theorem attach_preserves (line : Nat) (entity : Entity) : Preserves Grown (attach context line entity) := by
  intro state
  rw [PreservesAt, attach, Running.get_bind]
  cases opened : state.scopes with
  | nil =>
    refine .of_ok ⟨rfl, rfl, ?_⟩ ()
    rw [contents, opened]
    exact .outside
  | cons parent outer =>
    dsimp only
    cases success : parent.entity.bindEntity parent.used entity with
    | ok pair =>
      obtain ⟨set, used⟩ := Entity.bindEntity_eq_ok success
      have grows : parent.Grows { parent with entity := pair.1, used := pair.2 } :=
        ⟨Entity.setProperty_kind set, used ▸ UsedNames.subset_add _ _, Nat.le_refl _⟩
      exact .of_ok (grown_of_scopes opened grows) ()
    | error kind => exact fail_preserves line kind state

/-- From a state with the given contents on, only the innermost open block grows. -/
def GrowsFrom (contents : Contents) (action : Evaluating α) : Prop :=
  ∀ state, state.contents = contents → PreservesAt Grown action state

namespace GrowsFrom

variable {held : Contents} {first : Evaluating α} {next : α → Evaluating β}

theorem bind (head : Preserves Unchanged first) (rest : ∀ value, GrowsFrom held (next value)) :
    GrowsFrom held (first >>= next) := by
  intro state same
  refine (unchanged_preserves head state).bind fun value between run => rest value between ?_
  rw [← ((head state).ok value between run).contents]
  exact same

theorem get_bind {next : Evaluation → Evaluating β} (rest : ∀ state, GrowsFrom held (next state)) :
    GrowsFrom held (get >>= next) := fun state same => rest state state same

theorem fail_bind (line : Nat) (kind : ErrorKind) (next : α → Evaluating β) :
    GrowsFrom held (fail context line kind >>= next) := fun state _ =>
  (fail_preserves line kind state).bind fun _ _ run => absurd run (fail_ne_ok _ _ _)

theorem demand_bind (line : Nat) {outcome : Except ErrorKind α} {next : α → Evaluating β}
    (rest : ∀ value, outcome = .ok value → GrowsFrom held (next value)) :
    GrowsFrom held (demand context line outcome >>= next) := by
  cases outcome with
  | ok value => exact rest value rfl
  | error kind => exact fail_bind line kind next

/-- A service takes the place of the one that is open. -/
theorem put {entity : Entity} (opened : ∀ scope ∈ held.scopes.head?, scope.entity.kind = .service)
    (service : entity.kind = .service) :
    GrowsFrom held (modify (mapInnermost fun scope => { scope with entity })) := by
  rintro state rfl
  have grows (scope : Scope) (member : scope ∈ state.scopes.head?) : scope.Grows { scope with entity } :=
    ⟨service.trans (opened scope member).symm, fun _ => id, Nat.le_refl _⟩
  exact .of_ok (mapInnermost_grown state grows) PUnit.unit

end GrowsFrom

end Innermost

end Evaluation

/-- The files that a file leads to are left again, and what they change of the blocks is the innermost one. -/
structure Deeper.Preserve (deeper : Deeper) : Prop where
  declarations : ∀ context declarations, Preserves Evaluation.Grown (deeper.declarations context declarations)
  expression : ∀ context expression, Preserves Evaluation.Unchanged (deeper.expression context expression)
  recipe : ∀ context declarations, Preserves Session.SameActive (deeper.recipe context declarations)

namespace Evaluation

variable {deeper : Deeper} {context : RecipeContext}

section Files

variable (preserve : deeper.Preserve)
include preserve

theorem compileNested_preserves (job : Job) (path : Path) (handover : Handover) :
    Preserves Session.SameActive (compileNested deeper job path handover) := by
  intro session
  rw [PreservesAt]
  cases busy : session.isActive path with
  | true =>
    have refused : compileNested deeper job path handover session = .error (session.cyclic path) session :=
      bind_of_error (Session.enter_of_busy busy) _
    rw [refused]
    exact .of_error rfl trivial
  | false =>
    have nested : Preserves Session.SameActive (do
        let declarations ← Session.parseFile job path
        let environment ← Session.recording ((handover.inputs job path).build job.files)
        deeper.recipe ⟨job, path, environment⟩ declarations) :=
      (Session.parseFile_preserves job path).bind fun declarations => (Session.recording_preserves _).bind
        fun environment => preserve.recipe ⟨job, path, environment⟩ declarations
    rw [compileNested_of_free busy]
    exact (nested _).carry _ (fun _ kept => congrArg List.tail kept) fun _ _ => trivial

theorem compileFrom_preserves (path : Path) (handover : Handover) :
    Preserves Unchanged (compileFrom deeper context path handover) := by
  intro state
  rw [PreservesAt, compileFrom_eq_carry]
  exact (inSession_preserves (compileNested_preserves preserve context.job path handover) state).carry _
    (fun _ kept => kept) fun _ _ => trivial

theorem splice_preserves {values : Evaluating (List Value)} (evaluated : Preserves Unchanged values) (line : Nat) :
    Preserves Grown (splice deeper context line values) := by
  refine .get_bind fun state => (unchanged_preserves evaluated).bind fun given =>
    (onePath_preserves line _ loadWord given).bind fun relative => (fragmentPath_preserves line relative).bind
      fun path => inFragment_preserves ?_ line path
  exact (inSession_preserves (Session.parseFile_preserves context.job path)).bind fun declarations =>
    withFragment_preserves (preserve.declarations context declarations) path

theorem loadValue_preserves (line : Nat) (relative : String) :
    Preserves Unchanged (loadValue deeper context line relative) :=
  (fragmentPath_preserves line relative).bind fun path => inFragment_preserves
    ((readFragment_preserves path).bind fun expression =>
      withFragment_preserves (preserve.expression context expression) path) line path

/-- A base takes the place of a service only. -/
theorem extendBase_preserves {values : Evaluating (List Value)} (evaluated : Preserves Unchanged values) (line : Nat) :
    Preserves Grown (extendBase deeper context line values) := by
  intro state
  rw [PreservesAt, extendBase, Running.get_bind]
  refine GrowsFrom.demand_bind line (fun kind extending => ?_) state rfl
  have opened (scope : Scope) (member : scope ∈ state.scopes.head?) : scope.entity.kind = .service := by
    obtain ⟨-, _, _, scopes, service, -⟩ := extendingKind_eq_ok extending
    rw [scopes] at member
    obtain rfl := Option.some.inj member
    exact service
  refine .bind evaluated fun given => .bind (onePath_preserves line kind extendWord given) fun reference =>
    .get_bind fun between => .bind (demand_preserves line _) fun path =>
      .bind (compileFrom_preserves preserve path _) fun base => ?_
  split
  · exact .fail_bind line _ _
  · rename_i service
    exact .put opened (not_ne_iff.mp service)

/-- A directory next to an application takes the place of a service only. -/
theorem loadService_preserves (line : Nat) : Preserves Grown (loadService deeper context line) := by
  intro state
  rw [PreservesAt, loadService, Running.get_bind]
  cases found : state.serviceDirectory? context with
  | none => exact Preserves.pure () state
  | some pair =>
    obtain ⟨name, directory⟩ := pair
    have opened (scope : Scope) (member : scope ∈ state.scopes.head?) : scope.entity.kind = .service := by
      obtain ⟨_, _, scopes, service⟩ := serviceDirectory?_eq_some found
      rw [scopes] at member
      obtain rfl := Option.some.inj member
      exact service
    refine GrowsFrom.bind (demand_preserves line _) (fun path =>
      .bind (compileFrom_preserves preserve path _) fun loaded => ?_) state rfl
    split
    · exact .fail_bind line _ _
    · rename_i service
      refine .demand_bind line fun entity named => .put opened ?_
      obtain ⟨_, set⟩ := Entity.setCoerced_eq_ok named
      exact (Entity.setProperty_kind set).trans (not_ne_iff.mp service)

theorem assign_preserves (line : Nat) (name : String) (values : List Value) :
    Preserves Grown (assign deeper context line name values) := by
  refine (bindName_preserves line name values).bind fun _ => ?_
  split
  · exact loadService_preserves preserve line
  · exact .pure ()

end Files

theorem evaluateValue_preserves {body : Evaluating Unit} (preserves : Preserves Grown body) (name : String)
    (line : Nat) : Preserves Unchanged (evaluateBlock context name line false body) :=
  evaluateBlock_preserves preserves (fun attached => absurd attached Bool.false_ne_true) name line

theorem evaluateAttached_preserves {body : Evaluating Unit} (preserves : Preserves Grown body) (name : String)
    (line : Nat) :
    Preserves Grown (evaluateBlock context name line true body >>= attach context line) :=
  (evaluateBlock_preserves preserves (fun _ => noteFamily_grown) name line).bind fun entity =>
    attach_preserves line entity

mutual

theorem evaluate_preserves (preserve : deeper.Preserve) (line : Nat) (expression : Expression) :
    Preserves Unchanged (evaluate deeper context line expression) := by
  cases expression with
  | null => exact .pure _
  | bool value => exact .pure _
  | int value => exact .pure _
  | float value => exact .pure _
  | text value => exact .pure _
  | interpolated parts => exact interpolated_preserves deeper line parts
  | reference name => exact reference_preserves deeper line name
  | list items =>
    rw [evaluate]
    exact (evaluateItems_preserves preserve line items).bind fun _ => .pure _
  | map entries =>
    rw [evaluate]
    exact (evaluateEntries_preserves preserve line [] entries).bind fun _ => .pure _
  | block name blockLine body =>
    rw [evaluate]
    exact (evaluateValue_preserves (evaluateStatements_preserves preserve body) name blockLine).bind fun _ => .pure _
  | load path => exact loadValue_preserves preserve line path
termination_by structural expression

theorem evaluateItems_preserves (preserve : deeper.Preserve) (line : Nat) (items : List Expression) :
    Preserves Unchanged (evaluateItems deeper context line items) := by
  match items with
  | [] => exact .pure _
  | first :: rest =>
    rw [evaluateItems]
    exact (evaluate_preserves preserve line first).bind fun _ =>
      (evaluateItems_preserves preserve line rest).bind fun _ => .pure _
termination_by structural items

theorem evaluateEntries_preserves (preserve : deeper.Preserve) (line : Nat) (mapping : Mapping)
    (entries : List (String × Expression)) :
    Preserves Unchanged (evaluateEntries deeper context line mapping entries) := by
  match entries with
  | [] => exact .pure _
  | (key, item) :: rest =>
    rw [evaluateEntries]
    exact (evaluate_preserves preserve line item).bind fun _ => evaluateEntries_preserves preserve line _ rest
termination_by structural entries

theorem evaluateStatement_preserves (preserve : deeper.Preserve) (declaration : Declaration) :
    Preserves Grown (evaluateStatement deeper context declaration) := by
  cases declaration with
  | mk name line body =>
    rw [evaluateStatement]
    exact (evaluateBody_preserves preserve name line body).bind fun _ => .modify countDeclaration_grown
termination_by structural declaration

theorem evaluateBody_preserves (preserve : deeper.Preserve) (name : String) (line : Nat) (body : Body) :
    Preserves Grown (evaluateBody deeper context name line body) := by
  cases body with
  | block declarations =>
    rw [evaluateBody]
    exact evaluateAttached_preserves (evaluateStatements_preserves preserve declarations) name line
  | arguments expressions =>
    have values : Preserves Unchanged (evaluateItems deeper context line expressions) :=
      evaluateItems_preserves preserve line expressions
    rw [evaluateBody]
    split
    · exact extendBase_preserves preserve values line
    · split
      · exact splice_preserves preserve values line
      · exact (unchanged_preserves values).bind fun given => assign_preserves preserve line name given
  | assignment expression =>
    rw [evaluateBody]
    exact (unchanged_preserves (evaluate_preserves preserve line expression)).bind fun value =>
      assign_preserves preserve line name [value]
termination_by structural body

theorem evaluateStatements_preserves (preserve : deeper.Preserve) (declarations : List Declaration) :
    Preserves Grown (evaluateStatements deeper context declarations) := by
  match declarations with
  | [] => exact .pure _
  | first :: rest =>
    rw [evaluateStatements]
    exact (evaluateStatement_preserves preserve first).bind fun _ => evaluateStatements_preserves preserve rest
termination_by structural declarations

end

section Recipes

variable (preserve : deeper.Preserve)
include preserve

/-- Outside of all blocks a declaration may also change the names that the recipe defines. -/
theorem evaluateTopLevel_preserves (declaration : Declaration) (state : Evaluation) (outside : state.scopes = []) :
    PreservesAt Grown (evaluateTopLevel deeper context declaration) state := by
  obtain ⟨name, line, body⟩ := declaration
  cases body with
  | block declarations =>
    exact evaluateAttached_preserves (evaluateStatements_preserves preserve declarations) name line state
  | arguments expressions =>
    change PreservesAt Grown (if name = loadWord then _ else if name = extendWord then _ else _) state
    split
    · exact splice_preserves preserve (evaluateItems_preserves preserve line expressions) line state
    · split
      · exact fail_preserves line _ state
      · exact fail_preserves line _ state
  | assignment expression =>
    have value : Preserves Unchanged (evaluate deeper context line expression) :=
      evaluate_preserves preserve line expression
    refine (unchanged_preserves value state).bind fun given between run => .of_ok ⟨rfl, rfl, ?_⟩ _
    have scopes : between.scopes = [] :=
      (congrArg Contents.scopes ((value state).ok given between run).contents).symm.trans outside
    rw [contents, contents, scopes]
    exact .outside

theorem evaluateInPlace_preserves (declaration : Declaration) :
    Preserves Grown (evaluateInPlace deeper context declaration) := by
  intro state
  rw [PreservesAt, evaluateInPlace, Running.get_bind]
  split
  · exact evaluateTopLevel_preserves preserve declaration state (List.isEmpty_iff.mp ‹_›)
  · exact evaluateStatement_preserves preserve declaration state

theorem evaluateRecipe_preserves (declarations : List Declaration) :
    Preserves Session.SameActive (evaluateRecipe deeper context declarations) := by
  intro session
  have whole : PreservesAt Grown (declarations.forM (evaluateTopLevel deeper context)) (start session) :=
    Preserves.forM_from (fun state => state.scopes = []) (evaluateTopLevel_preserves preserve)
      (fun _ _ grown => grown.contents.scopes_eq_nil) declarations rfl
  rw [PreservesAt, evaluateRecipe_eq_carry]
  refine (whole.bind fun _ between _ => ?_).carry _ (fun _ grown => grown.active) fun _ _ => trivial
  rw [PreservesAt, Running.get_bind]
  cases between.root with
  | some root => exact Preserves.pure root between
  | none => exact Preserves.throw _ between

end Recipes

end Evaluation

theorem Deeper.upTo_preserve (depth : Nat) : (upTo depth).Preserve := by
  induction depth with
  | zero => exact ⟨fun _ _ => .throw _, fun _ _ => .throw _, fun _ _ => .throw _⟩
  | succ depth deeper =>
    exact ⟨fun _ declarations => .forM (Evaluation.evaluateInPlace_preserves deeper) declarations,
      fun _ expression => Evaluation.evaluate_preserves deeper 1 expression,
      fun _ declarations => Evaluation.evaluateRecipe_preserves deeper declarations⟩

namespace Evaluation

section Evaluated

variable {depth line : Nat} {context : RecipeContext} {before after : Evaluation}

theorem evaluate_unchanged {expression : Expression} {value : Value}
    (run : evaluate (Deeper.upTo depth) context line expression before = .ok value after) : Unchanged before after :=
  (evaluate_preserves (Deeper.upTo_preserve depth) line expression before).ok value after run

theorem evaluateItems_unchanged {items : List Expression} {values : List Value}
    (run : evaluateItems (Deeper.upTo depth) context line items before = .ok values after) : Unchanged before after :=
  (evaluateItems_preserves (Deeper.upTo_preserve depth) line items before).ok values after run

theorem evaluateInPlace_grown {declaration : Declaration}
    (run : evaluateInPlace (Deeper.upTo depth) context declaration before = .ok () after) : Grown before after :=
  (evaluateInPlace_preserves (Deeper.upTo_preserve depth) declaration before).ok () after run

theorem evaluateStatements_grown {declarations : List Declaration}
    (run : evaluateStatements (Deeper.upTo depth) context declarations before = .ok () after) : Grown before after :=
  (evaluateStatements_preserves (Deeper.upTo_preserve depth) declarations before).ok () after run

end Evaluated

/-- A declaration in an open block changes that block alone. The block keeps its kind and the names that were used in
it, and one more declaration is counted. However the declaration ends, every file, fragment and block is left again
that it opens. -/
theorem evaluateStatement_changes_innermost (depth : Nat) (context : RecipeContext) (declaration : Declaration)
    {state : Evaluation} {scope : Scope} {outer : List Scope} (opened : state.scopes = scope :: outer) :
    (∀ after, evaluateStatement (Deeper.upTo depth) context declaration state = .ok () after →
      SameFrame state after ∧ after.locals = state.locals ∧ after.root = state.root ∧
        ∃ changed, after.scopes = changed :: outer ∧ changed.entity.kind = scope.entity.kind ∧
          scope.used ⊆ changed.used ∧ scope.position < changed.position) ∧
    ∀ error after, evaluateStatement (Deeper.upTo depth) context declaration state = .error error after →
      SameFrame state after ∧ after.locals = state.locals ∧ after.root = state.root ∧ after.scopes.tail = outer := by
  have preserve := Deeper.upTo_preserve depth
  constructor
  · intro after run
    obtain ⟨name, line, body⟩ := declaration
    rw [evaluateStatement, bind_eq_ok] at run
    obtain ⟨_, between, evaluated, counting⟩ := run
    have grown : Grown state between := (evaluateBody_preserves preserve name line body state).ok () between evaluated
    obtain ⟨changed, scopes, grows, locals, root⟩ := grown.innermost opened
    have counted : after = { between with scopes := { changed with position := changed.position + 1 } :: outer } := by
      obtain rfl := (modify_eq_ok _ _ _ _).mp counting
      rw [mapInnermost, scopes]
    have more : changed.Grows { changed with position := changed.position + 1 } := ⟨rfl, fun _ => id, Nat.le_succ _⟩
    have whole := trans_of Grown grown (grown_of_scopes scopes more)
    subst counted
    exact ⟨whole.sameFrame, locals, root, _, rfl, grows.kind, grows.used, Nat.lt_succ_of_le grows.position⟩
  · intro error after run
    have grown : Grown state after := ((evaluateStatement_preserves preserve declaration state).error error after run).1
    obtain ⟨changed, scopes, -, locals, root⟩ := grown.innermost opened
    exact ⟨grown.sameFrame, locals, root, by rw [scopes, List.tail_cons]⟩

/-- The name of a service of an application, which loads the service from a directory, and a fragment that fails in a
block of its own. -/
theorem evaluateStatement_changes_innermost_service :
    let files : FileTree := ⟨[(["r"], .directory), (["r", "web"], .directory),
      (["r", "web", "web-service.recipe"], .file (.text "service \x7b\n name \"w\"\n icon \"i\"\n\x7d\n")),
      (["r", "part.recipe"], .file (.text "lifecycle \x7b\n init missing\n\x7d\n"))], ["r"]⟩
    let context : RecipeContext := ⟨Job.plain files .standard, ⟨"/r/a-application.recipe"⟩, .empty⟩
    let service : Scope := .opening (.fresh .service)
    let application : Scope := .opening (.fresh .application)
    let state : Evaluation := ⟨⟨[], [context.recipeFile], []⟩, [], [], [service, application], none⟩
    let named : Declaration := .mk nameProperty 1 (.arguments [.text "web"])
    let loading : Declaration := .mk loadWord 1 (.arguments [.text "part.recipe"])
    (∃ after changed, evaluateStatement (Deeper.upTo 2) context named state = .ok () after ∧ SameFrame state after ∧
      after.scopes = [changed, application] ∧ changed.entity.kind = .service ∧
      changed.entity.property "icon" = .text "i" ∧ 0 < changed.position) ∧
    ∃ error after, evaluateStatement (Deeper.upTo 2) context loading state = .error error after ∧
      error.file = ⟨"/r/part.recipe"⟩ ∧ SameFrame state after := by
  intro files context service application state named loading
  have opened : state.scopes = service :: [application] := rfl
  constructor
  · have ran : (evaluateStatement (Deeper.upTo 2) context named >>= fun _ => do
        return (← get).scopes.head?.map fun scope => scope.entity.property "icon").run' state =
          some (some (.text "i")) := by decide +kernel
    obtain ⟨last, looked⟩ := gives_of_run' ran
    obtain ⟨_, after, run, rest⟩ := (bind_eq_ok _ _ _ _ _).mp looked
    obtain ⟨frame, -, -, changed, scopes, kind, -, position⟩ :=
      (evaluateStatement_changes_innermost 2 context named opened).1 after run
    have icon := (EStateM.Result.ok.inj rest).1
    rw [scopes] at icon
    exact ⟨after, changed, run, frame, scopes, kind, Option.some.inj icon, position⟩
  · have caught : (tryCatch (evaluateStatement (Deeper.upTo 2) context loading >>= fun _ => pure none) fun error =>
        pure (some error.file)).run' state = some (some ⟨"/r/part.recipe"⟩) := by decide +kernel
    obtain ⟨last, ends⟩ := gives_of_run' caught
    change EStateM.tryCatch _ _ state = _ at ends
    rw [EStateM.tryCatch] at ends
    cases run : evaluateStatement (Deeper.upTo 2) context loading state with
    | ok _ after =>
      rw [bind_of_ok run] at ends
      cases ends
    | error error after =>
      obtain ⟨frame, -⟩ := (evaluateStatement_changes_innermost 2 context loading opened).2 error after run
      rw [bind_of_error run] at ends
      exact ⟨error, after, rfl, Option.some.inj (EStateM.Result.ok.inj ends).1, frame⟩

end Evaluation

end DeployRecipe
