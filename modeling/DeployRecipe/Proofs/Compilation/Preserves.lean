import DeployRecipe.Proofs.Compilation.Runs
import DeployRecipe.Proofs.Entity.UsedNames

/-!
What evaluation leaves as it was. Expressions leave the open blocks and the root alone; declarations keep
the kind of the open block and everything around it; and every entity on the way is kept.
-/

namespace DeployRecipe

namespace Entity

theorem lineage_texts (entity : Entity) (base : String) :
    (Shape.list .text).decode (.sequence (.text base :: entity.lineage.map Value.text)) =
      .ok (.sequence (.text base :: entity.lineage.map Value.text)) := by
  have each (texts : List String) :
      (texts.map Value.text).mapM (Shape.decode .text) = .ok (texts.map Value.text) := by
    induction texts with
    | nil => rfl
    | cons first rest inductionHypothesis =>
      rw [List.map_cons, List.mapM_cons, inductionHypothesis]
      rfl
  have all := each (base :: entity.lineage)
  rw [List.map_cons] at all
  rw [Shape.decode]
  simp only [Value.untagged]
  rw [all]
  rfl

/-- A service with one more base is kept, and only its lineage differs. -/
theorem addBase_assigns {entity : Entity} (kept : entity.Kept) (service : entity.kind = .service)
    (base : String) : entity.Assigns lineageSlot (entity.addBase base) := by
  have field : entity.kind.field? lineageSlot = some (.list .text) := by
    rw [service]
    rfl
  refine assigns_insert kept field (lineage_texts entity base) ?_
  rw [service]
  rfl

end Entity

namespace Evaluation

/-- Every open block is kept, and the root if there is one. -/
structure Kept (state : Evaluation) : Prop where
  scopes : ∀ scope ∈ state.scopes, scope.entity.Kept
  root : ∀ root, state.root = some root → root.Kept

/-- The open blocks after declarations: the innermost one is of the same kind, the others are as they
were. -/
inductive SameBlocks : List Scope → List Scope → Prop
  | outside : SameBlocks [] []
  | inside {scope changed : Scope} {outer : List Scope}
    (kind : changed.entity.kind = scope.entity.kind) : SameBlocks (scope :: outer) (changed :: outer)

theorem SameBlocks.refl (scopes : List Scope) : SameBlocks scopes scopes := by
  cases scopes with
  | nil => exact .outside
  | cons scope outer => exact .inside rfl

theorem SameBlocks.trans {first second third : List Scope} (one : SameBlocks first second)
    (other : SameBlocks second third) : SameBlocks first third := by
  cases one with
  | outside => exact other
  | inside kind =>
    cases other with
    | inside again => exact .inside (again.trans kind)

theorem SameBlocks.eq_nil_iff {first second : List Scope} (blocks : SameBlocks first second) :
    second = [] ↔ first = [] := by
  cases blocks <;> simp

theorem SameBlocks.around {scope : Scope} {outer scopes : List Scope} (blocks : SameBlocks (scope :: outer) scopes) :
    ∃ changed, scopes = changed :: outer ∧ changed.entity.kind = scope.entity.kind := by
  cases blocks with
  | inside kind => exact ⟨_, rfl, kind⟩

/-- What declarations do to a state. The root only changes outside of all blocks, and only once. -/
structure Runs (before after : Evaluation) : Prop where
  blocks : SameBlocks before.scopes after.scopes
  root : before.scopes ≠ [] ∨ before.root ≠ none → after.root = before.root
  kept : before.Kept → after.Kept
  /-- The innermost open block is kept whatever the others are. -/
  innermost : (∀ scope ∈ before.scopes.head?, scope.entity.Kept) → ∀ scope ∈ after.scopes.head?, scope.entity.Kept

/-- What expressions do to a state. -/
structure Leaves (before after : Evaluation) : Prop where
  scopes : after.scopes = before.scopes
  root : after.root = before.root

theorem Leaves.refl (state : Evaluation) : Leaves state state := ⟨rfl, rfl⟩

theorem Leaves.trans {first second third : Evaluation} (one : Leaves first second)
    (other : Leaves second third) : Leaves first third :=
  ⟨other.scopes.trans one.scopes, other.root.trans one.root⟩

theorem Leaves.kept {before after : Evaluation} (leaves : Leaves before after) (kept : before.Kept) :
    after.Kept :=
  ⟨leaves.scopes ▸ kept.scopes, leaves.root ▸ kept.root⟩

theorem Leaves.runs {before after : Evaluation} (leaves : Leaves before after) : Runs before after :=
  ⟨leaves.scopes ▸ .refl _, fun _ => leaves.root, leaves.kept, fun kept => leaves.scopes ▸ kept⟩

theorem Runs.refl (state : Evaluation) : Runs state state := (Leaves.refl state).runs

theorem Runs.trans {first second third : Evaluation} (one : Runs first second) (other : Runs second third) :
    Runs first third := by
  refine ⟨one.blocks.trans other.blocks, ?_, other.kept ∘ one.kept, other.innermost ∘ one.innermost⟩
  intro settled
  have same := one.root settled
  rw [← same]
  apply other.root
  rcases settled with inside | done
  · exact Or.inl (mt one.blocks.eq_nil_iff.mp inside)
  · exact Or.inr (same ▸ done)

/-- A change to the open block that keeps its kind. -/
theorem runs_of_open {before after : Evaluation} {scope changed : Scope} {outer : List Scope}
    (open' : before.scopes = scope :: outer) (done : after.scopes = changed :: outer)
    (kind : changed.entity.kind = scope.entity.kind) (whole : scope.entity.Kept → changed.entity.Kept)
    (root : after.root = before.root) : Runs before after := by
  refine ⟨open' ▸ done ▸ .inside kind, fun _ => root, ?_, ?_⟩
  · rintro ⟨scopes, rootKept⟩
    rw [open'] at scopes
    refine ⟨?_, root ▸ rootKept⟩
    rw [done]
    intro other member
    rcases List.mem_cons.mp member with rfl | around
    · exact whole (scopes scope List.mem_cons_self)
    · exact scopes other (List.mem_cons_of_mem _ around)
  · intro kept
    rw [open'] at kept
    rw [done]
    rintro _ ⟨⟩
    exact whole (kept scope rfl)

end Evaluation

/-- Files that a file leads to are evaluated as declarations and expressions are, and recipes to entities
that are kept. -/
structure Deeper.Sound (deeper : Deeper) : Prop where
  declarations : ∀ context declarations before after,
    deeper.declarations context declarations before = .ok () after → Evaluation.Runs before after
  expression : ∀ context expression before value after,
    deeper.expression context expression before = .ok value after → Evaluation.Leaves before after
  recipe : ∀ context declarations before root after,
    deeper.recipe context declarations before = .ok root after → root.Kept

namespace Evaluation

variable {deeper : Deeper} {context : RecipeContext} {before after : Evaluation}

theorem kind_of_extensible {kind : EntityKind}
    (extensible : (Registry.describe? kind.elementName).any Descriptor.extensible = true) :
    kind = .service := by
  cases kind <;> first | rfl | cases extensible

theorem extendingKind_eq_ok {state : Evaluation} {kind : EntityKind}
    (success : extendingKind state = .ok kind) :
    kind = .service ∧ ∃ scope outer, state.scopes = scope :: outer ∧ scope.entity.kind = .service ∧
      scope.position = 0 := by
  rw [extendingKind] at success
  cases scopes : state.scopes with
  | nil =>
    rw [scopes] at success
    cases success
  | cons scope outer =>
    rw [scopes] at success
    dsimp only at success
    split at success
    · cases success
    · rename_i extensible
      split at success
      · cases success
      · rename_i first
        obtain rfl := Except.ok.inj success
        have service := kind_of_extensible (by simpa using extensible)
        exact ⟨service, scope, outer, rfl, service, by simpa using first⟩

/-- The start of a block is of the block's kind, and kept if the parent is. -/
theorem startOf_eq_ok {state : Evaluation} {descriptor : Descriptor} {attached : Bool} {start : Entity}
    (success : state.startOf descriptor attached = .ok start) :
    start.kind = descriptor.kind ∧ start.Kept := by
  have inherited : ∀ parent, inheritedContent parent descriptor = .ok start →
      start.kind = descriptor.kind ∧ start.Kept := by
    intro parent content
    rw [inheritedContent] at content
    split at content
    · obtain rfl := Except.ok.inj content
      exact ⟨rfl, Entity.kept_fresh _⟩
    · obtain rfl := Except.ok.inj content
      exact ⟨rfl, Entity.kept_fresh _⟩
    · split at content
      · rename_i entity read
        obtain rfl := Except.ok.inj content
        exact Entity.ofValue_eq_ok read
      · cases content
  rw [startOf] at success
  split at success
  · rw [openAttached] at success
    split at success
    · obtain rfl := Except.ok.inj success
      exact ⟨rfl, Entity.kept_fresh _⟩
    · rename_i parent _ _
      obtain ⟨_, _, content⟩ := (Running.attempt_eq_ok _ _ _).mp success
      exact inherited parent content
  · obtain rfl := Except.ok.inj success
    exact ⟨rfl, Entity.kept_fresh _⟩

@[simp] theorem noting_root (state : Evaluation) (descriptor : Descriptor) (attached : Bool) :
    (state.noting descriptor attached).root = state.root := by
  cases attached with
  | false => rfl
  | true =>
    rw [noting, if_pos rfl, mapInnermost]
    split <;> rfl

/-- A parent that notes a block differs only in what it notes. -/
theorem noting_scopes {state : Evaluation} {scope : Scope} {outer : List Scope}
    (open' : state.scopes = scope :: outer) (descriptor : Descriptor) (attached : Bool) :
    ∃ exclusive, (state.noting descriptor attached).scopes = { scope with exclusive } :: outer := by
  cases attached with
  | false => exact ⟨scope.exclusive, open'⟩
  | true =>
    rw [noting, if_pos rfl, mapInnermost, open']
    simp only [noteFamily]
    split
    · exact ⟨_, rfl⟩
    · exact ⟨_, rfl⟩

theorem noting_scopes_nil {state : Evaluation} (outside : state.scopes = []) (descriptor : Descriptor)
    (attached : Bool) : (state.noting descriptor attached).scopes = [] := by
  cases attached with
  | false => exact outside
  | true => simp [noting, mapInnermost, outside]

theorem noting_kept {state : Evaluation} (kept : state.Kept) (descriptor : Descriptor) (attached : Bool) :
    (state.noting descriptor attached).Kept := by
  refine ⟨?_, by simpa using kept.root⟩
  have scopes := kept.scopes
  cases open' : state.scopes with
  | nil => simp [noting_scopes_nil open']
  | cons scope outer =>
    obtain ⟨exclusive, noted⟩ := noting_scopes open' descriptor attached
    rw [open'] at scopes
    rw [noted]
    intro other member
    rcases List.mem_cons.mp member with rfl | around
    · exact scopes scope List.mem_cons_self
    · exact scopes other (List.mem_cons_of_mem _ around)

/-- A block that may be declared inside another one is one that the kind of that one takes. -/
theorem checkPlacement_of_checkPlace {state : Evaluation} {scope : Scope} {outer : List Scope}
    (open' : state.scopes = scope :: outer) {descriptor : Descriptor} {attached : Bool}
    (placed : checkPlace state descriptor attached = .ok ()) :
    descriptor.checkPlacement (some scope.entity.kind) = .ok () := by
  rw [checkPlace, open'] at placed
  simp only [List.head?_cons, Option.isNone_some, Bool.and_false, Bool.false_and, Bool.false_eq_true, if_false,
    Option.map_some] at placed
  split at placed
  · assumption
  · cases placed

/-- A finished block is of the kind that its name describes, and what was open around it is open again. -/
theorem evaluateBlock_finishes {name : String} {line : Nat} {attached : Bool} {body : Evaluating Unit}
    (inner : ∀ before after, body before = .ok () after → Runs before after) {finished : Entity}
    (run : evaluateBlock context name line attached body before = .ok finished after) :
    ∃ descriptor, Registry.describe? name = some descriptor ∧
      checkPlace before descriptor attached = .ok () ∧ finished.kind = descriptor.kind ∧
      after.scopes = (before.noting descriptor attached).scopes ∧ after.root = before.root ∧
      (before.Kept → finished.Kept) := by
  obtain ⟨descriptor, start, described, placed, started, running⟩ := (evaluateBlock_eq_ok _ _ _ _ _).mp run
  obtain ⟨between, ran, rfl, rfl⟩ := (inScope_eq_ok _ _ _).mp running
  have runs := inner _ _ ran
  obtain ⟨kind, whole⟩ := startOf_eq_ok started
  have blocks := runs.blocks
  have root := runs.root (Or.inl (List.cons_ne_nil _ _))
  generalize open' : between.scopes = scopes at blocks
  cases blocks with
  | inside same =>
    rename_i changed
    refine ⟨descriptor, described, placed, same.trans kind, ?_, ?_, ?_⟩
    · simp
    · simpa using root
    · intro kept
      have inside := (runs.kept ⟨?_, (noting_kept kept descriptor attached).root⟩).scopes changed
        (open' ▸ List.mem_cons_self)
      · simpa using inside
      · intro other member
        rcases List.mem_cons.mp member with rfl | around
        · exact whole
        · exact (noting_kept kept descriptor attached).scopes other around

/-- A name that is free is given its value at its path. -/
theorem bound_eq_ok_iff {scope : Scope} {name : String} {values : List Value} {changed : Entity}
    {more : UsedNames} :
    bound scope name values = .ok (changed, more) ↔
      ∃ value, Entity.single scope.entity.kind name values = .ok value ∧ scope.used.covers name = false ∧
        scope.entity.assignPath (DottedName.segments name) value = .ok changed ∧
        more = scope.used.add name := by
  rw [bound]
  split
  · exact Entity.bindPath_eq_ok
  · rename_i plain
    rw [DottedName.segments_of_not_dotted (by simpa using plain)]
    exact Entity.bind_eq_ok_iff

/-- Every name that a block gives values to is an assignment to the head of the name. -/
theorem bound_sets {scope : Scope} {name : String} {values : List Value} {changed : Entity}
    {used : UsedNames} (success : bound scope name values = .ok (changed, used)) :
    ∃ assigned, scope.entity.setProperty (DottedName.head name) assigned = .ok changed := by
  obtain ⟨_, _, _, assigned, _⟩ := bound_eq_ok_iff.mp success
  exact Entity.assignPath_segments_sets assigned

theorem bindName_runs {line : Nat} {name : String} {values : List Value}
    (run : bindName context line name values before = .ok () after) : Runs before after := by
  obtain ⟨scope, outer, changed, used, scopes, success, rfl⟩ := (bindName_eq_ok _ _ _).mp run
  obtain ⟨assigned, set⟩ := bound_sets success
  exact runs_of_open scopes rfl (Entity.setProperty_kind set)
    (fun kept => (Entity.setProperty_assigns kept set).kept) rfl

/-- A finished block becomes the root, or a property of the block around it. -/
theorem attached_runs {name : String} {line : Nat} {body : Evaluating Unit}
    (inner : ∀ before after, body before = .ok () after → Runs before after) {entity : Entity}
    {between : Evaluation} (run : evaluateBlock context name line true body before = .ok entity between)
    (attached : attach context line entity between = .ok () after) : Runs before after := by
  obtain ⟨descriptor, _, placed, _, scopes, root, whole⟩ := evaluateBlock_finishes inner run
  cases open' : before.scopes with
  | nil =>
    rw [noting_scopes_nil open'] at scopes
    rcases (attach_eq_ok _ _).mp attached with ⟨_, rfl⟩ | ⟨_, _, _, _, inside, _⟩
    · refine ⟨?_, ?_, ?_, fun _ => by simp [scopes]⟩
      · rw [open', scopes]
        exact .outside
      · rintro (inside | done)
        · exact absurd open' inside
        · rw [checkPlace, open', if_pos (by simpa [Option.isSome_iff_ne_none] using done)] at placed
          cases placed
      · intro kept
        refine ⟨by simp [scopes], ?_⟩
        rintro _ ⟨⟩
        exact whole kept
    · rw [scopes] at inside
      cases inside
  | cons scope outer =>
    obtain ⟨exclusive, noted⟩ := noting_scopes open' descriptor true
    rw [noted] at scopes
    rcases (attach_eq_ok _ _).mp attached with ⟨outside, _⟩ | ⟨_, _, changed, used, inside, success, rfl⟩
    · rw [scopes] at outside
      cases outside
    · rw [scopes] at inside
      obtain ⟨rfl, rfl⟩ := List.cons.inj inside
      obtain ⟨set, _⟩ := Entity.bindEntity_eq_ok success
      exact runs_of_open open' rfl (Entity.setProperty_kind set)
        (fun kept => (Entity.setProperty_assigns kept set).kept) root

theorem countDeclaration_runs (run : countDeclaration before = .ok () after) : Runs before after := by
  obtain rfl := (Running.modify_eq_ok _ _ _ _).mp run
  cases scopes : before.scopes with
  | nil =>
    rw [mapInnermost, scopes]
    exact .refl before
  | cons scope outer =>
    rw [mapInnermost, scopes]
    exact runs_of_open scopes rfl rfl id rfl

/-- Only a service of an application is loaded from a directory. -/
theorem serviceDirectory?_eq_some {state : Evaluation} {name : String} {directory : Path}
    (found : state.serviceDirectory? context = some (name, directory)) :
    ∃ service application, state.scopes = [service, application] ∧ service.entity.kind = .service := by
  rw [serviceDirectory?] at found
  split at found
  · split at found
    · rename_i service application scopes kinds
      exact ⟨service, application, scopes, kinds.2⟩
    · cases found
  · cases found

section Sound

variable (sound : deeper.Sound)
include sound

/-- A recipe that another one leads to is kept. -/
theorem compileNested_kept {job : Job} {path : Path} {handover : Handover} {session later : Session}
    {entity : Entity}
    (run : compileNested deeper job path handover session = .ok entity later) : entity.Kept := by
  obtain ⟨_, _, _, _, _, _, _, _, recipe, _⟩ := (compileNested_eq_ok _ _ _ _ _ _ _).mp run
  exact sound.recipe _ _ _ _ _ recipe

theorem loadService_runs {line : Nat} (run : loadService deeper context line before = .ok () after) :
    Runs before after := by
  rcases (loadService_eq_ok _ _).mp run with ⟨_, rfl⟩ |
    ⟨name, directory, path, loaded, session, entity, found, _, compiled, kind, named, rfl⟩
  · exact .refl after
  · obtain ⟨service, application, scopes, service'⟩ := serviceDirectory?_eq_some found
    have assigns := Entity.setCoerced_assigns (compileNested_kept sound compiled) named
    have loaded' : ({ before with session }.mapInnermost fun scope => { scope with entity }).scopes =
        { service with entity } :: [application] := by
      simp [mapInnermost, scopes]
    refine runs_of_open scopes loaded' ?_ ?_ ?_
    · exact assigns.kind.trans (kind.trans service'.symm)
    · exact fun _ => assigns.kept
    · simp [mapInnermost, scopes]

theorem assign_runs {line : Nat} {name : String} {values : List Value}
    (run : assign deeper context line name values before = .ok () after) : Runs before after := by
  obtain ⟨_, between, binding, run⟩ := (Running.bind_eq_ok _ _ _ _ _).mp run
  have first := bindName_runs binding
  split at run
  · exact first.trans (loadService_runs sound run)
  · obtain ⟨_, rfl⟩ := (Running.pure_eq_ok _ _ _ _).mp run
    exact first

theorem splice_runs {line : Nat} {values : Evaluating (List Value)}
    (evaluated : ∀ after result, values before = .ok result after → Leaves before after)
    (run : splice deeper context line values before = .ok () after) : Runs before after := by
  obtain ⟨relative, between, path, declarations, session, inner, values', _, _, _, spliced, rfl⟩ :=
    (splice_eq_ok _ _ _).mp run
  have middle : Runs between (between.entering path session) := Leaves.runs ⟨rfl, rfl⟩
  have last : Runs inner inner.leaving := Leaves.runs ⟨rfl, rfl⟩
  exact (((evaluated _ _ values').runs.trans middle).trans (sound.declarations _ _ _ _ spliced)).trans last

theorem loadValue_leaves {line : Nat} {relative : String} {result : Value}
    (run : loadValue deeper context line relative before = .ok result after) : Leaves before after := by
  obtain ⟨path, text, expression, session, inner, _, _, _, _, evaluated, rfl⟩ :=
    (loadValue_eq_ok _ _ _ _).mp run
  have inside := sound.expression _ _ _ _ _ evaluated
  exact ⟨inside.scopes, inside.root⟩

theorem extendBase_runs {line : Nat} {values : Evaluating (List Value)}
    (evaluated : ∀ after result, values before = .ok result after → Leaves before after)
    (run : extendBase deeper context line values before = .ok () after) : Runs before after := by
  obtain ⟨kind, reference, between, path, base, session, extending, values', _, compiled, service, rfl⟩ :=
    (extendBase_eq_ok _ _ _).mp run
  obtain ⟨_, scope, outer, scopes, same, _⟩ := extendingKind_eq_ok extending
  have leaves := evaluated _ _ values'
  have kept := Entity.addBase_assigns (compileNested_kept sound compiled) service path.text
  have there : between.scopes = scope :: outer := leaves.scopes.trans scopes
  have extended : ({ between with session }.extendedBy base path).scopes =
      { scope with entity := base.addBase path.text } :: outer := by
    simp [extendedBy, mapInnermost, there]
  refine runs_of_open scopes extended ?_ ?_ ?_
  · exact kept.kind.trans (service.trans same.symm)
  · exact fun _ => kept.kept
  · simp [extendedBy, mapInnermost, there, leaves.root]

end Sound

mutual

theorem evaluate_leaves (sound : deeper.Sound) {line : Nat} {value : Value} (expression : Expression)
    {before after : Evaluation} (run : evaluate deeper context line expression before = .ok value after) :
    Leaves before after := by
  cases expression with
  | null | bool | int | float | text =>
    rw [evaluate] at run
    obtain ⟨_, rfl⟩ := (Running.pure_eq_ok _ _ _ _).mp run
    exact .refl before
  | interpolated parts =>
    obtain ⟨_, _, _, rfl⟩ := evaluate_interpolated_eq_ok.mp run
    exact .refl after
  | reference name =>
    obtain ⟨_, rfl⟩ := evaluate_reference_eq_ok.mp run
    exact .refl after
  | list items =>
    rw [evaluate] at run
    obtain ⟨_, _, evaluated, same⟩ := (Running.bind_eq_ok _ _ _ _ _).mp run
    obtain ⟨_, rfl⟩ := (Running.pure_eq_ok _ _ _ _).mp same
    exact evaluateItems_leaves sound items evaluated
  | map entries =>
    rw [evaluate] at run
    obtain ⟨_, _, evaluated, same⟩ := (Running.bind_eq_ok _ _ _ _ _).mp run
    obtain ⟨_, rfl⟩ := (Running.pure_eq_ok _ _ _ _).mp same
    exact evaluateEntries_leaves sound entries evaluated
  | block name blockLine body =>
    rw [evaluate] at run
    obtain ⟨_, _, evaluated, same⟩ := (Running.bind_eq_ok _ _ _ _ _).mp run
    obtain ⟨_, rfl⟩ := (Running.pure_eq_ok _ _ _ _).mp same
    obtain ⟨_, _, _, _, scopes, root, _⟩ :=
      evaluateBlock_finishes (fun _ _ => evaluateStatements_runs sound body) evaluated
    exact ⟨scopes, root⟩
  | load path =>
    rw [evaluate] at run
    exact loadValue_leaves sound run
termination_by structural expression

theorem evaluateItems_leaves (sound : deeper.Sound) {line : Nat} {values : List Value}
    (items : List Expression) {before after : Evaluation}
    (run : evaluateItems deeper context line items before = .ok values after) : Leaves before after := by
  cases items with
  | nil =>
    rw [evaluateItems] at run
    obtain ⟨_, rfl⟩ := (Running.pure_eq_ok _ _ _ _).mp run
    exact .refl before
  | cons first rest =>
    rw [evaluateItems] at run
    obtain ⟨_, _, evaluated, run⟩ := (Running.bind_eq_ok _ _ _ _ _).mp run
    obtain ⟨_, _, others, same⟩ := (Running.bind_eq_ok _ _ _ _ _).mp run
    obtain ⟨_, rfl⟩ := (Running.pure_eq_ok _ _ _ _).mp same
    exact (evaluate_leaves sound first evaluated).trans (evaluateItems_leaves sound rest others)
termination_by structural items

theorem evaluateEntries_leaves (sound : deeper.Sound) {line : Nat} {mapping result : Mapping}
    (entries : List (String × Expression)) {before after : Evaluation}
    (run : evaluateEntries deeper context line mapping entries before = .ok result after) :
    Leaves before after := by
  match entries with
  | [] =>
    rw [evaluateEntries] at run
    obtain ⟨_, rfl⟩ := (Running.pure_eq_ok _ _ _ _).mp run
    exact .refl before
  | (key, item) :: rest =>
    rw [evaluateEntries] at run
    obtain ⟨_, _, evaluated, run⟩ := (Running.bind_eq_ok _ _ _ _ _).mp run
    exact (evaluate_leaves sound item evaluated).trans (evaluateEntries_leaves sound rest run)
termination_by structural entries

theorem evaluateStatement_runs (sound : deeper.Sound) (declaration : Declaration)
    {before after : Evaluation}
    (run : evaluateStatement deeper context declaration before = .ok () after) : Runs before after := by
  cases declaration with
  | mk name line body =>
    rw [evaluateStatement] at run
    obtain ⟨_, _, evaluated, run⟩ := (Running.bind_eq_ok _ _ _ _ _).mp run
    exact (evaluateBody_runs sound body evaluated).trans (countDeclaration_runs run)
termination_by structural declaration

theorem evaluateBody_runs (sound : deeper.Sound) {name : String} {line : Nat} (body : Body)
    {before after : Evaluation}
    (run : evaluateBody deeper context name line body before = .ok () after) : Runs before after := by
  cases body with
  | block declarations =>
    rw [evaluateBody] at run
    obtain ⟨_, _, evaluated, run⟩ := (Running.bind_eq_ok _ _ _ _ _).mp run
    exact attached_runs (fun _ _ => evaluateStatements_runs sound declarations) evaluated run
  | arguments expressions =>
    rw [evaluateBody] at run
    split at run
    · exact extendBase_runs sound (fun _ _ => evaluateItems_leaves sound expressions) run
    · split at run
      · exact splice_runs sound (fun _ _ => evaluateItems_leaves sound expressions) run
      · obtain ⟨_, _, evaluated, run⟩ := (Running.bind_eq_ok _ _ _ _ _).mp run
        exact (evaluateItems_leaves sound expressions evaluated).runs.trans (assign_runs sound run)
  | assignment expression =>
    rw [evaluateBody] at run
    obtain ⟨_, _, evaluated, run⟩ := (Running.bind_eq_ok _ _ _ _ _).mp run
    exact (evaluate_leaves sound expression evaluated).runs.trans (assign_runs sound run)
termination_by structural body

theorem evaluateStatements_runs (sound : deeper.Sound) (declarations : List Declaration)
    {before after : Evaluation}
    (run : evaluateStatements deeper context declarations before = .ok () after) : Runs before after := by
  cases declarations with
  | nil =>
    rw [evaluateStatements] at run
    obtain ⟨_, rfl⟩ := (Running.pure_eq_ok _ _ _ _).mp run
    exact .refl before
  | cons first rest =>
    rw [evaluateStatements] at run
    obtain ⟨_, _, evaluated, run⟩ := (Running.bind_eq_ok _ _ _ _ _).mp run
    exact (evaluateStatement_runs sound first evaluated).trans (evaluateStatements_runs sound rest run)
termination_by structural declarations

end

theorem forM_runs {step : Declaration → Evaluating Unit}
    (each : ∀ declaration before after, step declaration before = .ok () after → Runs before after)
    (declarations : List Declaration) {before after : Evaluation}
    (run : declarations.forM step before = .ok () after) : Runs before after := by
  induction declarations generalizing before with
  | nil =>
    obtain ⟨_, rfl⟩ := (Running.pure_eq_ok _ _ _ _).mp run
    exact .refl before
  | cons first rest inductionHypothesis =>
    obtain ⟨_, _, evaluated, others⟩ := (Running.bind_eq_ok _ _ _ _ _).mp run
    exact (each _ _ _ evaluated).trans (inductionHypothesis others)

theorem evaluateTopLevel_runs (sound : deeper.Sound) (declaration : Declaration)
    {before after : Evaluation}
    (run : evaluateTopLevel deeper context declaration before = .ok () after) : Runs before after := by
  obtain ⟨name, line, body⟩ := declaration
  cases body with
  | block declarations =>
    obtain ⟨_, _, evaluated, attached⟩ := (Running.bind_eq_ok _ _ _ _ _).mp run
    exact attached_runs (fun _ _ => evaluateStatements_runs sound declarations) evaluated attached
  | arguments expressions =>
    change (if name = loadWord then _ else if name = extendWord then _ else _ : Evaluating Unit) _ = _ at run
    split at run
    · exact splice_runs sound (fun _ _ => evaluateItems_leaves sound expressions) run
    · split at run
      · exact absurd run (fail_ne_ok _ _ _)
      · exact absurd run (fail_ne_ok _ _ _)
  | assignment expression =>
    obtain ⟨_, _, evaluated, changed⟩ := (Running.bind_eq_ok _ _ _ _ _).mp run
    obtain rfl := (Running.modify_eq_ok _ _ _ _).mp changed
    have leaves := evaluate_leaves sound expression evaluated
    exact Leaves.runs ⟨leaves.scopes, leaves.root⟩

theorem evaluateInPlace_runs (sound : deeper.Sound) (declaration : Declaration) {before after : Evaluation}
    (run : evaluateInPlace deeper context declaration before = .ok () after) : Runs before after := by
  rw [evaluateInPlace, Running.get_bind] at run
  split at run
  · exact evaluateTopLevel_runs sound declaration run
  · exact evaluateStatement_runs sound declaration run

/-- A recipe that is evaluated well leaves a root. -/
theorem evaluateRecipe_eq_ok (deeper : Deeper) (context : RecipeContext) (declarations : List Declaration)
    (before after : Session) (root : Entity) :
    evaluateRecipe deeper context declarations before = .ok root after ↔
      ∃ state, declarations.forM (evaluateTopLevel deeper context) (start before) = .ok () state ∧
        state.root = some root ∧ state.session = after := by
  rw [evaluateRecipe]
  cases declarations.forM (evaluateTopLevel deeper context) (start before) with
  | error error state => simp
  | ok value state =>
    cases root' : state.root with
    | none => simp [root']
    | some root => simp [root']

theorem evaluateRecipe_kept (sound : deeper.Sound) {declarations : List Declaration}
    {before after : Session} {root : Entity}
    (run : evaluateRecipe deeper context declarations before = .ok root after) : root.Kept := by
  obtain ⟨state, evaluated, done, _⟩ := (evaluateRecipe_eq_ok _ _ _ _ _ _).mp run
  have runs := forM_runs (fun _ _ _ => evaluateTopLevel_runs sound _) declarations evaluated
  have nothing : (start before).Kept := ⟨by simp [start], by simp [start]⟩
  exact (runs.kept nothing).root root done

end Evaluation

/-- However deep files lead to files, blocks and roots are kept. -/
theorem Deeper.upTo_sound (depth : Nat) : (upTo depth).Sound := by
  induction depth with
  | zero =>
    exact ⟨fun _ _ _ _ run => absurd run (Running.throw_ne_ok _ _ _ _),
      fun _ _ _ _ _ run => absurd run (Running.throw_ne_ok _ _ _ _),
      fun _ _ _ _ _ run => absurd run (Running.throw_ne_ok _ _ _ _)⟩
  | succ depth inductionHypothesis =>
    refine ⟨?_, ?_, ?_⟩
    · intro context declarations before after run
      exact Evaluation.forM_runs (fun _ _ _ => Evaluation.evaluateInPlace_runs inductionHypothesis _)
        declarations run
    · intro context expression before value after run
      exact Evaluation.evaluate_leaves inductionHypothesis expression run
    · intro context declarations before root after run
      exact Evaluation.evaluateRecipe_kept inductionHypothesis run

end DeployRecipe
