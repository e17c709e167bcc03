import DeployRecipe.Proofs.Compilation.Assigned
import DeployRecipe.Proofs.Entity.Apart
import DeployRecipe.Proofs.Entity.Mapping

/-!
No property is assigned twice in a block. A block keeps the names that it used, so whatever is assigned later
is apart from them or is refused as a duplicate. Only what a block assigns is not compared with the dotted
names that went into it before.
-/

namespace DeployRecipe

/-- The failure says that something is assigned or declared more than once. -/
def ErrorKind.Duplicates (kind : ErrorKind) : Prop :=
  (∃ name, kind = .duplicateProperty name) ∨
    ∃ name existing family, kind = .duplicateProcessingUnit name existing family

namespace Entity

theorem isWritable_of_setProperty {entity changed : Entity} (kept : entity.Kept) {name : String}
    {value : Value} (success : entity.setProperty name value = .ok changed) :
    entity.isWritable name = true := by
  rw [isWritable_iff kept]
  rcases setProperty_eq_ok kept success with ⟨shape, _, field, _⟩ | ⟨_, application, slot, _⟩
  · exact Or.inl ⟨shape, field⟩
  · exact Or.inr ⟨application, slot⟩

/-- Which names may be assigned depends on the kind only. -/
theorem isWritable_of_kind {entity other : Entity} (kept : entity.Kept) (whole : other.Kept)
    (kind : other.kind = entity.kind) {name : String} (writable : entity.isWritable name = true) :
    other.isWritable name = true := by
  rwa [isWritable, writableProperties_of_kept whole, kind, ← writableProperties_of_kept kept]

theorem single_eq_ok_iff (kind : EntityKind) (name : String) (arguments : List Value) :
    (∃ value, single kind name arguments = .ok value) ↔ arguments.length ≤ 1 := by
  match arguments with
  | [] => simp [single]
  | [value] => simp [single]
  | _ :: _ :: _ => simp [single]

/-- A finished block is refused where its name is used. -/
theorem bindEntity_of_used {parent child : Entity} {used : UsedNames}
    (once : isRepeatable parent.kind child.kind = false)
    (writable : parent.isWritable child.kind.elementName = true)
    (there : child.kind.elementName ∈ used) :
    parent.bindEntity used child = .error (.duplicateProperty child.kind.elementName) := by
  rw [bindEntity]
  simp [once, writable, there, throw, throwThe, MonadExceptOf.throw, Bind.bind, Except.bind]

end Entity

/-- A block that is kept and used only names that begin with properties that it has. -/
structure Scope.Sound (scope : Scope) : Prop where
  kept : scope.entity.Kept
  used : ∀ name ∈ scope.used, scope.entity.isWritable (DottedName.head name) = true

theorem Scope.sound_opening {start : Entity} (kept : start.Kept) : (Scope.opening start).Sound :=
  ⟨kept, by simp [opening]⟩

/-- A block stays sound when its entity is replaced by one of its kind. -/
theorem Scope.Sound.replaced {scope : Scope} (sound : scope.Sound) {entity : Entity} (kept : entity.Kept)
    (kind : entity.kind = scope.entity.kind) : ({ scope with entity } : Scope).Sound :=
  ⟨kept, fun name member => Entity.isWritable_of_kind sound.kept kept kind (sound.used name member)⟩

/-- A block stays sound when it assigns what a name begins with. -/
theorem Scope.Sound.assigned {scope : Scope} (sound : scope.Sound) {name : String} {value : Value}
    {changed : Entity} (set : scope.entity.setProperty (DottedName.head name) value = .ok changed) :
    ({ scope with entity := changed, used := scope.used.add name } : Scope).Sound := by
  have assigns := Entity.setProperty_assigns sound.kept set
  refine ⟨assigns.kept, fun other member => ?_⟩
  apply Entity.isWritable_of_kind sound.kept assigns.kept assigns.kind
  rcases UsedNames.mem_add.mp member with rfl | before
  · exact Entity.isWritable_of_setProperty sound.kept set
  · exact sound.used other before

namespace Evaluation

variable {deeper : Deeper} {context : RecipeContext} {before after : Evaluation}

/-- A name that is not free is refused as a duplicate, since it begins with a property that the block
has. -/
theorem bound_of_covers {scope : Scope} (sound : scope.Sound) {name : String} {values : List Value}
    (single : values.length ≤ 1) (covered : scope.used.covers name = true) :
    bound scope name values = .error (.duplicateProperty name) := by
  obtain ⟨value, single⟩ := (Entity.single_eq_ok_iff scope.entity.kind name values).mpr single
  rw [bound]
  split
  · simp [Entity.bindPath, single, covered, throw, throwThe, MonadExceptOf.throw, Bind.bind, Except.bind]
  · rename_i plain
    obtain ⟨other, member, overlaps⟩ : ∃ other ∈ scope.used, DottedName.Overlaps other name := by
      by_contra none
      push Not at none
      rw [UsedNames.covers_eq_false_iff.mpr none] at covered
      cases covered
    have writable := sound.used other member
    rw [overlaps.head_eq (by simpa using plain)] at writable
    simp [Entity.bind, single, writable, covered, throw, throwThe, MonadExceptOf.throw, Bind.bind, Except.bind]

/-- What fails inside a fragment fails around it. -/
theorem inFragment_of_error {α : Type} {action : Evaluating α} {path : Path} {error : CompileError} (line : Nat)
    (free : before.session.isActive path = false)
    (run : action { before with
        session := { before.session with active := path :: before.session.active } } = .error error after) :
    ∃ last, inFragment context line path action before =
      .error (error.within (before.currentFile context)) last := by
  have entered : adapting (fun error => (error.atLine line).within (before.currentFile context))
      (inSession (Session.enter path)) before = .ok () _ :=
    (Running.adapting_eq_ok _ _ _ _ _).mpr ((inSession_eq_ok _ _).mpr
      ⟨_, (Session.enter_eq_ok _ _ _ _).mpr ⟨free, rfl⟩, rfl⟩)
  rw [inFragment, Running.get_bind, Running.bind_of_ok entered]
  simp only [adapting, ensuring, run]
  exact ⟨_, rfl⟩

theorem withFragment_of_error {α : Type} {action : Evaluating α} {path : Path} {error : CompileError}
    (run : action { before with fragments := path :: before.fragments } = .error error after) :
    ∃ last, withFragment path action before = .error error last := by
  rw [withFragment, Running.modify_bind]
  simp only [ensuring, run]
  exact ⟨_, rfl⟩

/-- What fails in the declarations of a fragment fails where the fragment is loaded. -/
theorem splice_of_error {line : Nat} {expressions : List Expression} {declarations : List Declaration}
    {inside : Evaluation} {error : CompileError}
    (opened : openFragment deeper context line expressions before = .ok declarations inside)
    (run : deeper.declarations context declarations inside = .error error after) :
    ∃ outer last, splice deeper context line (evaluateItems deeper context line expressions) before =
      .error (error.within outer) last := by
  obtain ⟨relative, between, path, session, evaluated, named, free, parsed, rfl⟩ :=
    (openFragment_eq_ok _ _ _).mp opened
  obtain ⟨last, ran⟩ : ∃ last, withFragment path (deeper.declarations context declarations)
      { between with session } = .error error last := withFragment_of_error run
  have parse : inSession (Session.parseFile context.job path) { between with
      session := { between.session with active := path :: between.session.active } } = .ok declarations _ :=
    (inSession_eq_ok _ _).mpr ⟨session, parsed, rfl⟩
  have action := (Running.bind_of_ok parse fun declarations =>
    withFragment path (deeper.declarations context declarations)).trans ran
  obtain ⟨state, failed⟩ := inFragment_of_error line free action
  refine ⟨between.currentFile context, state, ?_⟩
  rw [splice, Running.get_bind, Running.bind_of_ok evaluated,
    Running.bind_of_ok ((onePath_eq_ok _ _ _ _ _).mpr ⟨rfl, rfl⟩),
    Running.bind_of_ok ((fragmentPath_eq_ok _ _ _).mpr ⟨named, rfl⟩)]
  exact failed

/-- Assignments in a block: each one was new to it, and they are lawful in their order. -/
structure Apart (scope : Scope) (log : List Assigned) : Prop where
  new : ∀ assigned ∈ log, assigned.New scope.entity.kind scope.used
  lawful : log.Pairwise (Assigned.Lawful scope.entity.kind)

theorem Apart.nil (scope : Scope) : Apart scope [] := ⟨by simp, .nil⟩

theorem Apart.single {scope : Scope} {name : String} (free : scope.used.covers name = false) :
    Apart scope [⟨[], name⟩] :=
  ⟨by simpa [Assigned.New] using free, List.pairwise_singleton _ _⟩

/-- What becomes of a block in which some assignments are made. -/
structure Becomes (scope changed : Scope) (log : List Assigned) : Prop where
  sound : changed.Sound
  kind : changed.entity.kind = scope.entity.kind
  used : scope.used ⊆ changed.used
  noted : ∀ assigned ∈ log, assigned.first ∈ changed.used

/-- A run in an open block accounts for its assignments: they are apart, or it is refused because of a
duplicate. -/
def Accounts (scope : Scope) (outer : List Scope) (log : List Assigned) :
    EStateM.Result CompileError Evaluation Unit → Prop
  | .ok _ after => Apart scope log ∧ ∃ changed, after.scopes = changed :: outer ∧ Becomes scope changed log
  | .error error _ => error.kind.Duplicates ∨ Apart scope log

section Accounts

variable {scope : Scope} {outer : List Scope} {log : List Assigned}

theorem Accounts.of_ne_ok {result : EStateM.Result CompileError Evaluation Unit}
    (fails : ∀ after, result ≠ .ok () after) : Accounts scope outer [] result := by
  cases result with
  | ok _ after => exact absurd rfl (fails after)
  | error error after => exact Or.inr (.nil scope)

/-- What is assigned later is new to what became of the block. -/
theorem Apart.append {changed : Scope} {more : List Assigned} (first : Apart scope log)
    (becomes : Becomes scope changed log) (next : Apart changed more) : Apart scope (log ++ more) := by
  obtain ⟨new, lawful⟩ := next
  rw [becomes.kind] at new lawful
  refine ⟨?_, List.pairwise_append.mpr ⟨first.lawful, lawful, ?_⟩⟩
  · intro assigned member
    rcases List.mem_append.mp member with earlier | later
    · exact first.new assigned earlier
    · exact (new assigned later).mono becomes.used
  · intro earlier member later member'
    exact Assigned.lawful_of_new (first.new earlier member) (becomes.noted earlier member) (new later member')

/-- Runs one after the other account for their assignments in order. -/
theorem Accounts.append {changed : Scope} {more : List Assigned}
    {result : EStateM.Result CompileError Evaluation Unit} (first : Apart scope log)
    (becomes : Becomes scope changed log) (next : Accounts changed outer more result) :
    Accounts scope outer (log ++ more) result := by
  cases result with
  | error error after => exact next.imp id (first.append becomes)
  | ok _ after =>
    obtain ⟨apart, last, scopes, ends⟩ := next
    refine ⟨first.append becomes apart, last, scopes, ends.sound, ends.kind.trans becomes.kind,
      fun _ member => ends.used (becomes.used member), ?_⟩
    intro assigned member
    rcases List.mem_append.mp member with earlier | later
    · exact ends.used (becomes.noted assigned earlier)
    · exact ends.noted assigned later

/-- A step that assigns nothing and leaves a sound block of the same kind that used the same names. -/
theorem Accounts.of_replaced {result : EStateM.Result CompileError Evaluation Unit}
    (stays : ∀ after, result = .ok () after → ∃ changed, after.scopes = changed :: outer ∧ changed.Sound ∧
      changed.entity.kind = scope.entity.kind ∧ changed.used = scope.used) :
    Accounts scope outer [] result := by
  cases result with
  | error error after => exact Or.inr (.nil scope)
  | ok _ after =>
    obtain ⟨changed, scopes, sound, kind, used⟩ := stays after rfl
    exact ⟨.nil scope, changed, scopes, sound, kind, used ▸ fun _ => id, by simp⟩

end Accounts

section Steps

variable {scope : Scope} {outer : List Scope} (whole : scope.Sound) (open' : before.scopes = scope :: outer)
include whole open'

/-- To count a declaration changes nothing that matters here. -/
theorem countDeclaration_accounts : Accounts scope outer [] (countDeclaration before) := by
  refine .of_replaced fun after run => ?_
  obtain rfl := (Running.modify_eq_ok _ _ _ _).mp run
  refine ⟨{ scope with position := scope.position + 1 }, ?_, ⟨whole.kept, whole.used⟩, rfl, rfl⟩
  simp [mapInnermost, open']

/-- A service that is loaded from a directory stays a service. -/
theorem loadService_accounts (sound : deeper.Sound) (line : Nat) :
    Accounts scope outer [] (loadService deeper context line before) := by
  refine .of_replaced fun after run => ?_
  rcases (loadService_eq_ok _ _).mp run with ⟨_, rfl⟩ |
    ⟨name, directory, path, loaded, session, entity, found, _, compiled, service, named, rfl⟩
  · exact ⟨scope, open', whole, rfl, rfl⟩
  · obtain ⟨innermost, application, scopes, kind⟩ := serviceDirectory?_eq_some found
    obtain ⟨rfl, rfl⟩ := List.cons.inj (open'.symm.trans scopes)
    have assigns := Entity.setCoerced_assigns (compileNested_kept sound compiled) named
    have same := assigns.kind.trans (service.trans kind.symm)
    refine ⟨{ scope with entity }, ?_, whole.replaced assigns.kept same, same, rfl⟩
    simp [mapInnermost, open']

theorem extendBase_accounts (sound : deeper.Sound) (line : Nat) (expressions : List Expression) :
    Accounts scope outer []
      (extendBase deeper context line (evaluateItems deeper context line expressions) before) := by
  refine .of_replaced fun after run => ?_
  obtain ⟨kind, reference, between, path, base, session, extending, values, _, compiled, service, rfl⟩ :=
    (extendBase_eq_ok _ _ _).mp run
  obtain ⟨_, innermost, _, scopes, same, _⟩ := extendingKind_eq_ok extending
  obtain ⟨rfl, rfl⟩ := List.cons.inj (open'.symm.trans scopes)
  have there := (evaluateItems_leaves sound expressions values).scopes.trans open'
  have assigns := Entity.addBase_assigns (compileNested_kept sound compiled) service path.text
  have kind := assigns.kind.trans (service.trans same.symm)
  refine ⟨{ scope with entity := base.addBase path.text }, ?_, whole.replaced assigns.kept kind, kind, rfl⟩
  simp [extendedBy, mapInnermost, there]

/-- An assignment is new to the block, or it is refused as a duplicate. -/
theorem assign_accounts (sound : deeper.Sound) (line : Nat) (name : String) (values : List Value) :
    Accounts scope outer (if values.length ≤ 1 then [⟨[], name⟩] else [])
      (assign deeper context line name values before) := by
  cases given : bound scope name values with
  | error kind =>
    have run : bindName context line name values before =
        .error ((CompileError.inFile (before.currentFile context) kind).atLine line) before := by
      have demanded : demand context line (bound scope name values) before =
          .error ((CompileError.inFile (before.currentFile context) kind).atLine line) before := by
        rw [given]
        rfl
      rw [bindName, Running.get_bind, open']
      exact Running.bind_of_error demanded _
    rw [assign, Running.bind_of_error run]
    split
    · rename_i single
      cases covered : scope.used.covers name with
      | false => exact Or.inr (.single covered)
      | true =>
        rw [bound_of_covers whole single covered] at given
        obtain rfl := Except.error.inj given
        exact Or.inl (Or.inl ⟨name, rfl⟩)
    · exact Or.inr (.nil scope)
  | ok pair =>
    obtain ⟨changed, more⟩ := pair
    have run : bindName context line name values before = .ok () _ :=
      (bindName_eq_ok line name values).mpr ⟨scope, outer, changed, more, open', given, rfl⟩
    obtain ⟨value, single, free, assigned, rfl⟩ := bound_eq_ok_iff.mp given
    obtain ⟨_, set⟩ := bound_sets given
    have sound' := whole.assigned set
    rw [assign, Running.bind_of_ok run, if_pos ((Entity.single_eq_ok_iff _ _ _).mp ⟨value, single⟩)]
    have becomes : Becomes scope { scope with entity := changed, used := scope.used.add name }
        [⟨[], name⟩] := by
      refine ⟨sound', (Entity.setProperty_assigns whole.kept set).kind, UsedNames.subset_add _ _, ?_⟩
      intro assigned member
      obtain rfl := List.mem_singleton.mp member
      exact UsedNames.mem_add.mpr (Or.inl rfl)
    rw [← List.append_nil [_]]
    refine .append (.single free) becomes ?_
    split
    · exact loadService_accounts sound' rfl sound line
    · exact .of_replaced fun after done => ⟨_, ((Running.pure_eq_ok _ _ _ _).mp done).2 ▸ rfl, sound', rfl, rfl⟩

/-- To evaluate a fragment in place assigns what its declarations assign. -/
theorem splice_accounts {inner : RecipeContext → List Declaration → Evaluation → List Assigned}
    (sound : deeper.Sound)
    (recounts : ∀ declarations inside scope outer, inside.scopes = scope :: outer → scope.Sound →
      Accounts scope outer (inner context declarations inside) (deeper.declarations context declarations inside))
    (line : Nat) (expressions : List Expression) :
    Accounts scope outer
      (match openFragment deeper context line expressions before with
        | .ok declarations inside => inner context declarations inside
        | .error _ _ => [])
      (splice deeper context line (evaluateItems deeper context line expressions) before) := by
  cases opened : openFragment deeper context line expressions before with
  | error error after =>
    refine .of_ne_ok fun last run => ?_
    obtain ⟨_, _, _, opened', _⟩ := (splice_iff_openFragment _ _).mp run
    rw [opened] at opened'
    cases opened'
  | ok declarations inside =>
    obtain ⟨relative, between, path, session, evaluated, named, free, parsed, rfl⟩ :=
      (openFragment_eq_ok _ _ _).mp opened
    have there := (evaluateItems_leaves sound expressions evaluated).scopes.trans open'
    have accounts := recounts declarations (between.entering path session) scope outer there whole
    cases ran : deeper.declarations context declarations (between.entering path session) with
    | ok _ last =>
      rw [ran] at accounts
      rw [(splice_iff_openFragment line expressions).mpr ⟨declarations, _, last, opened, ran, rfl⟩]
      exact accounts
    | error error last =>
      rw [ran] at accounts
      obtain ⟨_, state, run⟩ := splice_of_error opened ran
      rw [run]
      rwa [Accounts, CompileError.kind_within]

end Steps

section Blocks

variable {name : String} {line : Nat} {attached : Bool} {body : Evaluating Unit} {inside : Evaluation}

theorem contentOf_of_startOf {state : Evaluation} {descriptor : Descriptor} {start : Entity}
    (success : state.startOf descriptor attached = .ok start) :
    state.contentOf descriptor attached = .ok start := by
  cases attached with
  | false => exact success
  | true =>
    rw [startOf, if_pos rfl, openAttached] at success
    rw [contentOf, if_pos rfl]
    cases scopes : state.scopes with
    | nil =>
      rw [scopes] at success
      exact success
    | cons parent outer =>
      rw [scopes] at success
      obtain ⟨_, _, content⟩ := (Running.attempt_eq_ok _ _ _).mp success
      exact content

/-- A block that starts with some content is refused only because of another one of its family. -/
theorem startOf_of_contentOf {state : Evaluation} {descriptor : Descriptor} {start : Entity}
    (content : state.contentOf descriptor attached = .ok start) :
    state.startOf descriptor attached = .ok start ∨
      ∃ kind, state.startOf descriptor attached = .error kind ∧ kind.Duplicates := by
  cases attached with
  | false => exact Or.inl content
  | true =>
    rw [contentOf, if_pos rfl] at content
    rw [startOf, if_pos rfl, openAttached]
    cases scopes : state.scopes with
    | nil =>
      rw [scopes] at content
      exact Or.inl content
    | cons parent outer =>
      rw [scopes] at content
      dsimp only
      cases family : checkFamily parent descriptor with
      | ok _ => exact Or.inl content
      | error kind =>
        refine Or.inr ⟨kind, rfl, ?_⟩
        rw [checkFamily] at family
        split at family
        · split at family
          · obtain rfl := Except.error.inj family
            exact Or.inr ⟨_, _, _, rfl⟩
          · cases family
        · cases family

theorem insideBlock?_eq_some :
    before.insideBlock? name attached = some inside ↔
      ∃ descriptor start, Registry.describe? name = some descriptor ∧
        checkPlace before descriptor attached = .ok () ∧ before.contentOf descriptor attached = .ok start ∧
        inside = { before.noting descriptor attached with
          scopes := .opening start :: (before.noting descriptor attached).scopes } := by
  rw [insideBlock?]
  cases Registry.describe? name with
  | none => simp
  | some descriptor =>
    cases placed : checkPlace before descriptor attached with
    | error reason => simp [placed]
    | ok _ =>
      cases content : before.contentOf descriptor attached with
      | error kind => simp [placed, content]
      | ok start =>
        simp only [placed, content]
        constructor
        · intro same
          exact ⟨descriptor, start, rfl, placed, content, (Option.some.inj same).symm⟩
        · rintro ⟨_, _, same, _, content', rfl⟩
          cases same
          rw [content] at content'
          cases content'
          rfl

/-- A block that may not be declared is not evaluated. -/
theorem evaluateBlock_of_none (outside : before.insideBlock? name attached = none) (finished : Entity) :
    evaluateBlock context name line attached body before ≠ .ok finished after := by
  intro run
  obtain ⟨descriptor, start, described, placed, started, _⟩ := (evaluateBlock_eq_ok _ _ _ _ _).mp run
  have there := insideBlock?_eq_some.mpr ⟨descriptor, start, described, placed, contentOf_of_startOf started, rfl⟩
  rw [outside] at there
  cases there

/-- A block that may be declared is evaluated, unless another one of its family was declared. -/
theorem evaluateBlock_of_some (context : RecipeContext) (line : Nat) (body : Evaluating Unit)
    (there : before.insideBlock? name attached = some inside) :
    (∃ error last, evaluateBlock context name line attached body before = .error error last ∧
        error.kind.Duplicates) ∨
      ∃ descriptor start, Registry.describe? name = some descriptor ∧
        checkPlace before descriptor attached = .ok () ∧ start.kind = descriptor.kind ∧ start.Kept ∧
        inside.scopes = .opening start :: (before.noting descriptor attached).scopes ∧
        evaluateBlock context name line attached body before =
          match body inside with
          | .ok _ last =>
            .ok ((last.scopes.head?.map Scope.entity).getD start) { last with scopes := last.scopes.tail }
          | .error error last => .error error { last with scopes := last.scopes.tail } := by
  obtain ⟨descriptor, start, described, placed, content, rfl⟩ := insideBlock?_eq_some.mp there
  have unfolded : evaluateBlock context name line attached body before =
      match before.startOf descriptor attached with
      | .ok start => inScope start body (before.noting descriptor attached)
      | .error kind => fail context line kind before := by
    rw [evaluateBlock, described]
    dsimp only
    rw [Running.get_bind, Running.bind_of_ok ((demand_eq_ok _ _ _).mpr ⟨placed, rfl⟩)]
    cases attached with
    | false => rfl
    | true =>
      rw [if_pos rfl, startOf, if_pos rfl]
      cases before.openAttached descriptor <;> rfl
  rcases startOf_of_contentOf content with started | ⟨kind, refused, duplicates⟩
  · obtain ⟨kind, whole⟩ := startOf_eq_ok started
    refine Or.inr ⟨descriptor, start, described, placed, kind, whole, rfl, ?_⟩
    rw [unfolded, started]
    dsimp only [inScope]
    generalize body _ = outcome
    cases outcome <;> rfl
  · refine Or.inl ⟨(CompileError.inFile (before.currentFile context) kind).atLine line, before, ?_, duplicates⟩
    rw [unfolded, refused]
    rfl

variable {scope : Scope} {outer : List Scope}

/-- What a finished block assigned is apart in the block around it, unless the name of the block is used
there. -/
theorem Apart.around {start : Entity} {log : List Assigned} (apart : Apart (.opening start) log)
    (other : start.kind ≠ .application) (plain : DottedName.isDotted name = false)
    (fresh : scope.entity.kind = .application ∧ name = Entity.serviceSlot ∨ name ∉ scope.used) :
    Apart scope (log.map (Assigned.inside name)) := by
  constructor
  · intro assigned member
    obtain ⟨inner, _, rfl⟩ := List.mem_map.mp member
    refine ⟨plain, fresh.imp (fun service => ⟨service.1, ?_⟩) id⟩
    exact congrArg some service.2
  · rw [List.pairwise_map]
    exact apart.lawful.imp fun lawful => lawful.inside other _ _

/-- To put a finished block into the open one is refused where its name is used, unless it is one more
service. -/
theorem attach_accounts (whole : scope.Sound) (open' : before.scopes = scope :: outer) (line : Nat)
    {finished start : Entity} {log : List Assigned} (apart : Apart (.opening start) log)
    (other : start.kind ≠ .application) :
    Accounts scope outer (log.map (Assigned.inside finished.kind.elementName))
      (attach context line finished before) := by
  have plain := finished.kind.isDotted_elementName
  have refused : (scope.entity.kind = .application ∧ finished.kind.elementName = Entity.serviceSlot ∨
        finished.kind.elementName ∉ scope.used) ∨
      scope.entity.bindEntity scope.used finished = .error (.duplicateProperty finished.kind.elementName) := by
    by_cases repeatable : Entity.isRepeatable scope.entity.kind finished.kind = true
    · obtain ⟨application, service⟩ : scope.entity.kind = .application ∧ finished.kind = .service := by
        simpa [Entity.isRepeatable] using repeatable
      exact Or.inl (Or.inl ⟨application, congrArg EntityKind.elementName service⟩)
    · by_cases there : finished.kind.elementName ∈ scope.used
      · have writable := whole.used _ there
        rw [DottedName.head_of_not_dotted plain] at writable
        exact Or.inr (Entity.bindEntity_of_used (by simpa using repeatable) writable there)
      · exact Or.inl (Or.inr there)
  cases given : scope.entity.bindEntity scope.used finished with
  | error kind =>
    have run : attach context line finished before =
        .error ((CompileError.inFile (before.currentFile context) kind).atLine line) before := by
      rw [attach, Running.get_bind, open']
      dsimp only
      rw [given]
      rfl
    rw [run]
    rcases refused with fresh | duplicate
    · exact Or.inr (apart.around other plain fresh)
    · rw [given] at duplicate
      obtain rfl := Except.error.inj duplicate
      exact Or.inl (Or.inl ⟨_, rfl⟩)
  | ok pair =>
    obtain ⟨changed, more⟩ := pair
    have fresh := refused.resolve_right (by simp [given])
    obtain ⟨set, rfl⟩ := Entity.bindEntity_eq_ok given
    rw [(attach_eq_ok line finished).mpr (Or.inr ⟨scope, outer, changed, _, open', given, rfl⟩)]
    have assigns := Entity.setProperty_assigns whole.kept set
    rw [← DottedName.head_of_not_dotted plain] at set
    refine ⟨apart.around other plain fresh, _, rfl, whole.assigned set, assigns.kind, UsedNames.subset_add _ _, ?_⟩
    intro assigned member
    obtain ⟨inner, _, rfl⟩ := List.mem_map.mp member
    exact UsedNames.mem_add.mpr (Or.inl rfl)

/-- A block in the open one assigns there what is assigned inside it. -/
theorem block_accounts (whole : scope.Sound) (open' : before.scopes = scope :: outer) (line : Nat)
    {log : Evaluation → List Assigned}
    (accounts : ∀ start inside outer, inside.scopes = .opening start :: outer → start.Kept →
      Accounts (.opening start) outer (log inside) (body inside)) :
    Accounts scope outer
      (match before.insideBlock? name true with
        | none => []
        | some inside =>
          match body inside with
          | .ok _ _ => (log inside).map (Assigned.inside name)
          | .error _ _ => [])
      ((evaluateBlock context name line true body >>= attach context line) before) := by
  cases there : before.insideBlock? name true with
  | none =>
    refine .of_ne_ok fun after run => ?_
    obtain ⟨finished, between, evaluated, _⟩ := (Running.bind_eq_ok _ _ _ _ _).mp run
    exact evaluateBlock_of_none there finished evaluated
  | some inside =>
    rcases evaluateBlock_of_some context line body there with ⟨error, last, refused, duplicates⟩ |
      ⟨descriptor, start, described, placed, kind, kept, scopes, evaluated⟩
    · rw [Running.bind_of_error refused]
      exact Or.inl duplicates
    · obtain ⟨exclusive, noted⟩ := noting_scopes open' descriptor true
      rw [noted] at scopes
      have inner := accounts start inside _ scopes kept
      dsimp only
      cases ran : body inside with
      | error error last =>
        rw [ran] at evaluated
        rw [Running.bind_of_error evaluated]
        exact Or.inr (.nil scope)
      | ok _ last =>
        rw [ran] at evaluated inner
        rw [Running.bind_of_ok evaluated]
        obtain ⟨apart, changed, ends, becomes⟩ := inner
        obtain ⟨member, same⟩ := Registry.describe?_eq_some described
        have other := kind ▸ EntityKind.kind_of_placed member (checkPlacement_of_checkPlace open' placed)
        have named : changed.entity.kind.elementName = name := by
          rw [becomes.kind, ← same, Descriptor.elementName, ← kind]
          rfl
        have noting : Becomes scope { scope with exclusive } [] :=
          ⟨⟨whole.kept, whole.used⟩, rfl, fun _ => id, by simp⟩
        refine .append (.nil scope) noting ?_
        simp only [ends, List.tail_cons, List.head?_cons, Option.map_some, Option.getD_some]
        rw [← named]
        exact attach_accounts noting.sound rfl line apart other

end Blocks

/-- Fragments that a file leads to account for the assignments that are listed for them. -/
def Recounts (deeper : Deeper) (inner : RecipeContext → List Declaration → Evaluation → List Assigned) : Prop :=
  ∀ context declarations inside scope outer, inside.scopes = scope :: outer → scope.Sound →
    Accounts scope outer (inner context declarations inside) (deeper.declarations context declarations inside)

mutual

theorem evaluateStatement_accounts {depth : Nat}
    {inner : RecipeContext → List Declaration → Evaluation → List Assigned}
    (recounts : Recounts (Deeper.upTo depth) inner) (declaration : Declaration) {before : Evaluation}
    {scope : Scope} {outer : List Scope} (whole : scope.Sound) (open' : before.scopes = scope :: outer) :
    Accounts scope outer (assignedStatement depth inner context declaration before)
      (evaluateStatement (Deeper.upTo depth) context declaration before) := by
  cases declaration with
  | mk name line body =>
    have accounts := evaluateBody_accounts recounts name line body whole open'
    rw [assignedStatement, evaluateStatement]
    cases ran : evaluateBody (Deeper.upTo depth) context name line body before with
    | error error last =>
      rw [ran] at accounts
      rw [Running.bind_of_error ran]
      exact accounts
    | ok _ between =>
      rw [ran] at accounts
      rw [Running.bind_of_ok ran, ← List.append_nil (assignedBody _ _ _ _ _ _ _)]
      obtain ⟨apart, changed, scopes, becomes⟩ := accounts
      exact .append apart becomes (countDeclaration_accounts becomes.sound scopes)
termination_by structural declaration

theorem evaluateBody_accounts {depth : Nat}
    {inner : RecipeContext → List Declaration → Evaluation → List Assigned}
    (recounts : Recounts (Deeper.upTo depth) inner) (name : String) (line : Nat) (body : Body)
    {before : Evaluation} {scope : Scope} {outer : List Scope} (whole : scope.Sound)
    (open' : before.scopes = scope :: outer) :
    Accounts scope outer (assignedBody depth inner context name line body before)
      (evaluateBody (Deeper.upTo depth) context name line body before) := by
  have sound := Deeper.upTo_sound depth
  cases body with
  | block declarations =>
    rw [assignedBody, evaluateBody]
    exact block_accounts whole open' line fun start inside outer scopes kept =>
      evaluateStatements_accounts recounts declarations (Scope.sound_opening kept) scopes
  | arguments expressions =>
    rw [assignedBody, evaluateBody]
    by_cases extend : name = extendWord
    · rw [if_pos extend, if_pos extend]
      exact extendBase_accounts whole open' sound line expressions
    · rw [if_neg extend, if_neg extend]
      by_cases load : name = loadWord
      · rw [if_pos load, if_pos load]
        exact splice_accounts whole open' sound (recounts context) line expressions
      · rw [if_neg load, if_neg load]
        cases evaluated : evaluateItems (Deeper.upTo depth) context line expressions before with
        | error error last =>
          rw [Running.bind_of_error evaluated]
          exact Or.inr (.nil scope)
        | ok values between =>
          rw [Running.bind_of_ok evaluated]
          have there := (evaluateItems_leaves sound expressions evaluated).scopes.trans open'
          exact assign_accounts whole there sound line name values
  | assignment expression =>
    rw [assignedBody, evaluateBody]
    cases evaluated : evaluate (Deeper.upTo depth) context line expression before with
    | error error last =>
      rw [Running.bind_of_error evaluated]
      exact Or.inr (.nil scope)
    | ok value between =>
      rw [Running.bind_of_ok evaluated]
      have there := (evaluate_leaves sound expression evaluated).scopes.trans open'
      exact assign_accounts whole there sound line name [value]
termination_by structural body

theorem evaluateStatements_accounts {depth : Nat}
    {inner : RecipeContext → List Declaration → Evaluation → List Assigned}
    (recounts : Recounts (Deeper.upTo depth) inner) (declarations : List Declaration) {before : Evaluation}
    {scope : Scope} {outer : List Scope} (whole : scope.Sound) (open' : before.scopes = scope :: outer) :
    Accounts scope outer (assignedStatements depth inner context declarations before)
      (evaluateStatements (Deeper.upTo depth) context declarations before) := by
  cases declarations with
  | nil =>
    rw [assignedStatements, evaluateStatements]
    exact .of_replaced fun after run =>
      ⟨scope, ((Running.pure_eq_ok _ _ _ _).mp run).2 ▸ open', whole, rfl, rfl⟩
  | cons first rest =>
    have accounts := evaluateStatement_accounts recounts first whole open'
    rw [assignedStatements, evaluateStatements]
    cases ran : evaluateStatement (Deeper.upTo depth) context first before with
    | error error last =>
      rw [ran] at accounts
      rw [Running.bind_of_error ran]
      exact accounts
    | ok _ between =>
      rw [ran] at accounts
      rw [Running.bind_of_ok ran]
      obtain ⟨apart, changed, scopes, becomes⟩ := accounts
      exact .append apart becomes (evaluateStatements_accounts recounts rest becomes.sound scopes)
termination_by structural declarations

end

/-- In an open block it makes no difference whether declarations are evaluated in place. -/
theorem forM_evaluateInPlace_eq (sound : deeper.Sound) (declarations : List Declaration) {before : Evaluation}
    (inside : before.scopes ≠ []) :
    declarations.forM (evaluateInPlace deeper context) before =
      evaluateStatements deeper context declarations before := by
  induction declarations generalizing before with
  | nil =>
    rw [evaluateStatements]
    rfl
  | cons first rest inductionHypothesis =>
    rw [evaluateStatements]
    change (evaluateInPlace deeper context first >>= fun _ => rest.forM (evaluateInPlace deeper context)) before = _
    have same : evaluateInPlace deeper context first before = _ := evaluateInPlace_inside inside first
    cases ran : evaluateStatement deeper context first before with
    | error error last =>
      rw [Running.bind_of_error ran, Running.bind_of_error (same.trans ran)]
    | ok _ between =>
      have stays := mt (evaluateStatement_runs sound first ran).blocks.eq_nil_iff.mp inside
      rw [Running.bind_of_ok ran, Running.bind_of_ok (same.trans ran)]
      exact inductionHypothesis stays

/-- However deep files lead to files, what is evaluated in an open block accounts for its assignments. -/
theorem assigned_accounts (depth : Nat) (context : RecipeContext) (declarations : List Declaration)
    {before : Evaluation} {scope : Scope} {outer : List Scope} (whole : scope.Sound)
    (open' : before.scopes = scope :: outer) :
    Accounts scope outer (assigned depth context declarations before)
      (evaluateStatements (Deeper.upTo depth) context declarations before) := by
  induction depth generalizing context declarations before scope outer with
  | zero =>
    refine evaluateStatements_accounts ?_ declarations whole open'
    intro _ _ _ _ _ _ _
    exact .of_ne_ok fun _ run => Running.throw_ne_ok _ _ _ _ run
  | succ depth inductionHypothesis =>
    refine evaluateStatements_accounts ?_ declarations whole open'
    intro context declarations inside scope outer scopes whole
    change Accounts scope outer _ (declarations.forM (evaluateInPlace (Deeper.upTo depth) context) inside)
    rw [forM_evaluateInPlace_eq (Deeper.upTo_sound depth) declarations (by simp [scopes])]
    exact inductionHypothesis context declarations whole scopes

/-- No property is assigned twice in a block: where a block is evaluated to its end, no path that is assigned
leads through another one, and a block in which one would is refused because of a duplicate. Only a block
inside it may go over what a dotted name assigned before, and an application takes any number of
services. -/
theorem evaluateBlock_apart (depth : Nat) (context : RecipeContext) (name : String) (line : Nat)
    (attached : Bool) (declarations : List Declaration) (descriptor : Descriptor)
    (described : Registry.describe? name = some descriptor) (before : Evaluation) :
    let run := evaluateBlock context name line attached
      (evaluateStatements (Deeper.upTo depth) context declarations) before
    let log := assignedInBlock depth context name attached declarations before
    (∀ finished after, run = .ok finished after → log.Pairwise (Assigned.Lawful descriptor.kind)) ∧
      (¬ log.Pairwise (Assigned.Lawful descriptor.kind) →
        ∃ error after, run = .error error after ∧ error.kind.Duplicates) := by
  intro run log
  cases there : before.insideBlock? name attached with
  | none =>
    have nothing : log = [] := by simp only [log, assignedInBlock, there]
    rw [nothing]
    exact ⟨fun _ _ _ => .nil, fun some => absurd .nil some⟩
  | some inside =>
    have listed : log = assigned depth context declarations inside := by simp only [log, assignedInBlock, there]
    rcases evaluateBlock_of_some context line (evaluateStatements (Deeper.upTo depth) context declarations) there
      with ⟨error, last, refused, duplicates⟩ | ⟨_, start, described', _, kind, kept, scopes, evaluated⟩
    · refine ⟨fun finished after ended => ?_, fun _ => ⟨error, last, refused, duplicates⟩⟩
      exact absurd (refused.symm.trans ended) (by simp)
    · obtain rfl := Option.some.inj (described.symm.trans described')
      have accounts := assigned_accounts depth context declarations (Scope.sound_opening kept) scopes
      rw [← listed] at accounts
      rw [← kind]
      cases ran : evaluateStatements (Deeper.upTo depth) context declarations inside with
      | ok _ last =>
        rw [ran] at accounts
        exact ⟨fun _ _ _ => accounts.1.lawful, fun unlawful => absurd accounts.1.lawful unlawful⟩
      | error error last =>
        rw [ran] at accounts evaluated
        refine ⟨fun finished after ended => ?_, fun unlawful => ⟨error, _, evaluated, ?_⟩⟩
        · exact absurd (evaluated.symm.trans ended) (by simp)
        · exact accounts.resolve_right fun apart => unlawful apart.lawful

/-- A service that mixes the forms, and one in which a dotted name follows the block that it leads into. -/
theorem evaluateBlock_apart_mixed :
    let context : RecipeContext := ⟨.plain ⟨[], []⟩ .standard, ⟨"/web-service.recipe"⟩, .empty⟩
    let script (name file : String) : Declaration := .mk name 1 (.arguments [.text file])
    let mixed := [script "name" "web", script "lifecycle.init" "a.sh",
      .mk "lifecycle" 2 (.block [script "start" "b.sh"])]
    let twice := [.mk "lifecycle" 1 (.block [script "init" "a.sh"]), script "lifecycle.init" "b.sh"]
    let run := fun declarations => evaluateBlock context "service" 1 true
      (evaluateStatements (Deeper.upTo 0) context declarations) (start .empty)
    let log := fun declarations => assignedInBlock 0 context "service" true declarations (start .empty)
    ((log mixed).map Assigned.path = ["name", "lifecycle.init", "lifecycle.start"] ∧
      (∃ finished after, run mixed = .ok finished after) ∧
      (log mixed).Pairwise (Assigned.Lawful .service)) ∧
    (log twice).map Assigned.path = ["lifecycle.init", "lifecycle.init"] ∧
      ∃ error after, run twice = .error error after ∧ error.kind.Duplicates := by
  intro context script mixed twice run log
  have paths : (log mixed).map Assigned.path = ["name", "lifecycle.init", "lifecycle.start"] := by decide +kernel
  have entries : log twice = [⟨["lifecycle"], "init"⟩, ⟨[], "lifecycle.init"⟩] := by decide +kernel
  have ends : ∃ finished after, run mixed = .ok finished after := ⟨_, _, rfl⟩
  have law := evaluateBlock_apart 0 context "service" 1 true
  obtain ⟨finished, after, ended⟩ := ends
  refine ⟨⟨paths, ⟨finished, after, ended⟩, (law mixed _ rfl (start .empty)).1 finished after ended⟩,
    by rw [entries]; decide, (law twice _ rfl (start .empty)).2 ?_⟩
  change ¬ (log twice).Pairwise (Assigned.Lawful .service)
  rw [entries]
  intro lawful
  have overlaps := (List.pairwise_cons.mp lawful).1 _ List.mem_cons_self (by decide)
  rcases overlaps with ⟨_, _, same, _⟩ | ⟨application, _⟩
  · cases same
  · cases application

/-- A dotted name and then the block that it leads into give the same property a value, and the second one
stays. -/
theorem evaluateBlock_apart_refilled :
    let context : RecipeContext := ⟨.plain ⟨[], []⟩ .standard, ⟨"/web-service.recipe"⟩, .empty⟩
    let script (name file : String) : Declaration := .mk name 1 (.arguments [.text file])
    let declarations := [script "lifecycle.init" "a.sh", .mk "lifecycle" 2 (.block [script "init" "b.sh"])]
    (assignedInBlock 0 context "service" true declarations (start .empty)).map Assigned.path =
        ["lifecycle.init", "lifecycle.init"] ∧
      ∃ finished after, evaluateBlock context "service" 1 true
          (evaluateStatements (Deeper.upTo 0) context declarations) (start .empty) = .ok finished after ∧
        finished.at? "lifecycle.init" = some (.text "b.sh") := by
  refine ⟨by decide +kernel, _, _, rfl, rfl⟩

end Evaluation

end DeployRecipe
