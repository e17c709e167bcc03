import DeployRecipe.Proofs.Compilation.Declarations
import DeployRecipe.Proofs.Compilation.Surroundings
import DeployRecipe.Proofs.Entity.Separate

/-!
The same declarations in two blocks that were given values for different names. As long as the declarations come
to none of these names, they give the same values to all others in both blocks.
-/

namespace DeployRecipe

open Running

namespace Evaluation

/-- The block inside of others is not directly inside of an application. -/
def OutsideApplication (outer : List Scope) : Prop :=
  ∀ parent ∈ outer.head?, parent.entity.kind ≠ .application

/-- No service is loaded outside of applications. -/
theorem OutsideApplication.loadService_eq_ok {outer : List Scope} (outside : OutsideApplication outer)
    {before after : Evaluation} {scope : Scope} (opened : before.scopes = scope :: outer) {deeper : Deeper}
    {context : RecipeContext} {line : Nat} :
    loadService deeper context line before = .ok () after ↔ after = before := by
  have nowhere : before.serviceDirectory? context = none := by
    cases outer with
    | nil => simp [serviceDirectory?, opened]
    | cons parent around =>
      have ordinary := outside parent rfl
      cases around <;> simp [serviceDirectory?, opened, ordinary]
  simp [Evaluation.loadService_eq_ok, nowhere]

end Evaluation

/-- The names that were given values in only one of two blocks, and the values that the blocks hold under them. -/
structure Pending where
  ours : List String
  theirs : List String
  here : Entity
  there : Entity

namespace Pending

/-- No name has a dot. -/
def Plain (pending : Pending) : Prop :=
  ∀ name, name ∈ pending.ours ∨ name ∈ pending.theirs → DottedName.isDotted name = false

/-- Two blocks that differ by what is pending. -/
structure Apart (pending : Pending) (scope other : Scope) : Prop where
  kept : scope.entity.Kept
  kept' : other.entity.Kept
  kind : other.entity.kind = scope.entity.kind
  ordinary : scope.entity.kind ≠ .application
  others : ∀ name, name ∉ pending.ours → name ∉ pending.theirs →
    other.entity.property? name = scope.entity.property? name
  here : ∀ name, name ∈ pending.ours ∨ name ∈ pending.theirs →
    scope.entity.property? name = pending.here.property? name
  there : ∀ name, name ∈ pending.ours ∨ name ∈ pending.theirs →
    other.entity.property? name = pending.there.property? name
  ours : pending.ours ⊆ scope.used
  /-- The other block may still give values to the names that are ours. -/
  free : ∀ name ∈ pending.ours, other.used.covers name = false
  used : ∀ name ∈ other.used, name ∉ pending.theirs → name ∈ scope.used
  position : other.position = scope.position
  counted : scope.position ≠ 0
  exclusive : other.exclusive = scope.exclusive

/-- The names that are theirs may still be given values. -/
def Allows (pending : Pending) (used : UsedNames) : Prop :=
  ∀ name ∈ pending.theirs, used.covers name = false

theorem Allows.of_subset {pending : Pending} {used more : UsedNames} (allows : pending.Allows more)
    (grown : used ⊆ more) : pending.Allows used := by
  intro name theirs
  have free := UsedNames.covers_eq_false_iff.mp (allows name theirs)
  exact UsedNames.covers_eq_false_iff.mpr fun other member => free other (grown member)

namespace Apart

variable {pending : Pending} {scope other : Scope} (apart : pending.Apart scope other)
include apart

theorem alikeAt {name : String} (ours : name ∉ pending.ours) (theirs : name ∉ pending.theirs) :
    Entity.AlikeAt name scope.entity other.entity :=
  ⟨apart.kept, apart.kept', apart.kind, apart.ordinary, apart.others name ours theirs⟩

theorem count : pending.Apart { scope with position := scope.position + 1 }
    { other with position := other.position + 1 } :=
  { apart with position := congrArg (· + 1) apart.position, counted := Nat.succ_ne_zero _ }

theorem noteFamily (descriptor : Descriptor) :
    pending.Apart (Evaluation.noteFamily descriptor scope) (Evaluation.noteFamily descriptor other) := by
  rw [Evaluation.noteFamily, Evaluation.noteFamily]
  cases descriptor.family with
  | none => exact apart
  | some family => exact { apart with exclusive := rfl }

/-- A block that is opened in them under another name starts with the same. -/
theorem openAttached {descriptor : Descriptor} (ours : descriptor.elementName ∉ pending.ours)
    (theirs : descriptor.elementName ∉ pending.theirs) (state : Evaluation) (session : Session) (outer : List Scope) :
    { state with session, scopes := other :: outer }.openAttached descriptor =
      { state with scopes := scope :: outer }.openAttached descriptor := by
  have ordinary' : other.entity.kind ≠ .application := apart.kind ▸ apart.ordinary
  have family : Evaluation.checkFamily other descriptor = Evaluation.checkFamily scope descriptor := by
    rw [Evaluation.checkFamily, Evaluation.checkFamily, apart.exclusive]
  have content : Evaluation.inheritedContent other descriptor = Evaluation.inheritedContent scope descriptor := by
    rw [Entity.inheritedContent_eq_opened ordinary' rfl, Entity.inheritedContent_eq_opened apart.ordinary rfl,
      (apart.alikeAt ours theirs).opened]
  rw [Evaluation.openAttached, Evaluation.openAttached]
  simp only [family, content]

/-- The blocks differ by the same after both give a value to one more name. -/
theorem assigned {name property : String} {changed changed' : Entity}
    (assigns : scope.entity.Assigns property changed) (assigns' : other.entity.Assigns property changed')
    (same : changed'.property? property = changed.property? property) (ours : property ∉ pending.ours)
    (theirs : property ∉ pending.theirs) (clear : ∀ own ∈ pending.ours, ¬ DottedName.Overlaps name own) :
    pending.Apart { scope with entity := changed, used := scope.used.add name }
      { other with entity := changed', used := other.used.add name } := by
  have ordinary' : other.entity.kind ≠ .application := apart.kind ▸ apart.ordinary
  have stays {place : String} (differs : place ≠ property) := (assigns.alikeAt apart.kept apart.ordinary differs).same
  have stays' {place : String} (differs : place ≠ property) := (assigns'.alikeAt apart.kept' ordinary' differs).same
  have elsewhere {place : String} (pending' : place ∈ pending.ours ∨ place ∈ pending.theirs) : place ≠ property := by
    rintro rfl
    exact pending'.elim ours theirs
  exact {
    apart with
    kept := assigns.kept
    kept' := assigns'.kept
    kind := assigns'.kind.trans (apart.kind.trans assigns.kind.symm)
    ordinary := assigns.kind ▸ apart.ordinary
    others := fun place ours theirs => by
      by_cases here : place = property
      · subst here
        exact same
      · exact (stays' here).trans ((apart.others place ours theirs).trans (stays here).symm)
    here := fun place pending' => (stays (elsewhere pending')).trans (apart.here place pending')
    there := fun place pending' => (stays' (elsewhere pending')).trans (apart.there place pending')
    ours := fun _ own => UsedNames.subset_add _ _ (apart.ours own)
    free := fun own member => UsedNames.covers_add.mpr ⟨clear own member, apart.free own member⟩
    used := fun place member theirs => by
      rcases UsedNames.mem_add.mp member with rfl | before
      · exact UsedNames.mem_add.mpr (.inl rfl)
      · exact UsedNames.subset_add _ _ (apart.used place before theirs) }

/-- The name under which a block may be given a value is free in the other block too. -/
theorem covers_eq_false {name : String} (free : scope.used.covers name = false)
    (away : ∀ their ∈ pending.theirs, ¬ DottedName.Overlaps name their) : other.used.covers name = false := by
  refine UsedNames.covers_eq_false_iff.mpr fun place member overlaps => ?_
  by_cases their : place ∈ pending.theirs
  · exact away place their (DottedName.overlaps_comm.mp overlaps)
  · exact UsedNames.covers_eq_false_iff.mp free place (apart.used place member their) overlaps

/-- What one block takes as values of a name, the other one takes too. -/
theorem bound (plain : pending.Plain) {name : String} {values : List Value} {changed : Entity} {used : UsedNames}
    (success : Evaluation.bound scope name values = .ok (changed, used)) (allows : pending.Allows used) :
    ∃ changed' used', Evaluation.bound other name values = .ok (changed', used') ∧
      pending.Apart { scope with entity := changed, used } { other with entity := changed', used := used' } := by
  obtain ⟨value, single, free, assigned, rfl⟩ := Evaluation.bound_eq_ok_iff.mp success
  have clear (own : String) (member : own ∈ pending.ours) : ¬ DottedName.Overlaps name own := fun overlaps =>
    UsedNames.covers_eq_false_iff.mp free own (apart.ours member) (DottedName.overlaps_comm.mp overlaps)
  have away (their : String) (member : their ∈ pending.theirs) : ¬ DottedName.Overlaps name their :=
    UsedNames.covers_eq_false_iff.mp (allows their member) name (UsedNames.mem_add.mpr (.inl rfl))
  have begins (pended : String) (member : pended ∈ pending.ours ∨ pended ∈ pending.theirs)
      (same : DottedName.head name = pended) : DottedName.Overlaps name pended :=
    DottedName.overlaps_comm.mp (DottedName.overlaps_of_head_eq (plain pended member) same)
  have ours : DottedName.head name ∉ pending.ours := fun member =>
    clear _ member (begins _ (.inl member) rfl)
  have theirs : DottedName.head name ∉ pending.theirs := fun member =>
    away _ member (begins _ (.inr member) rfl)
  obtain ⟨rest, segments⟩ : ∃ rest, DottedName.segments name = DottedName.head name :: rest := by
    rcases DottedName.segments_cases name with ⟨parts, same⟩ | ⟨next, rest, parts⟩
    · exact ⟨[], by rw [parts, same]⟩
    · exact ⟨next :: rest, parts⟩
  rw [segments] at assigned
  obtain ⟨changed', assigned', same⟩ := (apart.alikeAt ours theirs).assignPath assigned
  refine ⟨changed', _, Evaluation.bound_eq_ok_iff.mpr ⟨value, apart.kind ▸ single, apart.covers_eq_false free away,
    segments ▸ assigned', rfl⟩, ?_⟩
  exact apart.assigned (Entity.assignPath_assigns apart.kept assigned) (Entity.assignPath_assigns apart.kept' assigned')
    same ours theirs clear

/-- The block that is put into one block is put into the other one too. -/
theorem bindEntity (plain : pending.Plain) {child changed : Entity} {used : UsedNames}
    (success : scope.entity.bindEntity scope.used child = .ok (changed, used)) (allows : pending.Allows used) :
    (child.kind.elementName ∉ pending.ours ∧ child.kind.elementName ∉ pending.theirs) ∧
      ∃ changed' used', other.entity.bindEntity other.used child = .ok (changed', used') ∧
        pending.Apart { scope with entity := changed, used } { other with entity := changed', used := used' } := by
  obtain ⟨writable, free, set, rfl⟩ := (Entity.bindEntity_eq_ok_iff apart.ordinary).mp success
  have ours : child.kind.elementName ∉ pending.ours := fun member => free (apart.ours member)
  have theirs : child.kind.elementName ∉ pending.theirs := fun member =>
    UsedNames.covers_eq_false_iff.mp (allows _ member) _ (UsedNames.mem_add.mpr (.inl rfl)) (.inl rfl)
  have clear (own : String) (member : own ∈ pending.ours) : ¬ DottedName.Overlaps child.kind.elementName own :=
    DottedName.not_overlaps_of_ne (fun equal => ours (equal ▸ member)) child.kind.isDotted_elementName
      (plain own (.inl member))
  have alike := apart.alikeAt ours theirs
  obtain ⟨changed', set', same⟩ := alike.setProperty set
  have free' : child.kind.elementName ∉ other.used := fun member => free (apart.used _ member theirs)
  refine ⟨⟨ours, theirs⟩, changed', _, (Entity.bindEntity_eq_ok_iff (apart.kind ▸ apart.ordinary)).mpr
    ⟨alike.isWritable.trans writable, free', set', rfl⟩, ?_⟩
  exact apart.assigned (Entity.setProperty_assigns apart.kept set) (Entity.setProperty_assigns apart.kept' set') same
    ours theirs clear

end Apart

open Evaluation (Aside Elsewhere Exactly OutsideApplication)
open Session (View Both)

/-- A step that gives values to names of the open block, and that does the same in a block that differs by what is
pending if in the end the names that are theirs may still be given values. -/
def Tracks {α : Type} (pending : Pending) (files : FileTree) (step : Evaluating α) : Prop :=
  ∀ ⦃before value after scope outer⦄, before.scopes = scope :: outer → OutsideApplication outer →
    step before = .ok value after → ∃ changed, after.scopes = changed :: outer ∧ scope.used ⊆ changed.used ∧
      (pending.Allows changed.used → ∀ ⦃view other session⦄, pending.Apart scope other →
        Both files view before.session session → ∃ changed' session',
          step { before with session, scopes := other :: outer } =
            .ok value { after with session := session', scopes := changed' :: outer } ∧
          pending.Apart changed changed' ∧ Both files view after.session session')

namespace Tracks

variable {pending : Pending} {files : FileTree} {α β : Type}

theorem bind {step : Evaluating α} {next : α → Evaluating β} (head : pending.Tracks files step)
    (rest : ∀ value, pending.Tracks files (next value)) : pending.Tracks files (step >>= next) := by
  intro before value after scope outer opened outside run
  obtain ⟨given, between, one, two⟩ := (bind_eq_ok _ _ _ _ _).mp run
  obtain ⟨middle, opened', grown, first⟩ := head opened outside one
  obtain ⟨changed, done, grown', second⟩ := rest given opened' outside two
  refine ⟨changed, done, List.Subset.trans grown grown', fun allows view other session apart both => ?_⟩
  obtain ⟨middle', _, one', apart', both'⟩ := first (allows.of_subset grown') apart both
  obtain ⟨changed', session', two', last⟩ := second allows apart' both'
  exact ⟨changed', session', (bind_eq_ok _ _ _ _ _).mpr ⟨given, _, one', two'⟩, last⟩

/-- A step that leaves the open blocks as they are, whatever they hold. -/
theorem of_elsewhere {step : Evaluating α}
    (leaves : ∀ before value after, step before = .ok value after → after.scopes = before.scopes)
    (elsewhere : ∀ scopes others, Evaluation.kinds others = Evaluation.kinds scopes →
      Elsewhere files scopes others step) : pending.Tracks files step := by
  intro before value after scope outer opened outside run
  refine ⟨scope, (leaves _ _ _ run).trans opened, List.Subset.refl _, fun _ view other session apart both => ?_⟩
  have kinds := Evaluation.kinds_cons apart.kind outer
  have aside : Aside files view (Exactly (scope :: outer) (other :: outer)) before
      { before with session, scopes := other :: outer } := ⟨session, _, rfl, ⟨opened, rfl⟩, both⟩
  obtain ⟨_, run', session', _, rfl, ⟨_, rfl⟩, both'⟩ := elsewhere _ _ kinds view aside run
  exact ⟨other, session', run', apart, both'⟩

theorem pure (value : α) : pending.Tracks files (Pure.pure value) := by
  intro before _ after scope outer opened _ run
  obtain ⟨rfl, rfl⟩ := (pure_eq_ok _ _ _ _).mp run
  exact ⟨scope, opened, List.Subset.refl _, fun _ view other session apart both => ⟨other, session, rfl, apart, both⟩⟩

theorem count : pending.Tracks files Evaluation.countDeclaration := by
  rintro ⟨_, _, _, _, _⟩ _ after scope outer rfl _ run
  obtain rfl := (modify_eq_ok _ _ _ _).mp run
  exact ⟨_, rfl, List.Subset.refl _, fun _ view other session apart both => ⟨_, session, rfl, apart.count, both⟩⟩

theorem bindName {context : RecipeContext} (plain : pending.Plain) (line : Nat) (name : String) (values : List Value) :
    pending.Tracks files (Evaluation.bindName context line name values) := by
  intro before _ after scope outer opened _ run
  obtain ⟨_, _, changed, used, opened', bound, rfl⟩ := (Evaluation.bindName_eq_ok _ _ _).mp run
  obtain ⟨rfl, rfl⟩ := List.cons.inj (opened.symm.trans opened')
  have grown : scope.used ⊆ used := by
    obtain ⟨_, _, _, _, rfl⟩ := Evaluation.bound_eq_ok_iff.mp bound
    exact UsedNames.subset_add _ _
  refine ⟨_, rfl, grown, fun allows view other session apart both => ?_⟩
  obtain ⟨changed', used', bound', apart'⟩ := apart.bound plain bound allows
  exact ⟨_, session, (Evaluation.bindName_eq_ok _ _ _).mpr ⟨other, outer, changed', used', rfl, bound', rfl⟩, apart',
    both⟩

section Blocks

variable {context : RecipeContext} (proper : files.Proper) (fits : context.job.files = files) (plain : pending.Plain)
include proper fits

include plain in
theorem attached (depth : Nat) (name : String) (line : Nat) (declarations : List Declaration) :
    pending.Tracks files (Evaluation.evaluateBlock context name line true
      (Evaluation.evaluateStatements (Deeper.upTo depth) context declarations) >>= Evaluation.attach context line) := by
  rintro ⟨own, fragments, locals, _, root⟩ _ after scope outer rfl _ run
  obtain ⟨finished, between, evaluated, attached⟩ := (bind_eq_ok _ _ _ _ _).mp run
  obtain ⟨descriptor, start, described, placed, started, running⟩ :=
    (Evaluation.evaluateBlock_eq_ok _ _ _ _ _).mp evaluated
  obtain ⟨_, described', _, made, same, _⟩ := Evaluation.evaluateBlock_finishes
    (fun _ _ => Evaluation.evaluateStatements_runs (Deeper.upTo_sound depth) declarations) evaluated
  obtain rfl := Option.some.inj (described.symm.trans described')
  change between.scopes = Evaluation.noteFamily descriptor scope :: outer at same
  rcases (Evaluation.attach_eq_ok _ _).mp attached with ⟨nowhere, _⟩ | ⟨_, _, changed, used, opened, bound, rfl⟩
  · rw [same] at nowhere
    cases nowhere
  obtain ⟨rfl, rfl⟩ := List.cons.inj (same.symm.trans opened)
  have grown : scope.used ⊆ used := by
    obtain ⟨_, rfl⟩ := Entity.bindEntity_eq_ok bound
    exact Evaluation.noteFamily_used descriptor scope ▸ UsedNames.subset_add _ _
  refine ⟨_, rfl, grown, fun allows view other session apart both => ?_⟩
  obtain ⟨⟨ours, theirs⟩, changed', used', bound', apart'⟩ := (apart.noteFamily descriptor).bindEntity plain bound allows
  have kinds := Evaluation.kinds_cons (apart.noteFamily descriptor).kind outer
  -- The block starts with the same, becomes the same, and is put into both.
  have inner ⦃scopes others : List Scope⦄ (exactly : Exactly (Evaluation.noteFamily descriptor scope :: outer)
      (Evaluation.noteFamily descriptor other :: outer) scopes others) :=
    (Evaluation.surroundings_closed proper).evaluateStatements (Evaluation.surroundings_reaches proper depth) fits
      declarations view (Evaluation.Beneath scopes others) (.beneath (exactly.1 ▸ exactly.2 ▸ kinds))
  have aside : Aside files view (Exactly (Evaluation.noteFamily descriptor scope :: outer)
      (Evaluation.noteFamily descriptor other :: outer))
      ⟨own, fragments, locals, Evaluation.noteFamily descriptor scope :: outer, root⟩
      ⟨session, fragments, locals, Evaluation.noteFamily descriptor other :: outer, root⟩ :=
    ⟨session, _, rfl, ⟨rfl, rfl⟩, both⟩
  obtain ⟨_, running', session', _, rfl, ⟨_, rfl⟩, both'⟩ := Evaluation.inScope_aside start inner aside running
  have around := Evaluation.kinds_cons apart.kind outer
  rw [made] at ours theirs
  have started' : Evaluation.startOf ⟨session, fragments, locals, other :: outer, root⟩ descriptor true = .ok start :=
    (apart.openAttached ours theirs ⟨own, fragments, locals, scope :: outer, root⟩ session outer).trans started
  have placed' := (Evaluation.checkPlace_of_kinds around session descriptor true).trans placed
  have evaluated' : Evaluation.evaluateBlock context name line true _ _ = .ok finished _ :=
    (Evaluation.evaluateBlock_eq_ok _ _ _ _ _).mpr ⟨descriptor, start, described, placed', started', running'⟩
  exact ⟨_, session', (bind_eq_ok _ _ _ _ _).mpr ⟨finished, _, evaluated', (Evaluation.attach_eq_ok _ _).mpr
    (.inr ⟨_, outer, changed', used', rfl, bound', rfl⟩)⟩, apart', both'⟩

omit proper fits in
theorem loadService (deeper : Deeper) (line : Nat) :
    pending.Tracks files (Evaluation.loadService deeper context line) := by
  intro before _ after scope outer opened outside run
  obtain rfl := (OutsideApplication.loadService_eq_ok outside opened).mp run
  exact ⟨scope, opened, List.Subset.refl _, fun _ view other session apart both =>
    ⟨other, session, (OutsideApplication.loadService_eq_ok outside rfl).mpr rfl, apart, both⟩⟩

omit proper fits in
include plain in
theorem assign (deeper : Deeper) (line : Nat) (name : String) (values : List Value) :
    pending.Tracks files (Evaluation.assign deeper context line name values) := by
  refine (bindName plain line name values).bind fun _ => ?_
  split
  · exact loadService deeper line
  · exact pure ()

theorem items (depth line : Nat) (expressions : List Expression) :
    pending.Tracks files (Evaluation.evaluateItems (Deeper.upTo depth) context line expressions) :=
  of_elsewhere (fun _ _ _ run => (Evaluation.evaluateItems_leaves (Deeper.upTo_sound depth) expressions run).scopes)
    fun _ _ same => Evaluation.evaluateItems_elsewhere proper fits same
      (Evaluation.upTo_elsewhere proper fits same depth) line expressions

theorem expression (depth line : Nat) (expression : Expression) :
    pending.Tracks files (Evaluation.evaluate (Deeper.upTo depth) context line expression) :=
  of_elsewhere (fun _ _ _ run => (Evaluation.evaluate_leaves (Deeper.upTo_sound depth) expression run).scopes)
    fun _ _ same => Evaluation.evaluate_elsewhere proper fits same
      (Evaluation.upTo_elsewhere proper fits same depth) line expression

omit proper fits in
/-- A block that was given a value may not extend a base any more. -/
theorem extendBase {values : Evaluating (List Value)} (deeper : Deeper) (line : Nat)
    (evaluated : pending.Tracks files values) :
    pending.Tracks files (Evaluation.extendBase deeper context line values) := by
  intro before _ after scope outer opened outside run
  obtain ⟨kind, reference, between, path, base, compiled, extending, ready, _, _, _, rfl⟩ :=
    (Evaluation.extendBase_eq_ok _ _ _).mp run
  obtain ⟨_, _, _, opened', _, first⟩ := Evaluation.extendingKind_eq_ok extending
  obtain ⟨rfl, rfl⟩ := List.cons.inj (opened.symm.trans opened')
  obtain ⟨changed, opened'', grown, _⟩ := evaluated opened outside ready
  refine ⟨{ changed with entity := base.addBase path.text }, ?_, grown, fun _ _ _ _ apart => absurd first apart.counted⟩
  simp [Evaluation.extendedBy, Evaluation.mapInnermost, opened'']

theorem splice {values : Evaluating (List Value)} (depth line : Nat) (evaluated : pending.Tracks files values)
    (inner : ∀ declarations, pending.Tracks files ((Deeper.upTo depth).declarations context declarations)) :
    pending.Tracks files (Evaluation.splice (Deeper.upTo depth) context line values) := by
  intro before _ after scope outer opened outside run
  obtain ⟨relative, between, path, declarations, parsed, last, ready, named, free, parsing, ran, rfl⟩ :=
    (Evaluation.splice_eq_ok _ _ _).mp run
  obtain ⟨middle, opened', grown, first⟩ := evaluated opened outside ready
  obtain ⟨changed, opened'', grown', second⟩ :=
    inner declarations (show (between.entering path parsed).scopes = _ from opened') outside ran
  refine ⟨changed, opened'', List.Subset.trans grown grown', fun allows view other session apart both => ?_⟩
  obtain ⟨middle', session', ready', apart', shows', shows''⟩ := first (allows.of_subset grown') apart both
  subst fits
  obtain ⟨parsed', parsing', both'⟩ := Session.parseFile_both (FileTree.reads_of_canonical proper named.2)
    ⟨shows'.enter path, shows''.enter path⟩ parsing
  obtain ⟨changed', session'', ran', apart'', both''⟩ := second allows apart' both'
  exact ⟨changed', session''.leave, (Evaluation.splice_eq_ok _ _ _).mpr ⟨relative, _, path, declarations, parsed', _,
    ready', named, (shows'.isActive shows'' path).trans free, parsing', ran', rfl⟩, apart'', both''.1.leave,
    both''.2.leave⟩

section Declarations

variable {depth : Nat}
  (inner : ∀ declarations, pending.Tracks files ((Deeper.upTo depth).declarations context declarations))
include plain inner

theorem statement (declaration : Declaration) :
    pending.Tracks files (Evaluation.evaluateStatement (Deeper.upTo depth) context declaration) := by
  obtain ⟨name, line, body⟩ := declaration
  rw [Evaluation.evaluateStatement]
  refine bind ?_ fun _ => count
  cases body with
  | block declarations =>
    rw [Evaluation.evaluateBody]
    exact attached proper fits plain depth name line declarations
  | arguments expressions =>
    rw [Evaluation.evaluateBody]
    have values : pending.Tracks files (Evaluation.evaluateItems (Deeper.upTo depth) context line expressions) :=
      items proper fits depth line expressions
    split
    · exact extendBase _ line values
    · split
      · exact splice proper fits depth line values inner
      · exact values.bind fun given => assign plain _ line name given
  | assignment value =>
    rw [Evaluation.evaluateBody]
    exact (expression proper fits depth line value).bind fun given => assign plain _ line name [given]

theorem statements (declarations : List Declaration) :
    pending.Tracks files (Evaluation.evaluateStatements (Deeper.upTo depth) context declarations) := by
  induction declarations with
  | nil =>
    rw [Evaluation.evaluateStatements]
    exact pure ()
  | cons first rest inductionHypothesis =>
    rw [Evaluation.evaluateStatements]
    exact (statement proper fits plain inner first).bind fun _ => inductionHypothesis

theorem inPlace (declaration : Declaration) :
    pending.Tracks files (Evaluation.evaluateInPlace (Deeper.upTo depth) context declaration) := by
  intro before _ after scope outer opened outside run
  rw [Evaluation.evaluateInPlace_inside (by simp [opened])] at run
  obtain ⟨changed, opened', grown, follows⟩ := statement proper fits plain inner declaration opened outside run
  refine ⟨changed, opened', grown, fun allows view other session apart both => ?_⟩
  rw [Evaluation.evaluateInPlace_inside (List.cons_ne_nil other outer)]
  exact follows allows apart both

end Declarations

include plain in
theorem upTo (depth : Nat) (declarations : List Declaration) :
    pending.Tracks files ((Deeper.upTo depth).declarations context declarations) := by
  induction depth generalizing declarations with
  | zero =>
    intro _ _ _ _ _ _ _ run
    exact absurd run (throw_ne_ok _ _ _ _)
  | succ depth inductionHypothesis =>
    change pending.Tracks files (declarations.forM (Evaluation.evaluateInPlace (Deeper.upTo depth) context))
    induction declarations with
    | nil => exact pure ()
    | cons first rest later => exact (inPlace proper fits plain inductionHypothesis first).bind fun _ => later

include plain in
/-- The declarations of a block. -/
theorem body (depth : Nat) (declarations : List Declaration) :
    pending.Tracks files (Evaluation.evaluateStatements (Deeper.upTo depth) context declarations) :=
  statements proper fits plain (upTo proper fits plain depth) declarations

end Blocks

end Tracks

end Pending

end DeployRecipe
