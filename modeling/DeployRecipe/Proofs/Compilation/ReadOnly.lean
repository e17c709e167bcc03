import DeployRecipe.Proofs.Compilation.Extension
import DeployRecipe.Proofs.Compilation.Law
import DeployRecipe.Proofs.Entity.ReadOnly

/-!
What recipes may not assign. No block and no assignment of a recipe changes it, and a service gets the bases that
it extends, unless the recipe assigns services or templates as a whole.
-/

namespace DeployRecipe

namespace Event

/-- The path of the base, if one is extended. -/
def base? : Event → Option String
  | .extends _ base => some base.text
  | _ => none

/-- The base is one of the given ones, and what is assigned as a whole is assigned well. -/
def Honest (bases : List String) : Event → Prop
  | .extends _ base => base.text ∈ bases
  | .assigns name made => made.kind.AssignsGuarded name → made.Honest bases
  | _ => True

instance (bases : List String) (event : Event) : Decidable (event.Honest bases) :=
  match event with
  | .extends _ _ => inferInstanceAs (Decidable (_ ∈ bases))
  | .assigns _ _ => inferInstanceAs (Decidable (_ → _))
  | .loads _ | .names _ => inferInstanceAs (Decidable True)

end Event

/-- An entity that is kept and honest. -/
structure Entity.Untouched (bases : List String) (entity : Entity) : Prop where
  kept : entity.Kept
  honest : entity.Honest bases

namespace Evaluation

/-- All open blocks and the root are untouched. -/
structure Untouched (bases : List String) (state : Evaluation) : Prop where
  scopes : ∀ scope ∈ state.scopes, scope.entity.Untouched bases
  root : ∀ root ∈ state.root, root.Untouched bases

/-- Every step leaves what recipes may not assign, if its events are honest. -/
def honesty (bases : List String) : Judgement where
  holds _ one _ events := ∀ before value after, one before = .ok value after → before.Untouched bases →
    (∀ event ∈ events before, event.Honest bases) → after.Untouched bases
  holdsRecipe one _ events := ∀ before root after, one before = .ok root after →
    (∀ event ∈ events before, event.Honest bases) → root.Untouched bases
  fits _ := True
  beside := id

variable {bases : List String} {context : RecipeContext} {deeper other : Deeper} {trace : Trace}
  {before after : Evaluation}

theorem Untouched.of_eq (untouched : before.Untouched bases) (scopes : after.scopes = before.scopes)
    (root : after.root = before.root) : after.Untouched bases :=
  ⟨scopes ▸ untouched.scopes, root ▸ untouched.root⟩

/-- A change of the innermost open block. -/
theorem Untouched.mapInnermost (untouched : before.Untouched bases) {change : Scope → Scope}
    (changed : ∀ scope, scope.entity.Untouched bases → (change scope).entity.Untouched bases) :
    (before.mapInnermost change).Untouched bases := by
  obtain ⟨_, _, _, scopes, _⟩ := before
  cases scopes with
  | nil => exact untouched
  | cons scope outer =>
    obtain ⟨first, rest⟩ := List.forall_mem_cons.mp untouched.scopes
    exact ⟨List.forall_mem_cons.mpr ⟨changed scope first, rest⟩, untouched.root⟩

theorem noting_untouched (untouched : before.Untouched bases) (descriptor : Descriptor) (attached : Bool) :
    (before.noting descriptor attached).Untouched bases := by
  cases attached with
  | false => exact untouched
  | true =>
    refine untouched.mapInnermost fun scope same => ?_
    rw [noteFamily]
    split <;> exact same

/-- What a block inherits is no service and no template. -/
theorem inheritedContent_honest {parent : Scope} (whole : parent.entity.Kept) {descriptor : Descriptor}
    (member : descriptor ∈ Registry.descriptors)
    (placed : descriptor.checkPlacement (some parent.entity.kind) = .ok ()) {start : Entity}
    (content : inheritedContent parent descriptor = .ok start) : start.Honest bases := by
  rw [inheritedContent] at content
  split at content
  · obtain rfl := Except.ok.inj content
    exact Entity.honest_fresh _ _
  · obtain rfl := Except.ok.inj content
    exact Entity.honest_fresh _ _
  · rename_i kind current beside set
    split at content
    · rename_i entity read
      obtain rfl := Except.ok.inj content
      have found : parent.entity.property? descriptor.elementName = some (parent.entity.property descriptor.elementName) := by
        rw [Entity.property] at set ⊢
        cases there : parent.entity.property? descriptor.elementName with
        | none => exact absurd (by rw [there]; rfl) set
        | some value => rfl
      exact Entity.honest_of_placed whole member placed beside found read
    · cases content

/-- A block starts untouched. -/
theorem startOf_untouched (untouched : before.Untouched bases) {descriptor : Descriptor} {attached : Bool}
    {start : Entity} {name : String} (described : Registry.describe? name = some descriptor)
    (placed : checkPlace before descriptor attached = .ok ())
    (started : before.startOf descriptor attached = .ok start) : start.Untouched bases := by
  refine ⟨(startOf_eq_ok started).2, ?_⟩
  rw [startOf] at started
  split at started
  · rw [openAttached] at started
    split at started
    · obtain rfl := Except.ok.inj started
      exact Entity.honest_fresh _ _
    · rename_i parent outer scopes
      obtain ⟨_, _, content⟩ := (Running.attempt_eq_ok _ _ _).mp started
      have whole := (untouched.scopes parent (scopes ▸ List.mem_cons_self)).kept
      exact inheritedContent_honest whole (Registry.describe?_eq_some described).1
        (checkPlacement_of_checkPlace scopes placed) content
  · obtain rfl := Except.ok.inj started
    exact Entity.honest_fresh _ _

section Blocks

variable {name : String} {line : Nat} {attached : Bool} {body : Evaluating Unit} {here : Evaluation → List Event}
  (inner : ∀ before value after, body before = .ok value after → before.Untouched bases →
    (∀ event ∈ here before, event.Honest bases) → after.Untouched bases)
include inner

theorem evaluateBlock_untouched {finished : Entity} (untouched : before.Untouched bases)
    (run : evaluateBlock context name line attached body before = .ok finished after)
    (honest : ∀ event ∈ Trace.ofBlock context line name attached here before, event.Honest bases) :
    after.Untouched bases ∧ finished.Untouched bases := by
  obtain ⟨descriptor, start, between, described, placed, started, ran, rfl, rfl, events⟩ :=
    Trace.ofBlock_of_run here run
  rw [events] at honest
  have begun := startOf_untouched untouched described placed started
  obtain ⟨scopes, root⟩ := noting_untouched untouched descriptor attached
  have ended := inner _ _ _ ran ⟨List.forall_mem_cons.mpr ⟨begun, scopes⟩, root⟩ honest
  refine ⟨⟨fun scope member => ended.scopes scope (List.mem_of_mem_tail member), ended.root⟩, ?_⟩
  cases head : between.scopes.head? with
  | none => exact begun
  | some scope => exact ended.scopes scope (List.mem_of_mem_head? head)

end Blocks

theorem attach_untouched {line : Nat} {entity : Entity} (untouched : before.Untouched bases)
    (inner : entity.Untouched bases) (run : attach context line entity before = .ok () after) :
    after.Untouched bases := by
  rcases (attach_eq_ok _ _).mp run with ⟨_, rfl⟩ | ⟨parent, outer, changed, used, scopes, bound, rfl⟩
  · refine ⟨untouched.scopes, fun root same => ?_⟩
    obtain rfl := Option.some.inj same
    exact inner
  · obtain ⟨first, rest⟩ := List.forall_mem_cons.mp (scopes ▸ untouched.scopes)
    obtain ⟨set, _⟩ := Entity.bindEntity_eq_ok bound
    refine ⟨List.forall_mem_cons.mpr ⟨⟨(Entity.setProperty_assigns first.kept set).kept, ?_⟩, rest⟩, untouched.root⟩
    exact first.honest.bindEntity first.kept inner.honest inner.kept set

/-- A name that is given values, if what it assigns as a whole it assigns well. -/
theorem bindName_untouched {line : Nat} {name : String} {values : List Value} (untouched : before.Untouched bases)
    (run : bindName context line name values before = .ok () after) :
    ∃ scope outer, after.scopes = scope :: outer ∧
      ((Event.assigns name scope.entity).Honest bases → after.Untouched bases) := by
  obtain ⟨scope, outer, changed, used, scopes, bound, rfl⟩ := (bindName_eq_ok _ _ _).mp run
  refine ⟨_, outer, rfl, fun well => ?_⟩
  obtain ⟨first, rest⟩ := List.forall_mem_cons.mp (scopes ▸ untouched.scopes)
  obtain ⟨value, _, _, assigned, _⟩ := bound_eq_ok_iff.mp bound
  obtain ⟨_, set⟩ := Entity.assignPath_segments_sets assigned
  have assigns := Entity.setProperty_assigns first.kept set
  have kind : changed.kind = scope.entity.kind := assigns.kind
  have well : scope.entity.kind.AssignsGuarded name → changed.Honest bases := kind ▸ well
  exact ⟨List.forall_mem_cons.mpr ⟨⟨assigns.kept, first.honest.assignPath first.kept assigned well⟩, rest⟩,
    untouched.root⟩

section Files

variable (reaches : (honesty bases).Reaches deeper other trace)
include reaches

theorem compileNested_untouched {path : Path} {handover : Handover} {session later : Session} {entity : Entity}
    (run : compileNested deeper context.job path handover session = .ok entity later)
    (honest : ∀ event ∈ Trace.ofNested trace context path handover session, event.Honest bases) :
    entity.Untouched bases := by
  obtain ⟨nested, declarations, between, inner, _, ran, _, events⟩ := Trace.ofNested_of_run run
  rw [events] at honest
  exact reaches.recipe nested trivial _ _ _ _ ran honest

theorem loadService_untouched {line : Nat} (untouched : before.Untouched bases)
    (run : loadService deeper context line before = .ok () after)
    (honest : ∀ event ∈ Trace.ofService trace context line before, event.Honest bases) :
    after.Untouched bases := by
  rcases (loadService_eq_ok _ _).mp run with
    ⟨_, rfl⟩ | ⟨name, directory, path, loaded, session, entity, found, searched, compiled, service, named, rfl⟩
  · exact untouched
  · rw [Trace.ofService_of_serviceDirectory? found searched] at honest
    have inner := compileNested_untouched reaches compiled (List.forall_mem_cons.mp honest).2
    obtain ⟨_, set⟩ := Entity.setCoerced_eq_ok named
    have changed : entity.Untouched bases := by
      refine ⟨(Entity.setProperty_assigns inner.kept set).kept, inner.honest.set inner.kept set ?_⟩
      rw [service]
      nofun
    have nested : { before with session }.Untouched bases := untouched.of_eq rfl rfl
    exact nested.mapInnermost fun _ _ => changed

theorem assign_untouched {line : Nat} {name : String} {values : List Value} (untouched : before.Untouched bases)
    (run : assign deeper context line name values before = .ok () after)
    (honest : ∀ event ∈ Trace.ofAssign trace context line name values before, event.Honest bases) :
    after.Untouched bases := by
  obtain ⟨_, between, binding, loading⟩ := (Running.bind_eq_ok _ _ _ _ _).mp run
  obtain ⟨scope, outer, scopes, bound⟩ := bindName_untouched untouched binding
  rw [Trace.ofAssign_of_bindName binding scopes] at honest
  obtain ⟨well, rest⟩ := List.forall_mem_cons.mp honest
  split at loading
  · rename_i named
    rw [if_pos named] at rest
    exact loadService_untouched reaches (bound well) loading rest
  · obtain ⟨_, rfl⟩ := (Running.pure_eq_ok _ _ _ _).mp loading
    exact bound well

theorem loadValue_untouched {line : Nat} {relative : String} {value : Value} (untouched : before.Untouched bases)
    (run : loadValue deeper context line relative before = .ok value after)
    (honest : ∀ event ∈ Trace.ofValue trace context line relative before, event.Honest bases) :
    after.Untouched bases := by
  obtain ⟨_, _, _, _, inner, named, free, read, parsed, ran, rfl⟩ := (loadValue_eq_ok _ _ _ _).mp run
  rw [Trace.ofValue_of_read named free read parsed] at honest
  have inside := reaches.expression context trivial _ _ _ _ ran (untouched.of_eq rfl rfl)
    (List.forall_mem_cons.mp honest).2
  exact inside.of_eq rfl rfl

section Values

variable {line : Nat} {values : Evaluating (List Value)} {here : Evaluation → List Event}
  (evaluated : ∀ before value after, values before = .ok value after → before.Untouched bases →
    (∀ event ∈ here before, event.Honest bases) → after.Untouched bases)
include evaluated

theorem splice_untouched (untouched : before.Untouched bases)
    (run : splice deeper context line values before = .ok () after)
    (honest : ∀ event ∈ Trace.andThen values here (Trace.ofFragment trace context line) before, event.Honest bases) :
    after.Untouched bases := by
  obtain ⟨_, between, _, _, _, inner, values', named, free, parsed, ran, rfl⟩ := (splice_eq_ok _ _ _).mp run
  rw [Trace.andThen_of_ok values', Trace.ofFragment_of_parseFile named free parsed] at honest
  obtain ⟨first, rest⟩ := List.forall_mem_append.mp honest
  have middle := evaluated _ _ _ values' untouched first
  have inside := reaches.declarations context trivial _ _ _ _ ran (middle.of_eq rfl rfl)
    (List.forall_mem_cons.mp rest).2
  exact inside.of_eq rfl rfl

theorem extendBase_untouched (untouched : before.Untouched bases)
    (run : extendBase deeper context line values before = .ok () after)
    (honest : ∀ event ∈ Trace.andThen values here (Trace.ofBase trace context line) before, event.Honest bases) :
    after.Untouched bases := by
  obtain ⟨_, reference, between, path, base, session, _, values', resolved, compiled, service, rfl⟩ :=
    (extendBase_eq_ok _ _ _).mp run
  rw [Trace.andThen_of_ok values', Trace.ofBase_of_resolve resolved] at honest
  obtain ⟨first, rest⟩ := List.forall_mem_append.mp honest
  obtain ⟨listed, nested⟩ := List.forall_mem_cons.mp rest
  have middle := evaluated _ _ _ values' untouched first
  have inner := compileNested_untouched reaches compiled nested
  have extended : (base.addBase path.text).Untouched bases :=
    ⟨(Entity.addBase_assigns inner.kept service path.text).kept, inner.honest.addBase service listed⟩
  have nested : { between with session }.Untouched bases := middle.of_eq rfl rfl
  exact nested.mapInnermost fun _ _ => extended

end Values

end Files

theorem honesty_closed (bases : List String) : (honesty bases).Closed where
  environment _ := rfl
  fails _ fails _ before value after run := absurd run (fails before value after)
  still unchanged _ before value after run untouched _ := by
    obtain ⟨rfl, _⟩ := unchanged before value after run
    exact untouched
  bind head rest before value after run untouched honest := by
    obtain ⟨given, between, one, two⟩ := (Running.bind_eq_ok _ _ _ _ _).mp run
    rw [Trace.andThen_of_ok one] at honest
    obtain ⟨first, second⟩ := List.forall_mem_append.mp honest
    exact rest given _ _ _ two (head _ _ _ one untouched first) second
  branch one other before value after run untouched honest := by
    dsimp only at run honest
    split at run
    · rename_i holds
      rw [if_pos holds] at honest
      exact one _ _ _ run untouched honest
    · rename_i fails
      rw [if_neg fails] at honest
      exact other _ _ _ run untouched honest
  locals name value before _ after run untouched _ := by
    obtain rfl := (Running.modify_eq_ok _ _ _ _).mp run
    exact untouched.of_eq rfl rfl
  count before _ after run untouched _ := by
    obtain rfl := (Running.modify_eq_ok _ _ _ _).mp run
    exact untouched.mapInnermost fun _ same => same
  value _ _ _ body before value after run untouched honest :=
    (evaluateBlock_untouched body untouched run honest).1
  attached _ _ _ body before value after run untouched honest := by
    obtain ⟨entity, middle, block, attached⟩ := (Running.bind_eq_ok _ _ _ _ _).mp run
    obtain ⟨between, inner⟩ := evaluateBlock_untouched body untouched block honest
    exact attach_untouched between inner attached
  assign _ _ _ _ reaches before value after run untouched honest := assign_untouched reaches untouched run honest
  load _ _ _ reaches before value after run untouched honest := loadValue_untouched reaches untouched run honest
  splice _ _ reaches values before value after run untouched honest :=
    splice_untouched reaches values untouched run honest
  extend _ _ reaches values before value after run untouched honest :=
    extendBase_untouched reaches values untouched run honest
  recipe _ whole before root after run honest := by
    obtain ⟨last, ran, done, _⟩ := (evaluateRecipe_eq_ok _ _ _ _ _ _).mp run
    have begun : (start before).Untouched bases := ⟨by simp [start], by simp [start]⟩
    exact (whole _ _ _ ran begun honest).root root done

theorem honesty_reaches (bases : List String) (depth : Nat) :
    (honesty bases).Reaches (Deeper.upTo depth) (Deeper.upTo depth) (Trace.upTo depth) :=
  (honesty_closed bases).reaches (Judgement.reaches_zero
    (fun _ _ fails before value after run => absurd run (fails before value after))
    (fun _ _ fails before value after run => absurd run (fails before value after))) (Nat.le_refl depth)

theorem evaluateRecipe_untouched {depth : Nat} {declarations : List Declaration} {session later : Session}
    {root : Entity} (run : evaluateRecipe (Deeper.upTo depth) context declarations session = .ok root later)
    (honest : ∀ event ∈ Trace.ofRecipe (Deeper.upTo depth) (Trace.upTo depth) context declarations session,
      event.Honest bases) : root.Untouched bases :=
  (honesty_closed bases).evaluateRecipe (honesty_reaches bases depth) trivial declarations _ _ _ run honest

end Evaluation

/-- The paths of the bases that are extended while a file is compiled. -/
def Job.extendedPaths (job : Job) (file : Path) : List String :=
  (job.eventsOfFile file).filterMap Event.base?

namespace Compiled

/-- No template in what a recipe compiles to has an upload directory, and its services have only the bases that
were extended, if no list of services and no table of templates is assigned that has others. -/
theorem ofFile_readOnly {job : Job} {file : Path} {compiled : Compiled} (success : ofFile job file = .ok compiled)
    (well : ∀ name made, .assigns name made ∈ job.eventsOfFile file → made.kind.AssignsGuarded name →
      made.Honest (job.extendedPaths file)) {held : Entity} (holds : compiled.root.Holds held) :
    (held.kind = .cloudTemplate → held.property Entity.uploadSlot = .null) ∧
      ∀ base ∈ held.lineage, base ∈ job.extendedPaths file := by
  have honest : ∀ event ∈ job.eventsOfFile file, event.Honest (job.extendedPaths file) := by
    intro event member
    cases event with
    | «extends» reference base => exact List.mem_filterMap.mpr ⟨_, member, rfl⟩
    | assigns name made => exact well name made member
    | loads | names => trivial
  obtain ⟨text, context, declarations, session, last, found, read, opened, run, _⟩ := ofFile_evaluates success
  rw [Job.eventsOfFile_eq found read, Job.events, Trace.followed_of_ok opened] at honest
  have pristine := (Evaluation.evaluateRecipe_untouched run honest).honest held holds
  exact ⟨pristine.upload, pristine.lineage⟩

/-- An application whose list of services has one that extends a base. -/
theorem ofFile_readOnly_listed :
    let text := "application \x7b\n name \"a\"\n services [service \x7b\n  extend \"base-service\"\n \x7d]\n\x7d\n"
    let job := Job.plain
      ⟨[(["r"], .directory), (["r", "a-application.recipe"], .file (.text text)),
        (["r", "base-service.recipe"], .file (.text "service \x7b\n name \"b\"\n\x7d\n"))], ["r"]⟩ .standard
    let file : Path := ⟨"/r/a-application.recipe"⟩
    ∃ compiled, ofFile job file = .ok compiled ∧ compiled.root.children.map Entity.lineage = [["/r/base-service.recipe"]] ∧
      ∀ held, compiled.root.Holds held → ∀ base ∈ held.lineage, base ∈ job.extendedPaths file := by
  intro text job file
  have ends : (ofFile job file).toOption.map (fun compiled => compiled.root.children.map Entity.lineage) =
      some [["/r/base-service.recipe"]] := by decide +kernel
  have well : ∀ event ∈ job.eventsOfFile file, event.Honest (job.extendedPaths file) := by decide +kernel
  cases success : ofFile job file with
  | error error =>
    rw [success] at ends
    cases ends
  | ok compiled =>
    rw [success] at ends
    exact ⟨compiled, rfl, Option.some.inj ends, fun held holds =>
      (ofFile_readOnly success (fun name made member => well _ member) holds).2⟩

/-- A table of templates and a list of services that are assigned as a whole bring an upload directory and a
base that nothing extends. -/
theorem ofText_readOnly_assigned :
    let job := { Job.plain ⟨[], []⟩ .standard with validate := some false }
    let cloud := "cloud \x7b\n templates [\"t\": [\"absoluteUploadDir\": \"/evil\"]]\n\x7d\n"
    let application := "application \x7b\n services [[\"name\": \"x\", \"extendedServicesPaths\": [\"/p\"]]]\n\x7d\n"
    let children := fun path text => (ofText job path text).toOption.map fun compiled => compiled.root.children
    (children ⟨"/t-cloud.recipe"⟩ cloud).any (·.any fun child =>
        child.kind = .cloudTemplate && !(child.property Entity.uploadSlot).isNull) = true ∧
      (children ⟨"/a-application.recipe"⟩ application).map (·.map Entity.lineage) = some [["/p"]] ∧
      (job.events ⟨"/a-application.recipe"⟩ application).filterMap Event.base? = [] := by
  decide +kernel

end Compiled

end DeployRecipe
