import DeployRecipe.Proofs.Compilation.Duplicates
import DeployRecipe.Proofs.Compilation.Units

/-!
The services that an application declares with blocks. Each block puts its service at the end of the list, and
nothing takes one out of it again but an assignment of the whole list.
-/

namespace DeployRecipe

namespace Evaluation

variable {context : RecipeContext} {before after : Evaluation}

/-- A finished block is kept, whatever is open around it. -/
theorem evaluateBlock_kept {depth line : Nat} {name : String} {attached : Bool} {declarations : List Declaration}
    {finished : Entity}
    (run : evaluateBlock context name line attached (evaluateStatements (Deeper.upTo depth) context declarations)
      before = .ok finished after) : finished.Kept := by
  obtain ⟨descriptor, start, described, placed, started, running⟩ := (evaluateBlock_eq_ok _ _ _ _ _).mp run
  obtain ⟨between, ran, rfl, rfl⟩ := (inScope_eq_ok _ _ _).mp running
  have open' : ({ before.noting descriptor attached with
      scopes := .opening start :: (before.noting descriptor attached).scopes } : Evaluation).scopes =
        .opening start :: (before.noting descriptor attached).scopes := rfl
  have accounts := assigned_accounts depth context declarations (Scope.sound_opening (startOf_eq_ok started).2) open'
  rw [ran] at accounts
  obtain ⟨_, changed, scopes, becomes⟩ := accounts
  simpa [scopes] using becomes.sound.kept

namespace Step

/-- The block of a service. -/
def declaresService (step : Step) : Bool :=
  step.isBlock && step.declaration.name == Entity.serviceSlot

/-- The service that the block of a service evaluates to. -/
def service? (step : Step) : Option Entity :=
  match step.declaration with
  | .mk name line (.block declarations) =>
    if name = Entity.serviceSlot then
      match evaluateBlock step.context name line true
          (evaluateStatements (Deeper.upTo step.depth) step.context declarations) step.before with
      | .ok service _ => some service
      | .error _ _ => none
    else none
  | _ => none

/-- The step gives the whole list of services a value, or something inside it. -/
def replacesServices (step : Step) : Bool :=
  DottedName.head step.declaration.name == "services"

end Step

section Application

variable {scope : Scope} {outer : List Scope} (open' : before.scopes = scope :: outer)
  (application : scope.entity.kind = .application) (whole : scope.entity.Kept)
include open' application whole

/-- A block in an application adds the service that it evaluates to. -/
theorem evaluateInPlace_block_addsService {depth line : Nat} {name : String} {declarations : List Declaration}
    (run : evaluateInPlace (Deeper.upTo depth) context (.mk name line (.block declarations)) before = .ok () after) :
    ∃ service changed, name = Entity.serviceSlot ∧
      Step.service? ⟨depth, context, .mk name line (.block declarations), before⟩ = some service ∧
      after.scopes = changed :: outer ∧ changed.entity.kind = .application ∧ changed.entity.Kept ∧
      changed.entity.children = scope.entity.children ++ [service] := by
  rw [evaluateInPlace_inside (by simp [open']), evaluateStatement] at run
  obtain ⟨_, middle, evaluated, counted⟩ := (Running.bind_eq_ok _ _ _ _ _).mp run
  rw [evaluateBody] at evaluated
  obtain ⟨service, late, block, attached⟩ := (Running.bind_eq_ok _ _ _ _ _).mp evaluated
  obtain ⟨descriptor, described, _, kind, scopes, _, _⟩ := evaluateBlock_finishes
    (fun _ _ => evaluateStatements_runs (Deeper.upTo_sound depth) declarations) block
  have same := (Registry.describe?_eq_some described).2
  obtain ⟨exclusive, noted⟩ := noting_scopes open' descriptor true
  rw [noted] at scopes
  rcases (attach_eq_ok _ _).mp attached with ⟨outside, _⟩ | ⟨_, _, changed, used, inside, bound, rfl⟩
  · rw [scopes] at outside
    cases outside
  · obtain ⟨rfl, rfl⟩ := List.cons.inj (inside.symm.trans scopes)
    obtain ⟨set, _⟩ := Entity.bindEntity_eq_ok bound
    have service' := Entity.kind_of_setApplication whole application set
    obtain rfl : name = Entity.serviceSlot := by
      rw [← same, Descriptor.elementName, ← kind, service']
      rfl
    have assigns := Entity.setProperty_assigns whole set
    rw [service'] at set
    obtain ⟨position, _, ended⟩ := (countDeclaration_passes counted).innermost rfl
    refine ⟨service, _, rfl, ?_, ended, assigns.kind.trans application, assigns.kept,
      Entity.children_of_setService whole application (evaluateBlock_kept block) service' set⟩
    simp only [Step.service?, if_pos, block]

/-- A step in an application leaves the services that it has, but for an assignment of the list, and the block
of a service adds the one that it evaluates to. -/
theorem evaluateInPlace_addsService {depth : Nat} {declaration : Declaration}
    (single : spliced? (Deeper.upTo depth) context declaration before = none)
    (run : evaluateInPlace (Deeper.upTo depth) context declaration before = .ok () after) :
    let step : Step := ⟨depth, context, declaration, before⟩
    ∃ changed, after.scopes = changed :: outer ∧ changed.entity.kind = .application ∧ changed.entity.Kept ∧
      (step.declaresService = true → step.service?.isSome = true) ∧
      (step.replacesServices = true → step.service? = none) ∧
      (step.replacesServices = false →
        (scope.entity.children ++ step.service?.toList).Sublist changed.entity.children) := by
  intro step
  obtain ⟨name, line, body⟩ := declaration
  cases body with
  | block declarations =>
    obtain ⟨service, changed, rfl, evaluated, ended, kind, kept, children⟩ :=
      evaluateInPlace_block_addsService open' application whole run
    have aside : step.replacesServices = false :=
      show (DottedName.head Entity.serviceSlot == "services") = false by decide +kernel
    refine ⟨changed, ended, kind, kept, fun _ => by simp [step, evaluated], fun replaces => ?_, fun _ => ?_⟩
    · rw [aside] at replaces
      cases replaces
    · rw [children, evaluated]
      exact List.Sublist.refl _
  | arguments | assignment =>
    obtain ⟨changed, ended, turns⟩ := evaluateInPlace_turns open' (by rintro _ ⟨⟩) single run
    obtain ⟨value, assigned⟩ := turns.entity.resolve_right (by simp [application])
    obtain ⟨_, set⟩ := Entity.assignPath_segments_sets assigned
    have assigns := Entity.setProperty_assigns whole set
    refine ⟨changed, ended, assigns.kind.trans application, assigns.kept, ?_, fun _ => rfl, fun beside => ?_⟩
    · intro declares
      cases declares
    · rw [show step.service?.toList = [] from rfl, List.append_nil]
      exact Entity.children_sublist_of_setProperty whole application set (by simpa [Step.replacesServices] using beside)

end Application

/-- No step assigns the list of services after the block of a service. -/
def ServicesLast (list : List Step) : Prop :=
  list.Pairwise fun step later => step.declaresService = true → later.replacesServices = false

instance (list : List Step) : Decidable (ServicesLast list) :=
  inferInstanceAs (Decidable (List.Pairwise _ list))

theorem Step.declaresService_of_service? {step : Step} {service : Entity} (evaluated : step.service? = some service) :
    step.declaresService = true := by
  obtain ⟨depth, context, ⟨name, line, body⟩, before⟩ := step
  cases body with
  | arguments | assignment => cases evaluated
  | block declarations =>
    change (if name = Entity.serviceSlot then _ else none) = some service at evaluated
    split at evaluated
    · rename_i slot
      simp [declaresService, isBlock, Declaration.name, Declaration.body, slot]
    · cases evaluated

/-- The steps of an application add the services that its blocks evaluate to, after those that were added
already. -/
theorem Linked.addServices {list : List Step} {before after : Evaluation} (linked : Linked context before list after)
    {scope : Scope} {outer : List Scope} (open' : before.scopes = scope :: outer)
    (application : scope.entity.kind = .application) (whole : scope.entity.Kept) (last : ServicesLast list)
    {added : List Entity} (there : added.Sublist scope.entity.children)
    (stays : added ≠ [] → ∀ step ∈ list, step.replacesServices = false) :
    ∃ changed, after.scopes = changed :: outer ∧
      (∀ step ∈ list, step.declaresService = true → step.service?.isSome = true) ∧
      (added ++ list.filterMap Step.service?).Sublist changed.entity.children := by
  induction linked generalizing scope added with
  | done passes =>
    obtain ⟨position, _, scopes⟩ := passes.innermost open'
    exact ⟨_, scopes, by simp, by simpa using there⟩
  | @step _ start _ _ depth declaration rest passes single run _ inductionHypothesis =>
    obtain ⟨position, _, begun⟩ := passes.innermost open'
    obtain ⟨changed, scopes, kind, kept, evaluates, replaced, grows⟩ :=
      evaluateInPlace_addsService begun application whole single run
    generalize head : (⟨depth, context, declaration, start⟩ : Step) = step at *
    obtain ⟨later, last⟩ := List.pairwise_cons.mp last
    have more : (added ++ step.service?.toList).Sublist changed.entity.children := by
      cases replaces : step.replacesServices with
      | false => exact (there.append_right _).trans (grows replaces)
      | true =>
        obtain rfl : added = [] := by
          by_contra some
          have beside := stays some step List.mem_cons_self
          rw [replaces] at beside
          cases beside
        rw [replaced replaces]
        exact List.nil_sublist _
    have stays' : added ++ step.service?.toList ≠ [] → ∀ other ∈ rest, other.replacesServices = false := by
      intro some other member
      cases evaluated : step.service? with
      | some service => exact later other member (Step.declaresService_of_service? evaluated)
      | none =>
        rw [evaluated] at some
        exact stays (by simpa using some) other (List.mem_cons_of_mem _ member)
    obtain ⟨final, ended, all, sublist⟩ := inductionHypothesis scopes kind kept last more stays'
    refine ⟨final, ended, List.forall_mem_cons.mpr ⟨evaluates, all⟩, ?_⟩
    rw [List.append_assoc] at sublist
    cases evaluated : step.service? with
    | some service => simpa [List.filterMap_cons, evaluated] using sublist
    | none => simpa [List.filterMap_cons, evaluated] using sublist

/-- An application keeps every service that it declares: where its block is evaluated to its end, so is the
block of every service in it, and the services are those of the application, in their order and one for each
block, as long as the list of services is not assigned after one of them. -/
theorem evaluateBlock_services {depth line : Nat} {attached : Bool} {declarations : List Declaration}
    {finished : Entity}
    (run : evaluateBlock context EntityKind.application.elementName line attached
      (evaluateStatements (Deeper.upTo depth) context declarations) before = .ok finished after) :
    let list := steps depth context declarations { before with
      scopes := .opening (.fresh .application) :: before.scopes }
    ServicesLast list →
      (∀ step ∈ list, step.declaresService = true → step.service?.isSome = true) ∧
      (list.filterMap Step.service?).Sublist finished.children := by
  intro list last
  obtain ⟨descriptor, start, described, placed, started, running⟩ := (evaluateBlock_eq_ok _ _ _ _ _).mp run
  obtain ⟨between, ran, rfl, rfl⟩ := (inScope_eq_ok _ _ _).mp running
  obtain rfl := Option.some.inj
    ((show Registry.describe? EntityKind.application.elementName = some ⟨.application, true, false, none, none, false⟩
      from rfl).symm.trans described)
  have outside : before.scopes = [] := by
    cases open' : before.scopes with
    | nil => rfl
    | cons scope outer => cases checkPlacement_of_checkPlace open' placed
  have same : before.noting ⟨.application, true, false, none, none, false⟩ attached = before := by
    cases attached with
    | false => rfl
    | true => simp [noting, mapInnermost, outside]
  obtain rfl : start = .fresh .application := by
    cases attached with
    | false => exact (Except.ok.inj started).symm
    | true =>
      rw [startOf, if_pos rfl, openAttached, outside] at started
      exact (Except.ok.inj started).symm
  rw [same] at ran
  have linked := steps_linked depth context declarations
    (forM_evaluateInPlace (Deeper.upTo_sound depth) (List.cons_ne_nil _ _) ran)
  obtain ⟨changed, scopes, all, sublist⟩ := linked.addServices rfl rfl (Entity.kept_fresh _) last
    (List.nil_sublist _) fun none => absurd rfl none
  refine ⟨all, ?_⟩
  simpa [scopes] using sublist

/-- An application with two services of one name, of which the second one stands in a fragment, and a third. -/
theorem evaluateBlock_services_loaded :
    let fragment := "service \x7b\n name \"web\"\n\x7d\n"
    let files : FileTree := ⟨[(["r"], .directory), (["r", "more.recipe"], .file (.text fragment))], []⟩
    let context : RecipeContext := ⟨.plain files .standard, ⟨"/r/shop-application.recipe"⟩, .empty⟩
    let assign (name value : String) : Declaration := .mk name 1 (.arguments [.text value])
    let declarations := [assign "name" "shop", .mk "service" 2 (.block [assign "name" "web"]),
      assign "load" "more.recipe", .mk "service" 4 (.block [assign "name" "store"])]
    let list := steps 1 context declarations { start .empty with scopes := [.opening (.fresh .application)] }
    ServicesLast list ∧
      (list.filterMap Step.service?).map Entity.name? = [some "web", some "web", some "store"] ∧
      ∃ finished after, evaluateBlock context "application" 1 true
          (evaluateStatements (Deeper.upTo 1) context declarations) (start .empty) = .ok finished after ∧
        (list.filterMap Step.service?).Sublist finished.children := by
  intro fragment files context assign declarations list
  have last : ServicesLast list := by decide +kernel
  have names : (list.filterMap Step.service?).map Entity.name? = [some "web", some "web", some "store"] := by
    decide +kernel
  have ends : ((evaluateBlock context "application" 1 true
      (evaluateStatements (Deeper.upTo 1) context declarations)).run' (start .empty)).isSome = true := by
    decide +kernel
  obtain ⟨finished, ran⟩ := Option.isSome_iff_exists.mp ends
  obtain ⟨after, run⟩ := Running.gives_of_run' ran
  exact ⟨last, names, finished, after, run, (evaluateBlock_services run last).2⟩

/-- A list of services that is assigned after the block of a service takes its place. -/
theorem evaluateBlock_services_replaced :
    let context : RecipeContext := ⟨.plain ⟨[], []⟩ .standard, ⟨"/shop-application.recipe"⟩, .empty⟩
    let declarations : List Declaration := [.mk "service" 1 (.block [.mk "name" 1 (.arguments [.text "web"])]),
      .mk "services" 2 (.arguments [.list []])]
    let list := steps 0 context declarations { start .empty with scopes := [.opening (.fresh .application)] }
    (list.filterMap Step.service?).map Entity.name? = [some "web"] ∧
      ∃ finished after, evaluateBlock context "application" 1 true
          (evaluateStatements (Deeper.upTo 0) context declarations) (start .empty) = .ok finished after ∧
        ¬ (list.filterMap Step.service?).Sublist finished.children := by
  intro context declarations list
  have names : (list.filterMap Step.service?).map Entity.name? = [some "web"] := by decide +kernel
  have ends : ((evaluateBlock context "application" 1 true (evaluateStatements (Deeper.upTo 0) context
      declarations)).run' (start .empty)).map (fun finished => finished.children.length) = some 0 := by
    decide +kernel
  obtain ⟨finished, ran, none⟩ := Option.map_eq_some_iff.mp ends
  obtain ⟨after, run⟩ := Running.gives_of_run' ran
  refine ⟨names, finished, after, run, fun sublist => ?_⟩
  have one := congrArg List.length names
  have few := sublist.length_le
  rw [List.length_map, List.length_singleton] at one
  omega

end Evaluation

end DeployRecipe
