import DeployRecipe.Proofs.Compilation.Exchange
import DeployRecipe.Proofs.Compilation.Unnumbered

/-!
Permutations of the flat declarations of a block. Outside of applications, a block becomes the same entity in
whatever order its flat declarations stand.
-/

namespace DeployRecipe

open Running

namespace Declaration

/-- A declaration that stays where it is when the flat ones are permuted. -/
def fixed? (declaration : Declaration) : Option Declaration :=
  if declaration.isFlat then none else some declaration

theorem fixed?_eq_none_iff {declaration : Declaration} : declaration.fixed? = none ↔ declaration.isFlat = true := by
  simp [fixed?]

/-- The flat declarations are permuted among the places of flat declarations. -/
structure Permutes (body other : List Declaration) : Prop where
  flat : (body.filter isFlat).Perm (other.filter isFlat)
  fixed : body.map fixed? = other.map fixed?

theorem Permutes.symm {body other : List Declaration} (permutes : Permutes body other) : Permutes other body :=
  ⟨permutes.flat.symm, permutes.fixed.symm⟩

/-- Flat declarations that trade places, one pair after the other. -/
inductive Swaps : List Declaration → List Declaration → Prop
  | refl (body : List Declaration) : Swaps body body
  | cons (first : Declaration) {body other : List Declaration} (later : Swaps body other) :
    Swaps (first :: body) (first :: other)
  | swap {first second : Declaration} (flat : first.isFlat = true) (flat' : second.isFlat = true)
    (between rest : List Declaration) :
    Swaps (first :: (between ++ second :: rest)) (second :: (between ++ first :: rest))
  | trans {body middle other : List Declaration} (one : Swaps body middle) (two : Swaps middle other) :
    Swaps body other

/-- A permutation is made up of trades. Each flat declaration trades with the one that has its place. -/
theorem Permutes.swaps {body other : List Declaration} (permutes : Permutes body other) : Swaps body other := by
  induction body generalizing other with
  | nil =>
    obtain rfl := List.map_eq_nil_iff.mp permutes.fixed.symm
    exact .refl []
  | cons first rest inductionHypothesis =>
    obtain ⟨flat, fixed⟩ := permutes
    obtain ⟨placed, rest', rfl, same, fixed'⟩ := List.map_eq_cons_iff.mp fixed.symm
    cases isFlat : first.isFlat with
    | false =>
      have here : fixed? first = some first := by simp [fixed?, isFlat]
      have there : placed.isFlat = false := by
        by_contra placedFlat
        rw [here, fixed?_eq_none_iff.mpr (by simpa using placedFlat)] at same
        cases same
      have equal : placed = first := by
        rw [here, fixed?, there] at same
        exact Option.some.inj same
      subst equal
      simp only [List.filter_cons, isFlat, Bool.false_eq_true, if_false] at flat
      exact .cons placed (inductionHypothesis ⟨flat, fixed'.symm⟩)
    | true =>
      have there : placed.isFlat = true := fixed?_eq_none_iff.mp (same.trans (fixed?_eq_none_iff.mpr isFlat))
      simp only [List.filter_cons, isFlat, there, if_true] at flat
      rcases List.mem_cons.mp (flat.subset List.mem_cons_self) with rfl | member
      · exact .cons first (inductionHypothesis ⟨flat.cons_inv, fixed'.symm⟩)
      · obtain ⟨between, last, rfl⟩ := List.append_of_mem (List.mem_filter.mp member).1
        have moved : Permutes rest (between ++ placed :: last) := by
          constructor
          · simp only [List.filter_append, List.filter_cons, isFlat, there, if_true] at flat ⊢
            have front := (flat.trans (List.perm_middle.cons placed)).trans (.swap first placed _)
            exact front.cons_inv.trans List.perm_middle.symm
          · simp only [List.map_append, List.map_cons, fixed?_eq_none_iff.mpr isFlat] at fixed'
            simp only [List.map_append, List.map_cons, fixed?_eq_none_iff.mpr there, fixed']
        exact .trans (.cons first (inductionHypothesis moved)) (.swap isFlat there between last)

end Declaration

namespace Evaluation

open Declaration (Permutes Swaps)

variable {context : RecipeContext} {depth : Nat}

/-- Where the declarations of a block end well, they do so after trades, and the block is the same. -/
theorem evaluateStatements_swaps {files : FileTree} (proper : files.Proper) (fits : context.job.files = files)
    {outer : List Scope} (outside : OutsideApplication outer) {body other : List Declaration}
    (swaps : Swaps body other) {before after : Evaluation} {scope : Scope} (opened : before.scopes = scope :: outer)
    (kept : scope.entity.Kept) (ordinary : scope.entity.kind ≠ .application)
    (run : evaluateStatements (Deeper.upTo depth) context body before = .ok () after) :
    ∃ last, evaluateStatements (Deeper.upTo depth) context other before = .ok () last ∧
      last.scopes.head?.map Scope.entity = after.scopes.head?.map Scope.entity := by
  induction swaps generalizing before after scope with
  | refl body => exact ⟨after, run, rfl⟩
  | cons first later inductionHypothesis =>
    rw [evaluateStatements] at run ⊢
    obtain ⟨_, between, one, two⟩ := (bind_eq_ok _ _ _ _ _).mp run
    have runs := evaluateStatement_runs (Deeper.upTo_sound depth) first one
    obtain ⟨changed, opened', kind⟩ := SameBlocks.around (opened ▸ runs.blocks)
    have kept' : changed.entity.Kept :=
      runs.innermost (by simpa [opened] using kept) changed (by simp [opened'])
    obtain ⟨last, two', same⟩ := inductionHypothesis opened' kept' (kind ▸ ordinary) two
    exact ⟨last, (bind_eq_ok _ _ _ _ _).mpr ⟨(), between, one, two'⟩, same⟩
  | swap flat flat' between rest =>
    exact evaluateStatements_exchange proper fits flat outside flat' opened kept ordinary run
  | trans one two first second =>
    obtain ⟨middle, run', same⟩ := first opened kept ordinary run
    obtain ⟨last, run'', same'⟩ := second opened kept ordinary run'
    exact ⟨last, run'', same'.trans same⟩

theorem OutsideApplication.noting {state : Evaluation} (outside : OutsideApplication state.scopes)
    (descriptor : Descriptor) (attached : Bool) :
    OutsideApplication (state.noting descriptor attached).scopes := by
  cases opened : state.scopes with
  | nil =>
    rw [noting_scopes_nil opened]
    rintro _ ⟨⟩
  | cons parent outer =>
    obtain ⟨exclusive, noted⟩ := noting_scopes opened descriptor attached
    rw [noted]
    rintro _ ⟨⟩
    exact outside parent (by simp [opened])

/-- A block that becomes an entity becomes the same one after trades. -/
theorem evaluateBlock_swaps (proper : context.job.files.Proper) {name : String}
    (ordinary : name ≠ EntityKind.application.elementName) {line : Nat} {attached : Bool}
    {body other : List Declaration} (swaps : Swaps body other) {state : Evaluation}
    (outside : OutsideApplication state.scopes) {finished : Entity}
    (gives : Gives (evaluateBlock context name line attached (evaluateStatements (Deeper.upTo depth) context body))
      state finished) :
    Gives (evaluateBlock context name line attached (evaluateStatements (Deeper.upTo depth) context other)) state
      finished := by
  obtain ⟨_, run⟩ := gives
  obtain ⟨descriptor, start, described, placed, started, running⟩ := (evaluateBlock_eq_ok _ _ _ _ _).mp run
  obtain ⟨_, ran, rfl, rfl⟩ := (inScope_eq_ok _ _ _).mp running
  obtain ⟨kind, kept⟩ := startOf_eq_ok started
  have ordinary' : start.kind ≠ .application := by
    intro application
    refine ordinary ?_
    rw [← (Registry.describe?_eq_some described).2, Descriptor.elementName, ← kind, application]
  obtain ⟨_, ran', same⟩ :=
    evaluateStatements_swaps proper rfl (outside.noting descriptor attached) swaps rfl kept ordinary' ran
  exact ⟨_, (evaluateBlock_eq_ok _ _ _ _ _).mpr ⟨descriptor, start, described, placed, started,
    (inScope_eq_ok _ _ _).mpr ⟨_, ran', by rw [same], rfl⟩⟩⟩

/-- Assignments to different properties leave each other alone. In an entity that holds what its kind reads, as all do
that recipes come to, and that is no application, an assignment changes one property alone, and two of them may be made
in either order. A block outside of applications becomes the same entity, or none, when its flat declarations are
permuted, on whatever lines they stand then. -/
theorem separate_assignments :
    (∀ (entity : Entity) (first second : String) (value more : Value), entity.Kept → entity.kind ≠ .application →
      first ≠ second →
        (∀ changed, entity.setCoerced first value = .ok changed →
          (∀ name, name ≠ first → changed.property? name = entity.property? name) ∧
            changed.properties.keys = entity.properties.keys) ∧
        ∀ result, (entity.setCoerced first value >>= fun changed => changed.setCoerced second more) = .ok result ↔
          (entity.setCoerced second more >>= fun changed => changed.setCoerced first value) = .ok result) ∧
    ∀ (context : RecipeContext) (depth : Nat) (name : String) (line : Nat) (attached : Bool)
      (body other : List Declaration) (state : Evaluation) (finished : Entity), context.job.files.Proper →
      name ≠ EntityKind.application.elementName → OutsideApplication state.scopes →
      Permutes (Declaration.allUnnumbered body) (Declaration.allUnnumbered other) →
        (Gives (evaluateBlock context name line attached (evaluateStatements (Deeper.upTo depth) context body)) state
            finished ↔
          Gives (evaluateBlock context name line attached (evaluateStatements (Deeper.upTo depth) context other)) state
            finished) := by
  constructor
  · intro entity first second value more kept ordinary differs
    refine ⟨fun changed set => ?_, fun result => ?_⟩
    · have assigns := Entity.setCoerced_assigns kept set
      refine ⟨fun name other => (assigns.alikeAt kept ordinary other).same, ?_⟩
      rw [Entity.keys_of_kept assigns.kept, Entity.keys_of_kept kept, assigns.kind]
    · rw [attempt_eq_ok, attempt_eq_ok]
      constructor
      · rintro ⟨changed, one, two⟩
        exact Entity.setCoerced_swap kept ordinary differs one two
      · rintro ⟨changed, one, two⟩
        exact Entity.setCoerced_swap kept ordinary differs.symm one two
  · intro context depth name line attached body other state finished proper ordinary outside permutes
    rw [evaluateBlock_unnumbered name line attached body, evaluateBlock_unnumbered name line attached other]
    exact ⟨evaluateBlock_swaps proper ordinary permutes.swaps outside,
      evaluateBlock_swaps proper ordinary permutes.symm.swaps outside⟩

/-- A service is given a number for its name, of which it takes the text, and one name for a list. Its block is the
same with the two declarations in either order around another block. -/
theorem separate_assignments_service :
    let service := Entity.fresh .service
    let context : RecipeContext := ⟨.plain ⟨[], []⟩ .standard, ⟨"/web-service.recipe"⟩, .empty⟩
    let name (line : Nat) : Declaration := .mk "name" line (.arguments [.int 7])
    let needs (line : Nat) : Declaration := .mk "dependsOn" line (.assignment (.text "db"))
    let lifecycle : Declaration := .mk "lifecycle" 3 (.block [.mk "init" 4 (.arguments [.text "install.sh"])])
    let run := fun declarations => evaluateBlock context "service" 1 true
      (evaluateStatements (Deeper.upTo 0) context declarations)
    (∃ changed result, service.setCoerced "name" (.int 7) = .ok changed ∧
      changed.property? "dependsOn" = service.property? "dependsOn" ∧
      (service.setCoerced "dependsOn" (.text "db") >>= fun changed => changed.setCoerced "name" (.int 7)) = .ok result ∧
      result.property? "name" = some (.text "7") ∧ result.property? "dependsOn" = some (.sequence [.text "db"])) ∧
    ∃ finished, Gives (run [name 2, lifecycle, needs 6]) (start .empty) finished ∧
      Gives (run [needs 2, lifecycle, name 6]) (start .empty) finished ∧
      finished.at? "name" = some (.text "7") ∧ finished.at? "lifecycle.init" = some (.text "install.sh") := by
  intro service context name needs lifecycle run
  let named := service.withProperty "name" (.text "7")
  let both := named.withProperty "dependsOn" (.sequence [.text "db"])
  have kept : service.Kept := Entity.kept_fresh .service
  have one : service.setCoerced "name" (.int 7) = .ok named :=
    (Entity.setCoerced_eq_ok_iff kept (by decide)).mpr ⟨_, .text "7", rfl, by decide +kernel, rfl⟩
  have two : named.setCoerced "dependsOn" (.text "db") = .ok both :=
    (Entity.setCoerced_eq_ok_iff (Entity.setCoerced_assigns kept one).kept (by decide)).mpr
      ⟨_, .sequence [.text "db"], rfl, by decide +kernel, rfl⟩
  have separate := separate_assignments.1 service "name" "dependsOn" (.int 7) (.text "db") kept (by decide) (by decide)
  have permutes : Permutes (Declaration.allUnnumbered [name 2, lifecycle, needs 6])
      (Declaration.allUnnumbered [needs 2, lifecycle, name 6]) :=
    ⟨List.Perm.swap (needs 0) (name 0) [], rfl⟩
  have ends : (((run [name 2, lifecycle, needs 6]).run' (start .empty)).map fun finished =>
      (finished.at? "name", finished.at? "lifecycle.init")) = some (some (.text "7"), some (.text "install.sh")) := by
    decide +kernel
  obtain ⟨finished, ran, shown⟩ := Option.map_eq_some_iff.mp ends
  obtain ⟨called, started⟩ := Prod.mk.inj shown
  have gives := Running.gives_of_run' ran
  have proper : context.job.files.Proper := List.forall_mem_nil _
  refine ⟨⟨named, both, one, (separate.1 named one).1 "dependsOn" (by decide), ?_, rfl, rfl⟩, finished, gives, ?_,
    called, started⟩
  · exact (separate.2 both).mp ((attempt_eq_ok _ _ _).mpr ⟨named, one, two⟩)
  · exact (separate_assignments.2 context 0 "service" 1 true _ _ _ finished proper (by decide) (by rintro _ ⟨⟩)
      permutes).mp gives

end Evaluation

end DeployRecipe
