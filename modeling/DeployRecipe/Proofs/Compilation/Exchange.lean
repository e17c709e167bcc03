import DeployRecipe.Proofs.Compilation.Innermost
import DeployRecipe.Proofs.Compilation.Pending

/-!
The flat declarations of a block, which give values to its own properties. Outside of applications, two of them may
trade places.
-/

namespace DeployRecipe

open Running
open Evaluation (Aside Exactly Beneath)

namespace Declaration

/-- What the declaration gives to its name, if it is no block. -/
def expressions : Declaration → List Expression
  | .mk _ _ (.arguments expressions) => expressions
  | .mk _ _ (.assignment expression) => [expression]
  | .mk _ _ (.block _) => []

/-- The declaration gives a value to the property of its name. -/
def isFlat : Declaration → Bool
  | .mk name _ (.arguments _) =>
    !DottedName.isDotted name && name != Evaluation.extendWord && name != Evaluation.loadWord
  | .mk name _ (.assignment _) => !DottedName.isDotted name
  | .mk _ _ (.block _) => false

theorem plain_of_isFlat {declaration : Declaration} (flat : declaration.isFlat = true) :
    DottedName.isDotted declaration.name = false := by
  obtain ⟨name, line, body⟩ := declaration
  cases body with
  | block => cases flat
  | arguments =>
    simp only [isFlat, Bool.and_eq_true, Bool.not_eq_true'] at flat
    exact flat.1.1
  | assignment =>
    simp only [isFlat, Bool.not_eq_true'] at flat
    exact flat

end Declaration

/-- The block after a property was given a value and the declaration was counted. -/
def Scope.given (scope : Scope) (name : String) (changed : Entity) : Scope :=
  { scope with entity := changed, used := scope.used.add name, position := scope.position + 1 }

namespace Pending

section Given

variable {scope around : Scope} {first second : String} {one other finished finished' : Entity}

/-- Two blocks that hold the same, of which one may have been given values for more names. -/
theorem apart_same {names : List String} (same : around.entity = scope.entity) (kept : scope.entity.Kept)
    (ordinary : scope.entity.kind ≠ .application)
    (used : ∀ name ∈ around.used, name ∉ names → name ∈ scope.used) (position : around.position = scope.position)
    (counted : scope.position ≠ 0) (exclusive : around.exclusive = scope.exclusive) :
    Apart ⟨[], names, scope.entity, scope.entity⟩ scope around where
  kept := kept
  kept' := same ▸ kept
  kind := congrArg Entity.kind same
  ordinary := ordinary
  others _ _ _ := same ▸ rfl
  here _ _ := rfl
  there _ _ := same ▸ rfl
  ours := List.nil_subset _
  free _ member := absurd member List.not_mem_nil
  used := used
  position := position
  counted := counted
  exclusive := exclusive

/-- A block that was given a value for one name, beside the same block that was given a value for another name. -/
theorem apart_given (kept : scope.entity.Kept) (ordinary : scope.entity.kind ≠ .application) (differs : first ≠ second)
    (plain : DottedName.isDotted first = false) (plain' : DottedName.isDotted second = false)
    (free : scope.used.covers first = false) (assigns : scope.entity.Assigns first one)
    (assigns' : scope.entity.Assigns second other) :
    Apart ⟨[first], [second], one, other⟩ (scope.given first one) (scope.given second other) where
  kept := assigns.kept
  kept' := assigns'.kept
  kind := assigns'.kind.trans assigns.kind.symm
  ordinary := assigns.kind ▸ ordinary
  others name ours theirs := by
    have left := (assigns.alikeAt kept ordinary (by simpa using ours)).same
    exact ((assigns'.alikeAt kept ordinary (by simpa using theirs)).same).trans left.symm
  here _ _ := rfl
  there _ _ := rfl
  ours := by simp [Scope.given, UsedNames.mem_add]
  free := by
    simpa [Scope.given] using UsedNames.covers_add.mpr ⟨DottedName.not_overlaps_of_ne differs.symm plain' plain, free⟩
  used name member theirs := by
    refine UsedNames.mem_add.mpr (.inr ?_)
    exact (UsedNames.mem_add.mp member).resolve_left (by simpa using theirs)
  position := rfl
  counted := Nat.succ_ne_zero _
  exclusive := rfl

/-- Both blocks hold the same once each of them was given the value that it lacks. -/
theorem apart_met (apart : Apart ⟨[first], [second], one, other⟩ scope around) (differs : first ≠ second)
    (assigns : scope.entity.Assigns second finished) (assigns' : around.entity.Assigns first finished')
    (same : finished.property? second = other.property? second)
    (same' : finished'.property? first = one.property? first) :
    Apart ⟨[], [], finished, finished⟩ (scope.given second finished) (around.given first finished') := by
  have ordinary' : around.entity.kind ≠ .application := apart.kind ▸ apart.ordinary
  have kind : finished'.kind = finished.kind := assigns'.kind.trans (apart.kind.trans assigns.kind.symm)
  have equal : finished' = finished := Entity.eq_of_property? assigns.kept assigns'.kept kind fun name => by
    by_cases isFirst : name = first
    · subst isFirst
      have stays := (assigns.alikeAt apart.kept apart.ordinary differs).same
      exact same'.trans ((apart.here name (.inl (List.mem_singleton_self _))).symm.trans stays.symm)
    · have stays' := (assigns'.alikeAt apart.kept' ordinary' isFirst).same
      by_cases isSecond : name = second
      · subst isSecond
        exact stays'.trans ((apart.there name (.inr (List.mem_singleton_self _))).trans same.symm)
      · have stays := (assigns.alikeAt apart.kept apart.ordinary isSecond).same
        exact stays'.trans ((apart.others name (by simpa using isFirst) (by simpa using isSecond)).trans stays.symm)
  have used (name : String) (member : name ∈ around.used.add first) : name ∈ scope.used.add second := by
    rcases UsedNames.mem_add.mp member with rfl | before
    · exact UsedNames.subset_add _ _ (apart.ours (List.mem_singleton_self _))
    · by_cases isSecond : name = second
      · exact UsedNames.mem_add.mpr (.inl isSecond)
      · exact UsedNames.subset_add _ _ (apart.used name before (by simpa using isSecond))
  have position : (around.given first finished').position = (scope.given second finished).position :=
    congrArg (· + 1) apart.position
  have counted : (scope.given second finished).position ≠ 0 := Nat.succ_ne_zero _
  exact apart_same equal assigns.kept (assigns.kind ▸ apart.ordinary) (fun name member _ => used name member) position
    counted apart.exclusive

end Given

end Pending

namespace Evaluation

variable {deeper : Deeper} {context : RecipeContext} {depth line : Nat} {before after : Evaluation}

/-- Expressions change nothing but the session. -/
theorem evaluateItems_stays {items : List Expression} {values : List Value}
    (run : evaluateItems (Deeper.upTo depth) context line items before = .ok values after) :
    ∃ session, after = { before with session } := by
  obtain ⟨-, fragments, contents⟩ := evaluateItems_unchanged run
  obtain ⟨scopes, locals, root⟩ := Contents.mk.inj contents.symm
  obtain ⟨_, _, _, _, _⟩ := after
  cases fragments
  cases scopes
  cases locals
  cases root
  exact ⟨_, rfl⟩

/-- The declarations of a block change nothing but the session and the block. -/
theorem evaluateStatements_stays {declarations : List Declaration} {scope : Scope} {outer : List Scope}
    (opened : before.scopes = scope :: outer)
    (run : evaluateStatements (Deeper.upTo depth) context declarations before = .ok () after) :
    ∃ session changed, after = { before with session, scopes := changed :: outer } ∧
      changed.entity.kind = scope.entity.kind := by
  have grown := evaluateStatements_grown run
  have fragments := grown.fragments
  obtain ⟨changed, scopes, grows, locals, root⟩ := grown.innermost opened
  obtain ⟨_, _, _, _, _⟩ := after
  cases fragments
  cases scopes
  cases locals
  cases root
  exact ⟨_, changed, rfl, grows.kind⟩

/-- A flat declaration evaluates its values, gives them to its name, and is counted. -/
theorem evaluateStatement_flat {declaration : Declaration} (flat : declaration.isFlat = true) :
    evaluateStatement deeper context declaration =
      evaluateItems deeper context declaration.line declaration.expressions >>= fun given =>
        assign deeper context declaration.line declaration.name given >>= fun _ => countDeclaration := by
  obtain ⟨name, line, body⟩ := declaration
  cases body with
  | block => cases flat
  | arguments expressions =>
    simp only [Declaration.isFlat, Bool.and_eq_true, bne_iff_ne] at flat
    rw [evaluateStatement, evaluateBody, if_neg flat.1.2, if_neg flat.2, bind_assoc]
    rfl
  | assignment expression =>
    rw [evaluateStatement, evaluateBody]
    simp [Declaration.expressions, Declaration.line, Declaration.name, evaluateItems]

theorem assign_outside_eq_ok {scope : Scope} {outer : List Scope} (opened : before.scopes = scope :: outer)
    (outside : OutsideApplication outer) {name : String} {values : List Value} :
    assign deeper context line name values before = .ok () after ↔
      bindName context line name values before = .ok () after := by
  rw [assign, Running.bind_eq_ok]
  constructor
  · rintro ⟨_, between, bound, run⟩
    obtain ⟨_, _, _, _, opened', _, rfl⟩ := (bindName_eq_ok _ _ _).mp bound
    obtain ⟨rfl, rfl⟩ := List.cons.inj (opened.symm.trans opened')
    split at run
    · rwa [(outside.loadService_eq_ok rfl).mp run]
    · rwa [← ((Running.pure_eq_ok _ _ _ _).mp run).2]
  · intro bound
    refine ⟨(), after, bound, ?_⟩
    obtain ⟨_, _, _, _, opened', _, rfl⟩ := (bindName_eq_ok _ _ _).mp bound
    obtain ⟨rfl, rfl⟩ := List.cons.inj (opened.symm.trans opened')
    split
    · exact (outside.loadService_eq_ok rfl).mpr rfl
    · rfl

/-- Outside of applications, a flat declaration gives one value to its name, which has to be free. -/
theorem evaluateStatement_flat_eq_ok {declaration : Declaration} (flat : declaration.isFlat = true) {scope : Scope}
    {outer : List Scope} (opened : before.scopes = scope :: outer) (outside : OutsideApplication outer) :
    evaluateStatement (Deeper.upTo depth) context declaration before = .ok () after ↔
      ∃ given session value changed,
        evaluateItems (Deeper.upTo depth) context declaration.line declaration.expressions before =
          .ok given { before with session } ∧
        Entity.single scope.entity.kind declaration.name given = .ok value ∧
        scope.used.covers declaration.name = false ∧
        scope.entity.assignPath [declaration.name] value = .ok changed ∧
        after = { before with session, scopes := scope.given declaration.name changed :: outer } := by
  have segments := DottedName.segments_of_not_dotted (Declaration.plain_of_isFlat flat)
  rw [evaluateStatement_flat flat]
  simp only [Running.bind_eq_ok, countDeclaration, Running.modify_eq_ok]
  constructor
  · rintro ⟨given, between, evaluated, _, _, assigned, rfl⟩
    obtain ⟨session, rfl⟩ := evaluateItems_stays evaluated
    have opened' : { before with session }.scopes = scope :: outer := opened
    obtain ⟨_, _, changed, used, opened'', bound, rfl⟩ :=
      (bindName_eq_ok _ _ _).mp ((assign_outside_eq_ok opened' outside).mp assigned)
    obtain ⟨rfl, rfl⟩ := List.cons.inj (opened.symm.trans opened'')
    obtain ⟨value, single, free, set, rfl⟩ := bound_eq_ok_iff.mp bound
    exact ⟨given, session, value, changed, evaluated, single, free, segments ▸ set, rfl⟩
  · rintro ⟨given, session, value, changed, evaluated, single, free, set, rfl⟩
    have opened' : { before with session }.scopes = scope :: outer := opened
    have bound : bound scope declaration.name given = .ok (changed, scope.used.add declaration.name) :=
      bound_eq_ok_iff.mpr ⟨value, single, free, segments.symm ▸ set, rfl⟩
    exact ⟨given, _, evaluated, (), _, (assign_outside_eq_ok opened' outside).mpr
      ((bindName_eq_ok _ _ _).mpr ⟨scope, outer, changed, _, opened', bound, rfl⟩), rfl⟩

theorem evaluateStatements_append (first second : List Declaration) :
    evaluateStatements deeper context (first ++ second) =
      evaluateStatements deeper context first >>= fun _ => evaluateStatements deeper context second := by
  induction first with
  | nil => simp [evaluateStatements]
  | cons declaration rest inductionHypothesis => simp [evaluateStatements, inductionHypothesis]

section Again

open Session (View Both)

variable {files : FileTree} {view : View} (proper : files.Proper) (fits : context.job.files = files)
  {declaration : Declaration} (flat : declaration.isFlat = true) {outer : List Scope}
  (outside : OutsideApplication outer)
include proper fits flat outside

/-- A flat declaration does the same in another block that holds the same under its name. -/
theorem evaluateStatement_flat_again {session other last : Session} {fragments : List Path} {locals : Table}
    {root : Option Entity} {scope around : Scope} {changed : Entity} (both : Both files view session other)
    (alike : Entity.AlikeAt declaration.name scope.entity around.entity)
    (free : around.used.covers declaration.name = false)
    (run : evaluateStatement (Deeper.upTo depth) context declaration
      ⟨session, fragments, locals, scope :: outer, root⟩ =
        .ok () ⟨last, fragments, locals, scope.given declaration.name changed :: outer, root⟩) :
    ∃ last' changed', evaluateStatement (Deeper.upTo depth) context declaration
        ⟨other, fragments, locals, around :: outer, root⟩ =
          .ok () ⟨last', fragments, locals, around.given declaration.name changed' :: outer, root⟩ ∧
      Both files view last last' ∧ scope.entity.Assigns declaration.name changed ∧
      around.entity.Assigns declaration.name changed' ∧
      changed'.property? declaration.name = changed.property? declaration.name := by
  obtain ⟨given, _, value, _, evaluated, single, _, set, same⟩ :=
    (evaluateStatement_flat_eq_ok flat rfl outside).mp run
  simp only [Evaluation.mk.injEq, List.cons.injEq, Scope.given, Scope.mk.injEq, and_true, true_and] at same
  obtain ⟨rfl, rfl⟩ := same
  have kinds := kinds_cons alike.kind outer
  have aside : Aside files view (Exactly (scope :: outer) (around :: outer))
      ⟨session, fragments, locals, scope :: outer, root⟩ ⟨other, fragments, locals, around :: outer, root⟩ :=
    ⟨other, _, rfl, ⟨rfl, rfl⟩, both⟩
  obtain ⟨_, evaluated', last', _, rfl, ⟨_, rfl⟩, both'⟩ :=
    evaluateItems_elsewhere proper fits kinds (upTo_elsewhere proper fits kinds depth) _ _ view aside evaluated
  obtain ⟨changed', set', same⟩ := alike.assignPath set
  refine ⟨last', changed', ?_, both', ?_, ?_, same⟩
  · exact (evaluateStatement_flat_eq_ok flat rfl outside).mpr
      ⟨given, last', value, changed', evaluated', alike.kind ▸ single, free, set', rfl⟩
  · exact Entity.assignPath_assigns alike.kept set
  · exact Entity.assignPath_assigns alike.kept' set'

omit flat in
/-- Declarations leave a property alone to which a block may still give a value after them. -/
theorem evaluateStatements_untouched {declarations : List Declaration} {name : String}
    (plain : DottedName.isDotted name = false) {scope held : Scope} (opened : before.scopes = scope :: outer)
    (kept : scope.entity.Kept) (ordinary : scope.entity.kind ≠ .application) (counted : scope.position ≠ 0)
    (shows : before.session.Shows files view)
    (run : evaluateStatements (Deeper.upTo depth) context declarations before = .ok () after)
    (done : after.scopes = held :: outer) (free : held.used.covers name = false) :
    held.entity.Kept ∧ scope.used ⊆ held.used ∧ held.entity.property? name = scope.entity.property? name ∧
      after.session.Shows files view := by
  have unique : Pending.Plain ⟨[], [name], scope.entity, scope.entity⟩ := by simpa [Pending.Plain] using plain
  obtain ⟨_, done', grown, follows⟩ :=
    Pending.Tracks.body proper fits unique depth declarations opened outside run
  obtain ⟨rfl, _⟩ := List.cons.inj (done.symm.trans done')
  obtain ⟨_, _, _, apart, shows', _⟩ := follows (by simpa [Pending.Allows] using free)
    (Pending.apart_same rfl kept ordinary (fun _ member _ => member) rfl counted rfl) ⟨shows, shows⟩
  exact ⟨apart.kept, grown, apart.here name (.inr (List.mem_singleton_self _)), shows'⟩

/-- Two flat declarations of a block trade places. -/
theorem evaluateStatements_exchange {second : Declaration} (flat' : second.isFlat = true)
    {between rest : List Declaration} {scope : Scope} (opened : before.scopes = scope :: outer)
    (kept : scope.entity.Kept) (ordinary : scope.entity.kind ≠ .application)
    (run : evaluateStatements (Deeper.upTo depth) context (declaration :: (between ++ second :: rest)) before =
      .ok () after) :
    ∃ last, evaluateStatements (Deeper.upTo depth) context (second :: (between ++ declaration :: rest)) before =
        .ok () last ∧
      last.scopes.head?.map Scope.entity = after.scopes.head?.map Scope.entity := by
  obtain ⟨own, fragments, locals, _, root⟩ := before
  cases opened
  have plain := Declaration.plain_of_isFlat flat
  have plain' := Declaration.plain_of_isFlat flat'
  have shows := Session.shows_view files own
  simp only [evaluateStatements, evaluateStatements_append, Running.bind_eq_ok] at run ⊢
  obtain ⟨_, _, ranFirst, _, _, ranBetween, _, _, ranSecond, ranRest⟩ := run
  obtain ⟨_, _, _, one, _, _, free, _, rfl⟩ := (evaluateStatement_flat_eq_ok flat rfl outside).mp ranFirst
  obtain ⟨_, _, _, ⟨shown, _⟩, assigns, _⟩ := evaluateStatement_flat_again proper fits flat outside
    ⟨shows, shows⟩ ⟨kept, kept, rfl, ordinary, rfl⟩ free ranFirst
  obtain ⟨_, held, rfl, kind⟩ := evaluateStatements_stays rfl ranBetween
  replace kind : held.entity.kind = scope.entity.kind := kind.trans assigns.kind
  obtain ⟨_, _, _, two, _, _, free', _, rfl⟩ := (evaluateStatement_flat_eq_ok flat' rfl outside).mp ranSecond
  -- Nothing in between comes to the name of the second declaration, so it may be evaluated first.
  obtain ⟨kept', grown, untouched, shown'⟩ := evaluateStatements_untouched proper fits outside plain' rfl assigns.kept
    (assigns.kind ▸ ordinary) (Nat.succ_ne_zero _) shown ranBetween rfl free'
  have unused := UsedNames.covers_eq_false_iff.mp free'
  have differs : declaration.name ≠ second.name := fun same =>
    unused declaration.name (grown (UsedNames.mem_add.mpr (.inl rfl))) (.inl same)
  have same : scope.entity.property? second.name = held.entity.property? second.name :=
    ((assigns.alikeAt kept ordinary differs.symm).same).symm.trans untouched.symm
  have early : scope.used.covers second.name = false :=
    UsedNames.covers_eq_false_iff.mpr fun name member => unused name (grown (UsedNames.subset_add _ _ member))
  obtain ⟨_, other, ranSecond', ⟨shown'', begun⟩, assignsLate, assignsEarly, atSecond⟩ :=
    evaluateStatement_flat_again proper fits flat' outside ⟨shown', shows⟩
      ⟨kept', kept, kind.symm, kind ▸ ordinary, same⟩ early ranSecond
  -- Both blocks are given the same in between, and then the value that they lack.
  have unique : Pending.Plain ⟨[declaration.name], [second.name], one, other⟩ := by
    simpa [Pending.Plain] using ⟨plain, plain'⟩
  obtain ⟨_, done, _, follows⟩ := Pending.Tracks.body proper fits unique depth between rfl outside ranBetween
  obtain ⟨rfl, _⟩ := List.cons.inj done
  obtain ⟨around, _, ranBetween', apart, _, late⟩ := follows (by simpa [Pending.Allows] using free')
    (Pending.apart_given kept ordinary differs plain plain' free assigns assignsEarly) ⟨shown, begun⟩
  have same' : around.entity.property? declaration.name = scope.entity.property? declaration.name :=
    (apart.there declaration.name (.inl (List.mem_singleton_self _))).trans
      (assignsEarly.alikeAt kept ordinary differs).same
  obtain ⟨_, finished, ranFirst', ⟨_, later⟩, _, assignsAgain, atFirst⟩ :=
    evaluateStatement_flat_again proper fits flat outside ⟨shows, late⟩
      ⟨kept, apart.kept', apart.kind.trans kind, ordinary, same'⟩ (apart.free _ (List.mem_singleton_self _)) ranFirst
  have nothing : Pending.Plain ⟨[], [], two, two⟩ := by simp [Pending.Plain]
  obtain ⟨ended, done, _, follows⟩ := Pending.Tracks.body proper fits nothing depth rest rfl outside ranRest
  obtain ⟨ended', _, ranRest', apart, _⟩ := follows (by simp [Pending.Allows])
    (Pending.apart_met apart differs assignsLate assignsAgain atSecond.symm atFirst) ⟨shown'', later⟩
  refine ⟨_, ⟨_, _, ranSecond', _, _, ranBetween', _, _, ranFirst', ranRest'⟩, ?_⟩
  have equal : ended'.entity = ended.entity := Entity.eq_of_property? apart.kept apart.kept' apart.kind fun name =>
    apart.others name List.not_mem_nil List.not_mem_nil
  rw [done]
  simp [equal]

end Again

end Evaluation

end DeployRecipe
