import DeployRecipe.Proofs.Compilation.Growth
import DeployRecipe.Proofs.Compilation.Units
import DeployRecipe.Proofs.Entity.ReadOnly

/-!
The lineage of a service. Extending can only come first in the block of a service and no other declaration
changes the lineage, so it is the chain of the bases, each extended by the one before it. No base is extended
inside its own compilation, so they differ, and every one of them was read.
-/

namespace DeployRecipe

namespace Entity

/-- The value of the lineage for the bases, the nearest first. -/
def lineageOf (bases : List Path) : Value :=
  .sequence (bases.map fun base => .text base.text)

theorem lineage_eq {entity : Entity} (service : entity.kind = .service) {bases : List Path}
    (held : entity.property? lineageSlot = some (lineageOf bases)) : entity.lineage = bases.map Path.text := by
  simp [lineage, service, property, held, lineageOf, List.filterMap_map, List.filterMap_eq_map']

theorem property?_addBase {entity : Entity} (service : entity.kind = .service) {base : Path} {bases : List Path}
    (held : entity.property? lineageSlot = some (lineageOf bases)) :
    (entity.addBase base.text).property? lineageSlot = some (lineageOf (base :: bases)) := by
  rw [addBase, lineage_eq service held, property?, Entries.find?_insert_self, lineageOf, List.map_map, List.map_cons]
  rfl

end Entity

namespace Evaluation

variable {context : RecipeContext} {before after : Evaluation}

/-- The bases of a service, the nearest first, as the steps of its block lead to them. -/
inductive Chain : List Step → List Path → Prop
  | alone {list : List Step} (none : ∀ step ∈ list, step.declaration.name ≠ extendWord) : Chain list []
  | based {first : Step} {rest inner : List Step} {base : Path} {entity : Entity} {bases : List Path}
    (extends' : first.Extends base entity) (leads : first.recipe? = some inner)
    (once : ∀ step ∈ rest, step.declaration.name ≠ extendWord) (chain : Chain inner bases) :
    Chain (first :: rest) (base :: bases)

/-- A service that is alone leads to no service in a directory. -/
theorem openService?_alone (scope : Scope) {line : Nat} {values : Evaluating (List Value)}
    (evaluated : ∀ given between, values before = .ok given between → between.scopes = [scope])
    (opened : RecipeContext × List Declaration) :
    openService? context line values before ≠ .ok (some opened) after := by
  intro run
  obtain ⟨given, between, values', run⟩ := (Running.bind_eq_ok _ _ _ _ _).mp run
  obtain ⟨_, named, binding, run⟩ := (Running.bind_eq_ok _ _ _ _ _).mp run
  obtain ⟨inner, outer, changed, used, scopes, _, rfl⟩ := (bindName_eq_ok _ _ _).mp binding
  obtain ⟨rfl, rfl⟩ := List.cons.inj (scopes.symm.trans (evaluated given between values'))
  rw [Running.get_bind] at run
  have none : serviceDirectory? { between with scopes := [{ inner with entity := changed, used }] } context = none :=
    rfl
  rw [none] at run
  obtain ⟨same, _⟩ := (Running.pure_eq_ok _ _ _ _).mp run
  cases same

/-- A step in a block that is alone leads to a recipe only if it extends. -/
theorem Step.Compiles.extends {step : Step} {entity : Entity} (compiles : step.Compiles entity) {scope : Scope}
    (alone : step.before.scopes = [scope]) : step.declaration.name = extendWord := by
  obtain ⟨nested, declarations, between, later, opened, _⟩ := compiles
  obtain ⟨depth, context, ⟨name, line, body⟩, before⟩ := step
  have sound := Deeper.upTo_sound depth
  by_contra other
  cases body with
  | block declarations => cases opened
  | arguments expressions =>
    by_cases named : name = nameProperty
    · simp only [opens?, if_neg (show ¬ name = extendWord from other), if_pos named] at opened
      refine openService?_alone scope (fun given between values => ?_) _ opened
      exact (evaluateItems_leaves sound expressions values).scopes.trans alone
    · simp only [opens?, if_neg (show ¬ name = extendWord from other), if_neg named] at opened
      cases opened
  | assignment expression =>
    by_cases named : name = nameProperty
    · simp only [opens?, if_pos named] at opened
      refine openService?_alone scope (fun given between values => ?_) _ opened
      obtain ⟨_, _, value, rest⟩ := (Running.bind_eq_ok _ _ _ _ _).mp values
      obtain ⟨_, rfl⟩ := (Running.pure_eq_ok _ _ _ _).mp rest
      exact (evaluate_leaves sound expression value).scopes.trans alone
    · simp only [opens?, if_neg named] at opened
      cases opened

/-- Every declaration in a block counts. -/
theorem evaluateInPlace_counts {depth : Nat} {declaration : Declaration} {changed : Scope} {outer : List Scope}
    (inside : before.scopes ≠ [])
    (run : evaluateInPlace (Deeper.upTo depth) context declaration before = .ok () after)
    (ended : after.scopes = changed :: outer) : 0 < changed.position := by
  obtain ⟨name, line, body⟩ := declaration
  rw [evaluateInPlace_inside inside, evaluateStatement] at run
  obtain ⟨_, between, _, counted⟩ := (Running.bind_eq_ok _ _ _ _ _).mp run
  obtain rfl := (Running.modify_eq_ok _ _ _ _).mp counted
  rw [mapInnermost] at ended
  split at ended
  · obtain ⟨rfl, _⟩ := List.cons.inj ended
    exact Nat.succ_pos _
  · rename_i outside
    rw [outside] at ended
    cases ended

section Alone

variable {scope : Scope} (open' : before.scopes = [scope]) (kept : scope.entity.Kept)
include open' kept

/-- What does not come first does not extend. -/
theorem evaluateInPlace_ne_extend {depth : Nat} {declaration : Declaration} (later : 0 < scope.position)
    (run : evaluateInPlace (Deeper.upTo depth) context declaration before = .ok () after) :
    declaration.name ≠ extendWord := by
  intro word
  obtain ⟨line, expressions, rfl⟩ := evaluateInPlace_extend open' kept word run
  rw [evaluateInPlace_inside (by simp [open']), evaluateStatement] at run
  obtain ⟨_, _, evaluated, _⟩ := (Running.bind_eq_ok _ _ _ _ _).mp run
  rw [evaluateBody, if_pos rfl] at evaluated
  obtain ⟨_, _, _, _, _, _, extending, _⟩ := (extendBase_eq_ok _ _ _).mp evaluated
  obtain ⟨_, _, _, scopes, _, first⟩ := extendingKind_eq_ok extending
  obtain ⟨rfl, _⟩ := List.cons.inj (open'.symm.trans scopes)
  omega

/-- What does not extend leaves the lineage of a service. -/
theorem evaluateInPlace_lineage (service : scope.entity.kind = .service) {depth : Nat} {declaration : Declaration}
    (other : declaration.name ≠ extendWord)
    (single : spliced? (Deeper.upTo depth) context declaration before = none)
    (run : evaluateInPlace (Deeper.upTo depth) context declaration before = .ok () after) :
    ∃ changed, after.scopes = [changed] ∧ changed.entity.Kept ∧ changed.entity.kind = .service ∧
      changed.entity.property? Entity.lineageSlot = scope.entity.property? Entity.lineageSlot := by
  have done {changed : Scope} {name : String} {value : Value} (ended : after.scopes = [changed])
      (set : scope.entity.setProperty name value = .ok changed.entity) :
      ∃ changed, after.scopes = [changed] ∧ changed.entity.Kept ∧ changed.entity.kind = .service ∧
        changed.entity.property? Entity.lineageSlot = scope.entity.property? Entity.lineageSlot := by
    have assigns := Entity.setProperty_assigns kept set
    exact ⟨changed, ended, assigns.kept, assigns.kind.trans service,
      Entity.property?_of_readOnly kept set (by rw [service]; decide)⟩
  obtain ⟨name, line, body⟩ := declaration
  cases body with
  | block declarations =>
    obtain ⟨_, _, _, _, _, _, _, _, _, _, _, _, _, bound, _, _, ended⟩ :=
      evaluateInPlace_block open' (Deeper.upTo_sound depth) run
    exact done ended (Entity.bindEntity_eq_ok bound).1
  | arguments | assignment =>
    obtain ⟨changed, ended, turns⟩ := evaluateInPlace_turns open' (by rintro _ ⟨⟩) single run
    rcases turns.entity with ⟨_, assigned⟩ | ⟨_, _, _, _, compiles, _⟩
    · obtain ⟨_, set⟩ := Entity.assignPath_segments_sets assigned
      exact done ended set
    · exact absurd (compiles.extends open') other

end Alone

/-- Steps of a service of which the first one does not extend, or that come after another one, leave its
lineage. -/
theorem Linked.lineage {list : List Step} {before after : Evaluation} (linked : Linked context before list after)
    {scope : Scope} (open' : before.scopes = [scope]) (kept : scope.entity.Kept)
    (service : scope.entity.kind = .service)
    (aside : 0 < scope.position ∨ ∀ first ∈ list.head?, first.declaration.name ≠ extendWord) :
    (∀ step ∈ list, step.declaration.name ≠ extendWord) ∧
      ∃ changed, after.scopes = [changed] ∧
        changed.entity.property? Entity.lineageSlot = scope.entity.property? Entity.lineageSlot := by
  induction linked generalizing scope with
  | done passes =>
    obtain ⟨_, _, ended⟩ := passes.innermost open'
    exact ⟨by simp, _, ended, rfl⟩
  | @step _ start _ _ depth declaration rest passes single run _ inductionHypothesis =>
    obtain ⟨position, grown, begun⟩ := passes.innermost open'
    have other : declaration.name ≠ extendWord := by
      rcases aside with later | first
      · exact evaluateInPlace_ne_extend begun kept (Nat.lt_of_lt_of_le later grown) run
      · exact first _ rfl
    obtain ⟨changed, ended, kept', service', same⟩ := evaluateInPlace_lineage begun kept service other single run
    have later := evaluateInPlace_counts (by simp [begun]) run ended
    obtain ⟨others, last, ended', same'⟩ := inductionHypothesis ended kept' service' (Or.inl later)
    exact ⟨List.forall_mem_cons.mpr ⟨other, others⟩, last, ended', same'.trans same⟩

/-- A state that a session led to, from file to file. -/
structure Reached (files : FileTree) (session : Session) (state : Evaluation) : Prop where
  active : ∀ path, session.isActive path = true → state.session.isActive path = true
  sources : Sources.Grow files session.sources state.session.sources
  recorded : session.Recorded → state.session.Recorded

variable {files : FileTree} {session : Session}

theorem Grows.reached (grows : Grows files before after) (reached : Reached files session before) :
    Reached files session after where
  active path inside := by
    rw [Session.isActive, grows.session.active]
    exact reached.active path inside
  sources := reached.sources.trans grows.session.sources
  recorded start := grows.session.recorded (reached.recorded start)

theorem invariant_reached (session : Session) (depth : Nat) :
    Invariant context (Reached context.job.files session) depth where
  after reached run := (evaluateInPlace_grows run).reached reached
  inside := by
    intro line expressions before declarations inside reached run
    obtain ⟨relative, between, path, entered, evaluated, _, _, parsed, rfl⟩ := (openFragment_eq_ok _ _ _).mp run
    have there := (evaluateItems_grows evaluated).reached reached
    have grows := Session.parseFile_grows parsed
    refine ⟨fun other inside => ?_, there.sources.trans grows.sources, fun start => grows.recorded (there.recorded start)⟩
    rw [Session.isActive, show (between.entering path entered).session.active = _ from grows.active, List.any_cons,
      Bool.or_eq_true]
    exact Or.inr (there.active other inside)

/-- A step of declarations that end well ends well, and what it records stays recorded. -/
def Step.Ends (step : Step) (files : FileTree) (last : Evaluation) : Prop :=
  ∃ next, evaluateInPlace (Deeper.upTo step.depth) step.context step.declaration step.before = .ok () next ∧
    Sources.Grow files next.session.sources last.session.sources

theorem Step.Ends.later {step : Step} {between last : Evaluation} (ends : step.Ends files between)
    (grow : Sources.Grow files between.session.sources last.session.sources) : step.Ends files last := by
  obtain ⟨next, run, more⟩ := ends
  exact ⟨next, run, more.trans grow⟩

theorem ends_of_mem_stepsWith {depth : Nat} {inner : RecipeContext → List Declaration → Evaluation → List Step}
    (deeper : ∀ declarations inside last,
      (Deeper.upTo depth).declarations context declarations inside = .ok () last →
        ∀ step ∈ inner context declarations inside, step.Ends context.job.files last)
    {declarations : List Declaration} {before after : Evaluation}
    (run : declarations.forM (evaluateInPlace (Deeper.upTo depth) context) before = .ok () after) {step : Step}
    (member : step ∈ stepsWith depth inner context declarations before) : step.Ends context.job.files after := by
  induction declarations generalizing before with
  | nil => exact absurd member List.not_mem_nil
  | cons declaration rest inductionHypothesis =>
    obtain ⟨_, between, evaluated, others⟩ := (Running.bind_eq_ok _ _ _ _ _).mp run
    have grow := (forM_evaluateInPlace_grows others).session.sources
    rw [stepsWith, evaluated] at member
    rcases List.mem_append.mp member with now | later
    · cases spliced : spliced? (Deeper.upTo depth) context declaration before with
      | none =>
        rw [spliced] at now
        obtain rfl := List.mem_singleton.mp now
        exact ⟨between, evaluated, grow⟩
      | some pair =>
        obtain ⟨found, inside⟩ := pair
        rw [spliced] at now
        obtain ⟨line, expressions, rfl, opened⟩ := spliced?_eq_some spliced
        obtain ⟨_, _, last, opened', ran, _, left⟩ := evaluateInPlace_load evaluated
        rw [opened] at opened'
        cases opened'
        refine (deeper _ _ _ ran step now).later ?_
        rw [left] at grow
        exact grow
    · exact inductionHypothesis others later

theorem ends_of_mem_steps {depth : Nat} (declarations : List Declaration) {before after : Evaluation}
    (run : declarations.forM (evaluateInPlace (Deeper.upTo depth) context) before = .ok () after) {step : Step}
    (member : step ∈ steps depth context declarations before) : step.Ends context.job.files after := by
  induction depth generalizing declarations before after step with
  | zero => exact ends_of_mem_stepsWith (fun _ _ _ ran => absurd ran (Running.throw_ne_ok _ _ _ _)) run member
  | succ depth inductionHypothesis =>
    refine ends_of_mem_stepsWith ?_ run member
    exact fun found _ _ ran _ member => inductionHypothesis found ran member

/-- The steps of the block that becomes the root of a recipe stand in its context and inside of its files, and
what they record stays recorded. -/
theorem rootSteps_reached {depth : Nat} {declarations : List Declaration} {later : Session} {root : Entity}
    (run : evaluateRecipe (Deeper.upTo depth) context declarations session = .ok root later) {step : Step}
    (member : step ∈ rootSteps depth context declarations session) :
    step.context = context ∧ step.depth ≤ depth ∧ Reached context.job.files session step.before ∧
      ∃ last, step.Ends context.job.files last ∧
        Sources.Grow context.job.files last.session.sources later.sources := by
  obtain ⟨above, block, below, split, opens⟩ := exists_rootBlock run
  obtain ⟨finished, ran, _, rfl⟩ := (evaluateRecipe_eq_ok _ _ _ _ _ _).mp run
  have inPlace := forM_evaluateInPlace_outside (Deeper.upTo_sound depth) rfl ran
  have there : block ∈ steps depth context declarations (start session) :=
    split ▸ List.mem_append_right _ List.mem_cons_self
  have begins : Reached context.job.files session (start session) := ⟨fun _ => id, .refl _ _, id⟩
  obtain ⟨here, deep, reached⟩ := of_mem_steps depth (invariant_reached session) begins there
  obtain ⟨next, ran', grow⟩ := ends_of_mem_steps declarations inPlace there
  have linked := steps_linked depth context declarations inPlace
  rw [split] at linked
  obtain ⟨_, _, before, _⟩ := linked.split
  have outside := before.runs.blocks.eq_nil_iff.mpr rfl
  obtain ⟨name, line, content, descriptor, declared, described, listed⟩ := Step.inner?_eq_some opens
  rw [declared] at ran'
  obtain ⟨_, last, _, described', evaluated, _, _, _, session'⟩ :=
    evaluateInPlace_rootBlock (Deeper.upTo_sound block.depth) outside ran'
  rw [described] at described'
  cases described'
  have content' := forM_evaluateInPlace (Deeper.upTo_sound block.depth) (List.cons_ne_nil _ _) evaluated
  rw [listed] at member
  have inside : Reached context.job.files session
      { block.before with scopes := .opening (.fresh descriptor.kind) :: block.before.scopes } :=
    ⟨reached.active, reached.sources, reached.recorded⟩
  rw [here] at member content'
  obtain ⟨same, within, reached'⟩ := of_mem_steps block.depth (invariant_reached session) inside member
  refine ⟨same, within.trans deep, reached', last, ends_of_mem_steps content content' member, ?_⟩
  rw [← session']
  exact grow

/-- A step that extends a base leads to the recipe in the file of the base, and ends with what that leaves. -/
theorem Step.Extends.leads {step : Step} {base : Path} {entity : Entity} (extends' : step.Extends base entity)
    {next : Evaluation} (inside : step.before.scopes ≠ [])
    (run : evaluateInPlace (Deeper.upTo step.depth) step.context step.declaration step.before = .ok () next) :
    (∃ candidate, step.context.job.files.canonical candidate = .ok base) ∧
      ∃ depth between nested declarations opened inner,
        step.depth = depth + 1 ∧ Grows step.context.job.files step.before between ∧
        openNested step.context.job base (.inherited step.context.environment.inheritable) between.session =
          .ok (nested, declarations) opened ∧
        evaluateRecipe (Deeper.upTo depth) nested declarations opened = .ok entity inner ∧
        step.recipe? = some (rootSteps depth nested declarations opened) ∧ next.session = inner.leave := by
  obtain ⟨line, expressions, reference, between, after, declared, values, resolved, compiled⟩ := extends'
  obtain ⟨depth, context, _, before⟩ := step
  obtain rfl := declared
  obtain ⟨nested, declarations, opened, inner, ready, evaluated, rfl⟩ := compileNested_iff_openNested.mp compiled
  refine ⟨resolve_eq_ok resolved, ?_⟩
  have ends : next.session = inner.leave := by
    rw [evaluateInPlace_inside inside, evaluateStatement] at run
    obtain ⟨_, middle, extended, counted⟩ := (Running.bind_eq_ok _ _ _ _ _).mp run
    rw [evaluateBody, if_pos rfl] at extended
    obtain ⟨_, _, _, _, _, _, _, values', resolved', compiled', _, rfl⟩ := (extendBase_eq_ok _ _ _).mp extended
    cases values.symm.trans values'
    cases resolved.symm.trans resolved'
    cases compiled.symm.trans compiled'
    rw [← (Running.modify_eq_ok _ _ _ _).mp counted, session_mapInnermost, extendedBy, session_mapInnermost]
  cases depth with
  | zero => exact absurd evaluated (Running.throw_ne_ok _ _ _ _)
  | succ depth =>
    refine ⟨depth, between, nested, declarations, opened, inner, rfl, evaluateItems_grows values, ready, evaluated, ?_,
      ends⟩
    have opens := opens?_extend values resolved ready
    rw [recipe?, opens]
    rfl

/-- A base is the absolute path of a file. -/
structure IsBase (files : FileTree) (base : Path) : Prop where
  absolute : base.isAbsolute = true
  canonical : files.canonical base = .ok base

theorem isBase_of_recorded (proper : files.Proper) {base candidate : Path}
    (found : files.canonical candidate = .ok base) {sources : Sources} (read : sources.Read files)
    (recorded : sources.has base = true) : IsBase files base := by
  have absolute : base.isAbsolute = true := by
    obtain ⟨place, _, rfl⟩ := FileTree.canonical_eq_ok.mp found
    exact FileTree.pathOf_isAbsolute place
  obtain ⟨text, there⟩ := read.readText recorded absolute (FileTree.reads_of_canonical proper found)
  exact ⟨absolute, (FileTree.canonical_of_readText proper found there).2⟩

/-- A base is got ready inside of the files around it and of itself, and is recorded then. -/
structure OpensBase (files : FileTree) (session : Session) (base : Path) (opened : Session) : Prop where
  free : session.isActive base = false
  outside : ∀ path, opened.isActive path = false → base.same path = false ∧ session.isActive path = false
  sources : Sources.Grow files session.sources opened.sources
  recorded : session.Recorded → opened.Recorded ∧ opened.sources.has base = true

theorem Reached.opensBase {job : Job} {base : Path} {handover : Handover} {nested : RecipeContext}
    {declarations : List Declaration} {opened : Session} (reached : Reached job.files session before)
    (ready : openNested job base handover before.session = .ok (nested, declarations) opened) :
    nested.job = job ∧ OpensBase job.files session base opened := by
  obtain ⟨free, job, entered, records⟩ := openNested_grows ready
  have around {path : Path} (aside : before.session.isActive path = false) : session.isActive path = false :=
    Bool.eq_false_iff.mpr fun active => Bool.eq_false_iff.mp aside (reached.active path active)
  refine ⟨job, around free, fun path aside => ?_, reached.sources.trans entered.sources, fun start => ?_⟩
  · rw [Session.isActive, entered.active, List.any_cons, Bool.or_eq_false_iff] at aside
    exact ⟨aside.1, around aside.2⟩
  · have recorded := reached.recorded start
    exact ⟨entered.recorded recorded, records recorded⟩

/-- The lineage of a service is made up of its bases. They are compiled inside of each other, so no two of them
are the same, and none is that of a file around the service. -/
theorem evaluateRecipe_lineage {depth : Nat} (proper : context.job.files.Proper) {declarations : List Declaration}
    {later : Session} {root : Entity} (recorded : session.Recorded) (read : session.sources.Read context.job.files)
    (run : evaluateRecipe (Deeper.upTo depth) context declarations session = .ok root later)
    (service : root.kind = .service) :
    ∃ bases, Chain (rootSteps depth context declarations session) bases ∧
      root.property? Entity.lineageSlot = some (Entity.lineageOf bases) ∧
      bases.Pairwise (fun base other => base.same other = false) ∧
      ∀ base ∈ bases, session.isActive base = false ∧ IsBase context.job.files base ∧
        later.sources.has base = true := by
  induction depth using Nat.strongRecOn generalizing context declarations session later root with
  | ind depth inductionHypothesis =>
  obtain ⟨above, block, below, split, opens⟩ := exists_rootBlock run
  obtain ⟨kind, inside, finished, scope, linked, open', kept, ended, rfl⟩ := inner_linked run split opens
  obtain ⟨changed, scopes, same⟩ := SameBlocks.around (open' ▸ linked.runs.blocks)
  obtain ⟨rfl, _⟩ := List.cons.inj (ended.symm.trans scopes)
  obtain rfl : kind = .service := same.symm.trans service
  have reached {step : Step} (member : step ∈ rootSteps depth context declarations session) :=
    rootSteps_reached run member
  generalize rootSteps depth context declarations session = list at linked reached
  by_cases extending : ∃ first ∈ list.head?, first.declaration.name = extendWord
  · obtain ⟨first, head, word⟩ := extending
    obtain ⟨rest, rfl⟩ := List.head?_eq_some_iff.mp head
    obtain ⟨here, deep, there, last, ⟨next, ran, grow⟩, grow'⟩ := reached List.mem_cons_self
    cases linked with
    | step passes single run linked =>
    obtain ⟨scopes, base, entity, extends', whole, kind, ended'⟩ := evaluateInPlace_extends open' passes word run
    rw [run] at ran
    cases ran
    obtain ⟨⟨candidate, found⟩, lower, between, nested, inside', opened, inner, deeper, grows, ready, evaluated, leads,
      left⟩ := extends'.leads (by simp [scopes]) run
    obtain ⟨job, opens⟩ := (grows.reached there).opensBase ready
    obtain ⟨recorded', own⟩ := opens.recorded recorded
    have read' := opens.sources.read read
    rw [← job] at proper read' found ⊢
    have less : lower + 1 ≤ depth := deeper ▸ deep
    obtain ⟨bases, chain, held, apart, others⟩ := inductionHypothesis lower less proper recorded' read' evaluated kind
    have extended := Entity.addBase_assigns whole kind base.text
    obtain ⟨once, last, scopes, lineage⟩ := linked.lineage ended' extended.kept (extended.kind.trans kind)
      (Or.inl Nat.one_pos)
    obtain ⟨rfl, _⟩ := List.cons.inj (ended.symm.trans scopes)
    have keeps (path : Path) (there : inner.sources.has path = true) : later.sources.has path = true := by
      refine grow'.has path (grow.has path ?_)
      rw [left]
      exact there
    refine ⟨base :: bases, .based extends' leads once chain, lineage.trans (Entity.property?_addBase kind held),
      List.pairwise_cons.mpr ⟨fun other member => ?_, apart⟩, List.forall_mem_cons.mpr ⟨?_, fun other member => ?_⟩⟩
    · exact (opens.outside other (others other member).1).1
    · have kept := (evaluateRecipe_grows evaluated).sources
      exact ⟨opens.free, isBase_of_recorded proper found read' own, keeps base (kept.has base own)⟩
    · obtain ⟨beside, isBase, there⟩ := others other member
      exact ⟨(opens.outside other beside).2, isBase, keeps other there⟩
  · have aside : ∀ first ∈ list.head?, first.declaration.name ≠ extendWord :=
      fun first head word => extending ⟨first, head, word⟩
    obtain ⟨others, last, scopes, lineage⟩ := linked.lineage open' (Entity.kept_fresh _) rfl (Or.inr aside)
    obtain ⟨rfl, _⟩ := List.cons.inj (ended.symm.trans scopes)
    exact ⟨[], .alone others, lineage, .nil, by simp⟩

end Evaluation

namespace Compiled

end Compiled

end DeployRecipe
