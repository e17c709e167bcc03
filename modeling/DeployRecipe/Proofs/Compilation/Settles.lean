import DeployRecipe.Proofs.Compilation.Moments
import DeployRecipe.Proofs.Compilation.Shallow
import DeployRecipe.Proofs.PlainPath

/-!
A compilation settles what it starts: it is inside of at most so many files at each moment, it does not fail
because files lead to files too often, and it does the same where they may lead to each other more often. If a
service of an application leads back to a file that is being compiled, it fails because of the cycle.
-/

namespace DeployRecipe

open Running

/-- The failure says that files lead back to each other. -/
def CompileError.IsCircular (error : CompileError) : Prop :=
  ∃ cycle, error.kind = .circularReference cycle

/-- The two paths lead to the same place. -/
def FileTree.leadTogether (tree : FileTree) (path other : Path) : Bool :=
  match tree.locate path, tree.locate other with
  | .ok place, .ok there => place = there
  | _, _ => false

/-- The recipe is one of the job, and its path is plain. -/
structure RecipeContext.Within (job : Job) (context : RecipeContext) : Prop where
  job : context.job = job
  plain : context.recipeFile.IsPlain

namespace Moment

/-- The file that the service is to be loaded from is being compiled. -/
def closes : Moment → Bool
  | entered _ => false
  | named context state =>
    match (named context state).serviceFile? with
    | none => false
    | some path => state.session.active.any fun outer => context.job.files.leadTogether outer path

/-- The file that the service is to be loaded from stands at a plain path. -/
def Tame (job : Job) : Moment → Prop
  | entered _ => True
  | named context state =>
    context.Within job → ∀ path, (named context state).serviceFile? = some path → path.IsPlain

end Moment

section Judgements

variable {job : Job} {σ α β : Type} {active : σ → List Path} {limit : Nat} {own : List Path}

/-- The outcome of a step that leaves the files that it enters, and that does not fail in a bad way. -/
structure Quiet (bad : CompileError → Prop) (active : σ → List Path) (own : List Path)
    (outcome : EStateM.Result CompileError σ α) : Prop where
  keeps : ∀ value after, outcome = .ok value after → active after = own
  spares : ∀ error after, outcome = .error error after → ¬ bad error

/-- A step that enters no file. -/
def Calm (active : σ → List Path) (action : EStateM CompileError σ α) : Prop :=
  ∀ state, Quiet CompileError.OfNesting active (active state) (action state)

/-- The outcome of a step with its moments, beside the outcome of a step that may lead to more files. -/
structure Settled (active : σ → List Path) (limit : Nat) (own : List Path) (moments : List Moment)
    (outcome other : EStateM.Result CompileError σ α) : Prop extends Quiet CompileError.OfDepth active own outcome where
  same : other = outcome
  bounded : ∀ moment ∈ moments, moment.session.active.length ≤ limit
  closes : moments.any Moment.closes = true →
    ∃ error after, outcome = .error error after ∧ error.IsCircular

/-- A step settles what it starts inside of the given files. -/
def Settles (job : Job) (active : σ → List Path) (limit : Nat) (own : List Path)
    (one other : EStateM CompileError σ α) (moments : σ → List Moment) : Prop :=
  ∀ state, active state = own → (∀ moment ∈ moments state, moment.Tame job) →
    Settled active limit own (moments state) (one state) (other state)

namespace Quiet

variable {bad worse : CompileError → Prop} {first : EStateM CompileError σ α} {next : α → EStateM CompileError σ β}
  {state : σ}

theorem ok (value : α) (kept : active state = own) : Quiet bad active own (.ok value state) :=
  ⟨by rintro _ _ ⟨⟩; exact kept, by rintro _ _ ⟨⟩⟩

theorem error {failure : CompileError} (good : ¬ bad failure) :
    Quiet bad active own (.error failure state : EStateM.Result CompileError σ α) :=
  ⟨by rintro _ _ ⟨⟩, by rintro _ _ ⟨⟩; exact good⟩

theorem mono {outcome : EStateM.Result CompileError σ α} (quiet : Quiet bad active own outcome)
    (weaker : ∀ error, worse error → bad error) : Quiet worse active own outcome :=
  ⟨quiet.keeps, fun error after failed => mt (weaker error) (quiet.spares error after failed)⟩

theorem bind (head : Quiet bad active own (first state))
    (rest : ∀ value after, first state = .ok value after → active after = own →
      Quiet bad active own (next value after)) : Quiet bad active own ((first >>= next) state) := by
  cases run : first state with
  | ok value between =>
    rw [bind_of_ok run]
    exact rest value between run (head.keeps value between run)
  | error failure between =>
    rw [bind_of_error run]
    exact error (head.spares failure between run)

end Quiet

namespace Calm

theorem pure (value : α) : Calm active (Pure.pure value : EStateM CompileError σ α) := fun _ =>
  .ok value rfl

theorem throw {error : CompileError} (good : ¬ error.OfNesting) :
    Calm active (MonadExcept.throw error : EStateM CompileError σ α) := fun _ => .error good

theorem bind {first : EStateM CompileError σ α} {next : α → EStateM CompileError σ β} (head : Calm active first)
    (rest : ∀ value, Calm active (next value)) : Calm active (first >>= next) := fun state =>
  (head state).bind fun value after _ kept => kept ▸ rest value after

theorem get_bind {next : σ → EStateM CompileError σ α} (rest : ∀ state, Calm active (next state)) :
    Calm active (get >>= next) := fun state => rest state state

theorem ofExcept {outcome : Except CompileError α} (spares : Spares CompileError.OfNesting outcome) :
    Calm active (MonadExcept.ofExcept outcome : EStateM CompileError σ α) := by
  cases outcome with
  | ok value => exact pure value
  | error error => exact throw (spares error rfl)

theorem modify {change : σ → σ} (kept : ∀ state, active (change state) = active state) :
    Calm active (modify change : EStateM CompileError σ PUnit) := fun state => .ok PUnit.unit (kept state)

end Calm

/-- An outcome with its failure, its result and its state changed. -/
def carry {τ : Type} (change : CompileError → CompileError) (result : α → σ → β) (put : σ → τ) :
    EStateM.Result CompileError σ α → EStateM.Result CompileError τ β
  | .ok value state => .ok (result value state) (put state)
  | .error error state => .error (change error) (put state)

/-- An outcome without moments. -/
theorem Settled.of_quiet {outcome : EStateM.Result CompileError σ α}
    (quiet : Quiet CompileError.OfNesting active own outcome) : Settled active limit own [] outcome outcome :=
  ⟨quiet.mono fun _ => CompileError.OfDepth.ofNesting, rfl, List.forall_mem_nil _,
    fun closing => absurd closing Bool.false_ne_true⟩

/-- A cycle ends an outcome. -/
theorem Settled.of_isCircular {moments : List Moment} {error : CompileError} {after : σ}
    (circular : error.IsCircular) (bounded : ∀ moment ∈ moments, moment.session.active.length ≤ limit) :
    Settled active limit own moments (.error error after : EStateM.Result CompileError σ α) (.error error after) := by
  obtain ⟨cycle, kind⟩ := circular
  have shallow : ¬ error.OfDepth := by
    rw [CompileError.OfDepth, kind]
    rintro ⟨⟩
  exact ⟨.error shallow, rfl, bounded, fun _ => ⟨error, after, rfl, cycle, kind⟩⟩

/-- What is settled stays so where failures keep their kind and states their files. -/
theorem Settled.carry {τ : Type} {active' : τ → List Path} {outer : List Path} {moments : List Moment}
    {outcome other : EStateM.Result CompileError σ α} (settled : Settled active limit own moments outcome other)
    {change : CompileError → CompileError} (kind : ∀ error, (change error).kind = error.kind)
    (result : α → σ → β) {put : σ → τ} (kept : ∀ state, active state = own → active' (put state) = outer) :
    Settled active' limit outer moments (carry change result put outcome) (carry change result put other) := by
  rw [settled.same]
  cases outcome with
  | ok value state =>
    refine ⟨.ok _ (kept state (settled.keeps value state rfl)), rfl, settled.bounded, fun closing => ?_⟩
    obtain ⟨_, _, failed, _⟩ := settled.closes closing
    cases failed
  | error error state =>
    refine ⟨.error ?_, rfl, settled.bounded, fun closing => ?_⟩
    · rw [CompileError.OfDepth, kind]
      exact settled.spares error state rfl
    · obtain ⟨_, _, failed, cycle, circular⟩ := settled.closes closing
      cases failed
      exact ⟨change error, put state, rfl, cycle, (kind error).trans circular⟩

/-- One more moment before the others, at which no cycle is closed. -/
theorem Settled.cons {moments : List Moment} {outcome other : EStateM.Result CompileError σ α} {moment : Moment}
    (bounded : moment.session.active.length ≤ limit) (free : moment.closes = false)
    (settled : Settled active limit own moments outcome other) :
    Settled active limit own (moment :: moments) outcome other := by
  refine ⟨settled.toQuiet, settled.same, List.forall_mem_cons.mpr ⟨bounded, settled.bounded⟩, fun closing => ?_⟩
  rw [List.any_cons, free, Bool.false_or] at closing
  exact settled.closes closing

theorem ensuring_eq_carry (restore : σ → σ) (action : EStateM CompileError σ α) (state : σ) :
    ensuring restore action state = carry id (fun value _ => value) restore (action state) := by
  rw [ensuring]
  cases action state <;> rfl

theorem adapting_eq_carry (change : CompileError → CompileError) (action : EStateM CompileError σ α) (state : σ) :
    adapting change action state = carry change (fun value _ => value) id (action state) := by
  rw [adapting]
  cases action state <;> rfl

namespace Settles

variable {one other : EStateM CompileError σ α} {next more : α → EStateM CompileError σ β}
  {here : σ → List Moment} {moments : α → σ → List Moment}

theorem of_calm (calm : Calm active one) : Settles job active limit own one one fun _ => [] := by
  rintro state rfl -
  exact .of_quiet (calm state)

/-- What comes after a step that enters no file. -/
theorem calm_bind (calm : Calm active one)
    (rest : ∀ value, (∃ before after, one before = .ok value after) →
      Settles job active limit own (next value) (more value) (moments value)) :
    Settles job active limit own (one >>= next) (one >>= more) (followed one moments) := by
  rintro state rfl tame
  cases run : one state with
  | ok value between =>
    simp only [followed, run] at tame ⊢
    rw [bind_of_ok run, bind_of_ok run]
    exact rest value ⟨state, between, run⟩ between ((calm state).keeps value between run) tame
  | error failure between =>
    simp only [followed, run]
    rw [bind_of_error run, bind_of_error run]
    exact .of_quiet (.error ((calm state).spares failure between run))

theorem bind (head : Settles job active limit own one other here)
    (rest : ∀ value, Settles job active limit own (next value) (more value) (moments value)) :
    Settles job active limit own (one >>= next) (other >>= more) (andThen one here moments) := by
  intro state inside tame
  have start := head state inside fun moment member => tame moment (List.mem_append_left _ member)
  cases run : one state with
  | ok value between =>
    have free : (here state).any Moment.closes = false := by
      by_contra busy
      obtain ⟨error, after, failed, _⟩ := start.closes (by simpa using busy)
      rw [run] at failed
      cases failed
    have later := rest value between (start.keeps value between run) fun moment member =>
      tame moment (List.mem_append_right _ (by simpa only [followed, run] using member))
    have moments_eq : andThen one here moments state = here state ++ moments value between := by
      simp only [andThen, followed, run]
    rw [bind_of_ok run, bind_of_ok (start.same.trans run), moments_eq]
    refine ⟨later.toQuiet, later.same, fun moment member => ?_, fun closing => later.closes ?_⟩
    · exact (List.mem_append.mp member).elim (start.bounded moment) (later.bounded moment)
    · rwa [List.any_append, free, Bool.false_or] at closing
  | error failure between =>
    have moments_eq : andThen one here moments state = here state := by
      simp only [andThen, followed, run, List.append_nil]
    rw [bind_of_error run, bind_of_error (start.same.trans run), moments_eq]
    refine ⟨.error (start.spares failure between run), rfl, start.bounded, fun closing => ?_⟩
    obtain ⟨error, after, failed, circular⟩ := start.closes closing
    rw [run] at failed
    cases failed
    exact ⟨failure, between, rfl, circular⟩

/-- What comes before a step that enters no file. -/
theorem bind_calm (head : Settles job active limit own one other here) (rest : ∀ value, Calm active (next value)) :
    Settles job active limit own (one >>= next) (other >>= next) here := by
  have whole : Settles job active limit own (one >>= next) (other >>= next) (andThen one here fun _ _ => []) :=
    head.bind fun value => of_calm (rest value)
  have moments_eq : andThen one here (fun _ _ => []) = here := by
    funext state
    cases run : one state <;> simp only [andThen, followed, run, List.append_nil]
  rwa [moments_eq] at whole

/-- Actions one after the other. -/
theorem forM {action repeated : α → EStateM CompileError σ PUnit} {here : α → σ → List Moment}
    (each : ∀ item, Settles job active limit own (action item) (repeated item) (here item)) (list : List α) :
    Settles job active limit own (list.forM action) (list.forM repeated) (oneByOne action here list) := by
  induction list with
  | nil => exact of_calm (.pure _)
  | cons first rest inductionHypothesis => exact (each first).bind fun _ => inductionHypothesis

end Settles

end Judgements

end DeployRecipe
