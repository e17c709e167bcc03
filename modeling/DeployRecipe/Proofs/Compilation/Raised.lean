import DeployRecipe.Proofs.Compilation.Ending
import DeployRecipe.Proofs.Compilation.Sites

/-!
What an error tells about the place at which it was raised: it is raised in the innermost file that is being
compiled, and each file on the way out adds itself in front of the chain.
-/

namespace DeployRecipe

open Running

/-- No two of the paths are spelled the same. -/
def Path.AllApart (paths : List Path) : Prop :=
  paths.Pairwise fun one other => one.same other = false

theorem Path.AllApart.push {active : List Path} (apart : AllApart active) {path : Path}
    (free : (active.any fun outer => outer.same path) = false) : AllApart (path :: active) := by
  refine List.pairwise_cons.mpr ⟨fun outer member => ?_, apart⟩
  cases same : path.same outer with
  | false => rfl
  | true =>
    have busy : (active.any fun outer => outer.same path) = true :=
      List.any_eq_true.mpr ⟨outer, member, Path.same_symm same⟩
    rw [free] at busy
    cases busy

namespace CompileError

/-- An error that was raised inside of some files, seen from within the files around a step: its chain and its file
are the files from the innermost one around the step on. -/
structure Raised (around : List Path) (error : CompileError) (active : List Path) : Prop where
  apart : Path.AllApart active
  chain : ∃ inner current rest, around = current :: rest ∧ active = inner ++ around ∧
    error.chain ++ [error.file] = current :: inner.reverse

theorem Raised.here {error : CompileError} {path : Path} {rest : List Path} (apart : Path.AllApart (path :: rest))
    (file : error.file = path) (fresh : error.chain = []) : error.Raised (path :: rest) (path :: rest) :=
  ⟨apart, [], path, rest, rfl, rfl, by rw [fresh, file]; rfl⟩

theorem Raised.inFile {path : Path} {rest : List Path} (apart : Path.AllApart (path :: rest)) (kind : ErrorKind) :
    (inFile path kind).Raised (path :: rest) (path :: rest) :=
  .here apart rfl rfl

theorem Raised.atLine {error : CompileError} {around active : List Path} (raised : error.Raised around active)
    (line : Nat) : (error.atLine line).Raised around active :=
  ⟨raised.apart, raised.chain⟩

theorem within_of_same {error : CompileError} {outer : Path} (same : error.file.same outer = true) :
    error.within outer = error := by
  rw [within, if_pos (by rw [same, Bool.true_or])]

/-- A file that an error leaves is put in front of its chain. -/
theorem Raised.within {error : CompileError} {path outer : Path} {rest active : List Path}
    (raised : error.Raised (path :: outer :: rest) active) : (error.within outer).Raised (outer :: rest) active := by
  obtain ⟨apart, inner, current, around, same, rfl, chain⟩ := raised
  obtain ⟨rfl, rfl⟩ := List.cons.inj same
  -- the files of the error stand inside of the outer one, so none of them is that one
  have each : ∀ file ∈ error.chain ++ [error.file], file.same outer = false := by
    rw [chain]
    intro file member
    have split := (List.pairwise_append.mp apart).2
    rcases List.mem_cons.mp member with rfl | inside
    · exact (List.pairwise_cons.mp split.1).1 outer List.mem_cons_self
    · exact split.2 file (List.mem_reverse.mp inside) outer (List.mem_cons_of_mem _ List.mem_cons_self)
  have other : error.file.same outer = false := each _ (List.mem_append_right _ List.mem_cons_self)
  have first : error.chain.head?.any (·.same outer) = false := by
    cases files : error.chain with
    | nil => rfl
    | cons head tail =>
      exact each head (by rw [files]; exact List.mem_cons_self)
  refine ⟨apart, inner ++ [path], outer, rest, rfl, by simp, ?_⟩
  rw [CompileError.within, other, first, Bool.or_self, if_neg Bool.false_ne_true, List.cons_append, chain,
    List.reverse_append]
  rfl

end CompileError

/-- What an error tells about the place at which it was raised, seen from within some files. About environments and
about the validation nothing is said. -/
def Site.ToldBy (error : CompileError) (around : List Path) : Site → Prop
  | .inside active => error.Raised around active
  | .tooDeep => error.OfDepth
  | _ => True

/-- An error that leaves a file still tells where it was raised. -/
theorem Site.ToldBy.within {site : Site} {error : CompileError} {path outer : Path} {rest : List Path}
    (told : site.ToldBy error (path :: outer :: rest)) : site.ToldBy (error.within outer) (outer :: rest) := by
  cases site with
  | inside active => exact CompileError.Raised.within told
  | tooDeep => exact (CompileError.kind_within error outer).trans told
  | environment => exact trivial
  | validation => exact trivial

section Outcomes

variable {σ τ α β : Type}

/-- The outcome of a step: the state after it, whether it fails or not, and its failure. -/
structure Ends (same : σ → Prop) (fails : CompileError → Prop) (outcome : EStateM.Result CompileError σ α) :
    Prop where
  ok : ∀ value after, outcome = .ok value after → same after
  error : ∀ failure after, outcome = .error failure after → same after ∧ fails failure

namespace Ends

variable {same : σ → Prop} {fails : CompileError → Prop} {state : σ}

theorem of_ok (holds : same state) (value : α) : Ends same fails (.ok value state) :=
  ⟨by rintro _ _ ⟨⟩; exact holds, by rintro _ _ ⟨⟩⟩

theorem of_error {failure : CompileError} (holds : same state) (failed : fails failure) :
    Ends same fails (.error failure state : EStateM.Result CompileError σ α) :=
  ⟨by rintro _ _ ⟨⟩, by rintro _ _ ⟨⟩; exact ⟨holds, failed⟩⟩

theorem carry {outcome : EStateM.Result CompileError σ α} (ends : Ends same fails outcome)
    {change : CompileError → CompileError} (result : α → σ → β) {put : σ → τ} {same' : τ → Prop}
    {fails' : CompileError → Prop} (kept : ∀ after, same after → same' (put after))
    (changed : ∀ failure, fails failure → fails' (change failure)) :
    Ends same' fails' (DeployRecipe.carry change result put outcome) := by
  cases outcome with
  | ok value after => exact of_ok (kept after (ends.ok value after rfl)) _
  | error failure after =>
    obtain ⟨holds, failed⟩ := ends.error failure after rfl
    exact of_error (kept after holds) (changed failure failed)

end Ends

/-- States in which steps are looked at, the files that are being compiled in them, and what steps leave as it is. -/
structure Frame (σ : Type) where
  active : σ → List Path
  placed : σ → Prop
  same : σ → σ → Prop
  refl : ∀ state, same state state
  trans : ∀ {first second third}, same first second → same second third → same first third
  active_eq : ∀ {before after}, same before after → active after = active before
  placed_of : ∀ {before after}, same before after → placed before → placed after

namespace Frame

variable (frame : Frame σ)

/-- Inside of the files that are being compiled. -/
def here (state : σ) : Site := .inside (frame.active state)

/-- A step leaves its frame as it is, and the error with which it fails tells where it failed. -/
def TellsAt (action : EStateM CompileError σ α) (site : σ → Site) (state : σ) : Prop :=
  Ends (frame.same state) (fun error => (site state).ToldBy error (frame.active state)) (action state)

def Tells (action : EStateM CompileError σ α) (site : σ → Site) : Prop :=
  ∀ state, frame.placed state → frame.TellsAt action site state

variable {frame} {first : EStateM CompileError σ α} {next : α → EStateM CompileError σ β} {site : σ → Site}
  {later : α → σ → Site}

theorem TellsAt.bind {state : σ} (head : frame.TellsAt first site state)
    (rest : ∀ value between, frame.same state between → frame.TellsAt (next value) (later value) between) :
    frame.TellsAt (first >>= next) (Site.following first site later) state := by
  rw [TellsAt, Site.following]
  cases run : first state with
  | ok value between =>
    have same := head.ok value between run
    have more := rest value between same
    rw [bind_of_ok run]
    refine ⟨fun result after ran => frame.trans same (more.ok result after ran), fun error after ran => ?_⟩
    obtain ⟨kept, told⟩ := more.error error after ran
    exact ⟨frame.trans same kept, frame.active_eq same ▸ told⟩
  | error error after =>
    obtain ⟨kept, told⟩ := head.error error after run
    rw [bind_of_error run]
    exact .of_error kept told

/-- Actions one after the other, and what comes after the last one. -/
theorem TellsAt.forM_bind {action : α → EStateM CompileError σ PUnit} {sites : α → σ → Site}
    {last : EStateM CompileError σ β} (each : ∀ item, frame.Tells (action item) (sites item)) (list : List α)
    {state : σ} (placed : frame.placed state)
    (finish : ∀ after, frame.same state after → frame.TellsAt last site after) :
    frame.TellsAt (list.forM action >>= fun _ => last) (Site.inTurn action sites site list) state := by
  induction list generalizing state with
  | nil => exact finish state (frame.refl state)
  | cons first rest inductionHypothesis =>
    rw [List.forM, bind_assoc]
    exact (each first state placed).bind fun _ between same =>
      inductionHypothesis (frame.placed_of same placed) fun after kept => finish after (frame.trans same kept)

namespace Tells

theorem pure (value : α) : frame.Tells (Pure.pure value) site := fun state _ => .of_ok (frame.refl state) value

theorem modify {change : σ → σ} (kept : ∀ state, frame.same state (change state)) :
    frame.Tells (modify change : EStateM CompileError σ PUnit) site := fun state _ => .of_ok (kept state) PUnit.unit

theorem get_bind {next : σ → EStateM CompileError σ β}
    (rest : ∀ state, frame.Tells (next state) site) : frame.Tells (get >>= next) site := fun state placed =>
  rest state state placed

theorem throw {error : CompileError}
    (told : ∀ state, frame.placed state → (site state).ToldBy error (frame.active state)) :
    frame.Tells (MonadExcept.throw error : EStateM CompileError σ α) site := fun state placed =>
  .of_error (frame.refl state) (told state placed)

/-- An error in the innermost file. -/
theorem throw_here {error : CompileError} (fresh : error.chain = [])
    (innermost : ∀ state, frame.placed state → ∃ rest, frame.active state = error.file :: rest ∧
      Path.AllApart (frame.active state)) :
    frame.Tells (MonadExcept.throw error : EStateM CompileError σ α) frame.here := by
  refine .throw fun state placed => ?_
  obtain ⟨rest, active, apart⟩ := innermost state placed
  rw [here, active] at *
  exact CompileError.Raised.here apart rfl fresh

theorem bind (head : frame.Tells first site) (rest : ∀ value, frame.Tells (next value) (later value)) :
    frame.Tells (first >>= next) (Site.following first site later) := fun state placed =>
  (head state placed).bind fun value between same => rest value between (frame.placed_of same placed)

/-- Steps that lead to no other file. -/
theorem bind_here (head : frame.Tells first frame.here) (rest : ∀ value, frame.Tells (next value) frame.here) :
    frame.Tells (first >>= next) frame.here := by
  intro state placed
  have whole := head.bind rest state placed
  have place : Site.following first frame.here (fun _ => frame.here) state = frame.here state := by
    rw [Site.following]
    split
    · rename_i value after run
      rw [here, here, frame.active_eq ((head state placed).ok value after run)]
    · rfl
  rwa [TellsAt, place] at whole

/-- What comes after a step and does not fail. -/
theorem bind_ok (head : frame.Tells first site)
    (rest : ∀ value state, ∃ result after, next value state = .ok result after ∧ frame.same state after) :
    frame.Tells (first >>= next) site := by
  intro state placed
  have start := head state placed
  rw [TellsAt]
  cases run : first state with
  | ok value between =>
    obtain ⟨result, after, ran, same⟩ := rest value between
    rw [bind_of_ok run, ran]
    exact .of_ok (frame.trans (start.ok value between run) same) result
  | error error after =>
    rw [bind_of_error run]
    obtain ⟨kept, told⟩ := start.error error after run
    exact .of_error kept told

/-- The place of a step that fails is the same, whatever comes after it. -/
theorem following (head : frame.Tells first site) (later : α → σ → Site) :
    frame.Tells first (Site.following first site later) := by
  intro state placed
  have start := head state placed
  refine ⟨start.ok, fun error after run => ?_⟩
  rw [Site.following, run]
  exact start.error error after run

theorem bind_pure (head : frame.Tells first site) (value : α → β) :
    frame.Tells (first >>= fun found => Pure.pure (value found)) site :=
  head.bind_ok fun _ state => ⟨_, state, rfl, frame.refl state⟩

/-- Actions one after the other. -/
theorem forM {action : α → EStateM CompileError σ PUnit} {sites : α → σ → Site}
    (each : ∀ item, frame.Tells (action item) (sites item)) (list : List α) :
    frame.Tells (list.forM action) (Site.inTurn action sites frame.here list) := by
  induction list with
  | nil => exact .pure _
  | cons first rest inductionHypothesis => exact (each first).bind fun _ => inductionHypothesis

end Tells

end Frame

end Outcomes

end DeployRecipe
