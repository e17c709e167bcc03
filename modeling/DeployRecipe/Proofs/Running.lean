import Mathlib.Tactic

/-!
Runs of steps that may fail, and of steps that also keep a state. A run that ends well is made up of the
runs of its parts, and a step follows another one if its parts follow the parts of that one.
-/

namespace DeployRecipe.Running

variable {ε σ α β : Type}

theorem attempt_eq_ok (first : Except ε α) (next : α → Except ε β) (result : β) :
    (first >>= next) = .ok result ↔ ∃ value, first = .ok value ∧ next value = .ok result := by
  cases first with
  | error error => simp [bind, Except.bind]
  | ok value => simp [bind, Except.bind]

theorem map_eq_ok (first : Except ε α) (change : α → β) (result : β) :
    first.map change = .ok result ↔ ∃ value, first = .ok value ∧ change value = result := by
  cases first with
  | error error => simp [Except.map]
  | ok value => simp [Except.map]

theorem bind_eq_ok (first : EStateM ε σ α) (next : α → EStateM ε σ β) (before after : σ) (result : β) :
    (first >>= next) before = .ok result after ↔
      ∃ value between, first before = .ok value between ∧ next value between = .ok result after := by
  change EStateM.bind first next before = _ ↔ _
  rw [EStateM.bind]
  cases first before with
  | ok value between => simp
  | error error between => simp

@[simp] theorem pure_eq_ok (value result : α) (before after : σ) :
    (pure value : EStateM ε σ α) before = .ok result after ↔ value = result ∧ before = after := by
  change EStateM.Result.ok value before = _ ↔ _
  simp

@[simp] theorem get_eq_ok (before after result : σ) :
    (get : EStateM ε σ σ) before = .ok result after ↔ before = result ∧ before = after := by
  change EStateM.Result.ok before before = _ ↔ _
  simp

@[simp] theorem set_eq_ok (before after state : σ) (result : PUnit) :
    (set state : EStateM ε σ PUnit) before = .ok result after ↔ state = after := by
  change EStateM.Result.ok PUnit.unit state = _ ↔ _
  simp

@[simp] theorem modify_eq_ok (change : σ → σ) (before after : σ) (result : PUnit) :
    (modify change : EStateM ε σ PUnit) before = .ok result after ↔ change before = after := by
  change EStateM.Result.ok PUnit.unit (change before) = _ ↔ _
  simp

@[simp] theorem throw_ne_ok (error : ε) (before after : σ) (result : α) :
    (throw error : EStateM ε σ α) before ≠ .ok result after := by
  change EStateM.Result.error error before ≠ _
  simp

@[simp] theorem ofExcept_eq_ok (outcome : Except ε α) (before after : σ) (result : α) :
    (MonadExcept.ofExcept outcome : EStateM ε σ α) before = .ok result after ↔
      outcome = .ok result ∧ before = after := by
  cases outcome with
  | ok value =>
    change EStateM.Result.ok value before = _ ↔ _
    simp
  | error error =>
    change EStateM.Result.error error before = _ ↔ _
    simp

theorem bind_of_ok {first : EStateM ε σ α} {before between : σ} {value : α}
    (run : first before = .ok value between) (next : α → EStateM ε σ β) :
    (first >>= next) before = next value between := by
  change EStateM.bind first next before = _
  rw [EStateM.bind, run]

theorem bind_of_error {first : EStateM ε σ α} {before between : σ} {error : ε}
    (run : first before = .error error between) (next : α → EStateM ε σ β) :
    (first >>= next) before = .error error between := by
  change EStateM.bind first next before = _
  rw [EStateM.bind, run]

/-- A step that looks at the state first. -/
theorem get_bind (next : σ → EStateM ε σ α) (before : σ) : (get >>= next) before = next before before := rfl

theorem modify_bind (change : σ → σ) (next : PUnit → EStateM ε σ α) (before : σ) :
    (modify change >>= next) before = next ⟨⟩ (change before) := rfl

/-- A step ends well with a result. -/
def Gives (step : EStateM ε σ α) (before : σ) (result : α) : Prop :=
  ∃ after, step before = .ok result after

theorem gives_of_run' {step : EStateM ε σ α} {before : σ} {result : α} (run : step.run' before = some result) :
    Gives step before result := by
  delta EStateM.run' EStateM.run at run
  cases outcome : step before with
  | ok value after =>
    rw [outcome] at run
    obtain rfl := Option.some.inj run
    exact ⟨after, outcome⟩
  | error error after =>
    rw [outcome] at run
    cases run

theorem gives_bind (first : EStateM ε σ α) (next : α → EStateM ε σ β) (before : σ) (result : β) :
    Gives (first >>= next) before result ↔
      ∃ value between, first before = .ok value between ∧ Gives (next value) between result := by
  simp only [Gives, bind_eq_ok]
  constructor
  · rintro ⟨after, value, between, one, two⟩
    exact ⟨value, between, one, after, two⟩
  · rintro ⟨value, between, one, after, two⟩
    exact ⟨after, value, between, one, two⟩

@[simp] theorem gives_pure (value : α) (before : σ) (result : α) :
    Gives (pure value : EStateM ε σ α) before result ↔ value = result := by
  simp [Gives]

/-- The second step ends well where the first one does, with the same result, and related states stay
related. -/
def Follows (before after : σ → σ → Prop) (first second : EStateM ε σ α) : Prop :=
  ∀ ⦃state other result later⦄, before state other → first state = .ok result later →
    ∃ last, second other = .ok result last ∧ after later last

namespace Follows

variable {before between after : σ → σ → Prop} {first second : EStateM ε σ α}

theorem of_ne_ok (fails : ∀ state result later, first state ≠ .ok result later) :
    Follows before after first second :=
  fun _ _ _ _ _ run => absurd run (fails _ _ _)

theorem pure (value : α) :
    Follows before before (Pure.pure value : EStateM ε σ α) (Pure.pure value) := by
  intro state other result later related run
  obtain ⟨rfl, rfl⟩ := (pure_eq_ok _ _ _ _).mp run
  exact ⟨other, rfl, related⟩

theorem ofExcept (outcome : Except ε α) :
    Follows before before (MonadExcept.ofExcept outcome : EStateM ε σ α) (MonadExcept.ofExcept outcome) := by
  intro state other result later related run
  obtain ⟨success, rfl⟩ := (ofExcept_eq_ok _ _ _ _).mp run
  exact ⟨other, (ofExcept_eq_ok _ _ _ _).mpr ⟨success, rfl⟩, related⟩

theorem bind {next more : α → EStateM ε σ β} (head : Follows before between first second)
    (rest : ∀ value, Follows between after (next value) (more value)) :
    Follows before after (first >>= next) (second >>= more) := by
  intro state other result later related run
  obtain ⟨value, middle, one, two⟩ := (bind_eq_ok _ _ _ _ _).mp run
  obtain ⟨last, one', related'⟩ := head related one
  obtain ⟨final, two', related''⟩ := rest value related' two
  exact ⟨final, (bind_eq_ok _ _ _ _ _).mpr ⟨value, last, one', two'⟩, related''⟩

theorem modify {change alter : σ → σ}
    (related : ∀ ⦃state other⦄, before state other → after (change state) (alter other)) :
    Follows before after (modify change : EStateM ε σ PUnit) (modify alter) := by
  intro state other result later start run
  obtain rfl := (modify_eq_ok _ _ _ _).mp run
  exact ⟨_, rfl, related start⟩

end Follows

end DeployRecipe.Running
