import DeployRecipe.Entity.Binding
import DeployRecipe.Proofs.DottedName
import DeployRecipe.Proofs.Entity.Kept
import DeployRecipe.Proofs.Running

/-!
Every way in which a block gives a value to a property is an assignment to the first segment of its name,
so it keeps the entity and every other property.
-/

namespace DeployRecipe.Entity

theorem replace_eq_ok {entity : Entity} {name : String} {value : Value} {changed : Entity} :
    entity.replace name value = .ok changed ↔ entity.setProperty name value = .ok changed := by
  rw [replace]
  cases entity.setProperty name value with
  | ok result => simp
  | error error => cases error <;> simp

/-- After the coercions some value was assigned. -/
theorem setCoerced_eq_ok {entity : Entity} {name : String} {value : Value} {changed : Entity}
    (success : entity.setCoerced name value = .ok changed) :
    ∃ assigned, entity.setProperty name assigned = .ok changed := by
  rw [setCoerced] at success
  dsimp only at success
  split at success
  · rename_i result first
    exact ⟨_, first.trans (congrArg Except.ok (Except.ok.inj success))⟩
  · cases success
  · split at success
    · rename_i result others attempts
      have member : result ∈ List.filterMap _ _ := attempts ▸ List.mem_cons_self
      obtain ⟨candidate, _, tried⟩ := List.mem_filterMap.mp member
      obtain rfl := Except.ok.inj success
      cases assigned : entity.setProperty name candidate with
      | error error =>
        rw [assigned] at tried
        cases tried
      | ok outcome =>
        rw [assigned] at tried
        exact ⟨candidate, assigned.trans (congrArg Except.ok (Option.some.inj tried))⟩
    · cases success

theorem setCoerced_assigns {entity : Entity} (kept : entity.Kept) {name : String} {value : Value}
    {changed : Entity} (success : entity.setCoerced name value = .ok changed) :
    entity.Assigns name changed := by
  obtain ⟨assigned, set⟩ := setCoerced_eq_ok success
  exact setProperty_assigns kept set

/-- The entity that a block name in front of a path stands for. -/
def opened (entity : Entity) (head : String) (kind : EntityKind) : Except ErrorKind Entity :=
  match entity.property head with
  | .null => pure (fresh kind)
  | current =>
    match ofValue kind current with
    | .ok child => pure child
    | .error error => throw (.typeCoercionFailure entity.kind head (.wrongShape error))

theorem opened_eq_ok {entity child : Entity} {head : String} {kind : EntityKind}
    (success : entity.opened head kind = .ok child) : child.kind = kind ∧ child.Kept := by
  rw [opened] at success
  split at success
  · obtain rfl := Except.ok.inj success
    exact ⟨rfl, kept_fresh kind⟩
  · split at success
    · rename_i result read
      obtain rfl := Except.ok.inj success
      exact ofValue_eq_ok read
    · cases success

/-- The ways in which an assignment to a path succeeds. -/
inductive Assignment (entity : Entity) (value : Value) : List String → Entity → Prop
  | last {name : String} {changed : Entity} (writable : entity.isWritable name = true)
      (success : entity.setCoerced name value = .ok changed) : Assignment entity value [name] changed
  | block {head next : String} {rest : List String} {descriptor : Descriptor} {child inner changed : Entity}
      (writable : entity.isWritable head = true) (described : Registry.describe? head = some descriptor)
      (placed : descriptor.checkPlacement (some entity.kind) = .ok ())
      (start : entity.opened head descriptor.kind = .ok child)
      (assigned : child.assignPath (next :: rest) value = .ok inner)
      (success : entity.setProperty head inner.toValue = .ok changed) :
      Assignment entity value (head :: next :: rest) changed
  | key {head next : String} {rest : List String} {changed : Entity}
      (writable : entity.isWritable head = true) (free : Registry.describe? head = none)
      (success : entity.setCoerced head (.mapping (Mapping.insertPath [] (next :: rest) value)) =
        .ok changed) :
      Assignment entity value (head :: next :: rest) changed

theorem assignPath_last (entity : Entity) (name : String) (value : Value) :
    entity.assignPath [name] value =
      if entity.isWritable name then entity.setCoerced name value
      else .error (.unknownProperty entity.kind name) := by
  rw [assignPath]
  cases entity.isWritable name <;> rfl

theorem assignPath_block {entity : Entity} {head : String} (writable : entity.isWritable head = true)
    {descriptor : Descriptor} (described : Registry.describe? head = some descriptor)
    (placed : descriptor.checkPlacement (some entity.kind) = .ok ()) (next : String) (rest : List String)
    (value : Value) :
    entity.assignPath (head :: next :: rest) value =
      (entity.opened head descriptor.kind).bind fun child =>
        (child.assignPath (next :: rest) value).bind fun inner => entity.replace head inner.toValue := by
  rw [assignPath]
  · simp only [writable, described, placed, opened, Bool.not_true, Bool.false_eq_true, if_false]
    cases entity.property head with
    | null => rfl
    | _ =>
      dsimp only
      generalize ofValue descriptor.kind _ = read
      cases read <;> rfl
  · simp

theorem assignPath_key {entity : Entity} {head : String} (writable : entity.isWritable head = true)
    (free : Registry.describe? head = none) (next : String) (rest : List String) (value : Value) :
    entity.assignPath (head :: next :: rest) value =
      entity.setCoerced head (.mapping (Mapping.insertPath [] (next :: rest) value)) := by
  rw [assignPath]
  · simp only [writable, free]
    rfl
  · simp

theorem assignment_of_eq_ok {entity changed : Entity} {value : Value} {path : List String}
    (some : path ≠ []) (success : entity.assignPath path value = .ok changed) :
    entity.Assignment value path changed := by
  match path with
  | [] => exact absurd rfl some
  | [last] =>
    rw [assignPath_last] at success
    split at success
    · exact .last ‹_› success
    · cases success
  | head :: next :: rest =>
    by_cases writable : entity.isWritable head = true
    · cases described : Registry.describe? head with
      | none => exact .key writable described (assignPath_key writable described next rest value ▸ success)
      | some descriptor =>
        cases placed : descriptor.checkPlacement (Option.some entity.kind) with
        | ok _ =>
          rw [assignPath_block writable described placed] at success
          cases start : entity.opened head descriptor.kind with
          | error error =>
            rw [start] at success
            cases success
          | ok child =>
            rw [start, Except.bind] at success
            cases assigned : child.assignPath (next :: rest) value with
            | error error =>
              rw [assigned] at success
              cases success
            | ok inner =>
              rw [assigned, Except.bind, replace_eq_ok] at success
              exact .block writable described placed start assigned success
        | error reason =>
          rw [assignPath] at success
          · simp only [writable, described, placed] at success
            cases success
          · simp
    · rw [assignPath] at success
      · simp only [writable] at success
        cases success
      · simp

theorem assignPath_sets {entity changed : Entity} {head : String} {rest : List String} {value : Value}
    (success : entity.assignPath (head :: rest) value = .ok changed) :
    ∃ assigned, entity.setProperty head assigned = .ok changed := by
  cases assignment_of_eq_ok (List.cons_ne_nil _ _) success with
  | last _ set => exact setCoerced_eq_ok set
  | block _ _ _ _ _ set => exact ⟨_, set⟩
  | key _ _ set => exact setCoerced_eq_ok set

/-- An assignment to a path is one to its first segment. -/
theorem assignPath_assigns {entity changed : Entity} (kept : entity.Kept) {head : String}
    {rest : List String} {value : Value}
    (success : entity.assignPath (head :: rest) value = .ok changed) : entity.Assigns head changed := by
  obtain ⟨assigned, set⟩ := assignPath_sets success
  exact setProperty_assigns kept set

/-- An assignment to a name is one to the head of the name. -/
theorem assignPath_segments_sets {entity changed : Entity} {name : String} {value : Value}
    (success : entity.assignPath (DottedName.segments name) value = .ok changed) :
    ∃ assigned, entity.setProperty (DottedName.head name) assigned = .ok changed := by
  have first := DottedName.head?_segments name
  obtain ⟨head, rest, segments⟩ := List.exists_cons_of_ne_nil (DottedName.segments_ne_nil name)
  rw [segments, List.head?_cons, Option.some.injEq] at first
  rw [segments, first] at success
  exact assignPath_sets success

theorem bind_eq_ok {entity changed : Entity} {used more : UsedNames} {name : String}
    {arguments : List Value} (success : entity.bind used name arguments = .ok (changed, more)) :
    ∃ value, entity.setCoerced name value = .ok changed ∧ more = used.add name := by
  obtain ⟨value, _, success⟩ := (Running.attempt_eq_ok _ _ _).mp success
  dsimp only at success
  split at success
  · cases success
  · split at success
    · cases success
    · obtain ⟨result, set, same⟩ := (Running.attempt_eq_ok _ _ _).mp success
      cases same
      exact ⟨value, set, rfl⟩

theorem bindPath_eq_ok {entity changed : Entity} {used more : UsedNames} {path : String}
    {arguments : List Value} :
    entity.bindPath used path arguments = .ok (changed, more) ↔
      ∃ value, single entity.kind path arguments = .ok value ∧ used.covers path = false ∧
        entity.assignPath (DottedName.segments path) value = .ok changed ∧ more = used.add path := by
  rw [bindPath, Running.attempt_eq_ok]
  refine exists_congr fun value => and_congr_right fun _ => ?_
  cases used.covers path with
  | true => simp [throw, throwThe, MonadExceptOf.throw, Bind.bind, Except.bind]
  | false =>
    simp only [Bool.false_eq_true, if_false, Running.attempt_eq_ok, true_and]
    constructor
    · rintro ⟨result, assigned, same⟩
      cases same
      exact ⟨assigned, rfl⟩
    · rintro ⟨assigned, rfl⟩
      exact ⟨changed, assigned, rfl⟩

theorem bindEntity_eq_ok {parent changed child : Entity} {used more : UsedNames}
    (success : parent.bindEntity used child = .ok (changed, more)) :
    parent.setProperty child.kind.elementName child.toValue = .ok changed ∧
      more = used.add child.kind.elementName := by
  rw [bindEntity] at success
  dsimp only at success
  split at success
  · cases success
  · split at success
    · cases success
    · obtain ⟨result, set, same⟩ := (Running.attempt_eq_ok _ _ _).mp success
      cases same
      exact ⟨replace_eq_ok.mp set, rfl⟩

theorem bindPath_assigns {entity changed : Entity} (kept : entity.Kept) {used more : UsedNames}
    {path : String} {arguments : List Value}
    (success : entity.bindPath used path arguments = .ok (changed, more)) :
    ∃ head rest, DottedName.segments path = head :: rest ∧ entity.Assigns head changed := by
  obtain ⟨value, _, _, assigned, _⟩ := bindPath_eq_ok.mp success
  obtain ⟨head, rest, segments⟩ := List.exists_cons_of_ne_nil (DottedName.segments_ne_nil path)
  exact ⟨head, rest, segments, assignPath_assigns kept (segments ▸ assigned)⟩

/-- The entities that recipes come to: blocks at their defaults or read from a value, after any number of
bindings. -/
inductive Reachable : Entity → Prop
  | fresh (kind : EntityKind) : Reachable (Entity.fresh kind)
  | read {kind : EntityKind} {value : Value} {entity : Entity} (success : ofValue kind value = .ok entity) :
    Reachable entity
  | bind {entity changed : Entity} {used more : UsedNames} {name : String} {arguments : List Value}
    (before : Reachable entity) (success : entity.bind used name arguments = .ok (changed, more)) :
    Reachable changed
  | bindPath {entity changed : Entity} {used more : UsedNames} {path : String} {arguments : List Value}
    (before : Reachable entity) (success : entity.bindPath used path arguments = .ok (changed, more)) :
    Reachable changed
  | bindEntity {parent changed child : Entity} {used more : UsedNames} (before : Reachable parent)
    (inner : Reachable child) (success : parent.bindEntity used child = .ok (changed, more)) :
    Reachable changed

theorem Reachable.kept {entity : Entity} (reachable : entity.Reachable) : entity.Kept := by
  induction reachable with
  | fresh kind => exact kept_fresh kind
  | read success => exact (ofValue_eq_ok success).2
  | bind _ success inductionHypothesis =>
    obtain ⟨value, set, _⟩ := bind_eq_ok success
    exact (setCoerced_assigns inductionHypothesis set).kept
  | bindPath _ success inductionHypothesis =>
    obtain ⟨_, _, _, assigns⟩ := bindPath_assigns inductionHypothesis success
    exact assigns.kept
  | bindEntity _ _ success inductionHypothesis _ =>
    exact (setProperty_assigns inductionHypothesis (bindEntity_eq_ok success).1).kept

end DeployRecipe.Entity
