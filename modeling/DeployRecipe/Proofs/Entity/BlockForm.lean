import DeployRecipe.Compilation.Block
import DeployRecipe.Proofs.Entity.Apart
import DeployRecipe.Proofs.Entity.Mapping
import DeployRecipe.Proofs.Entity.UsedNames

/-!
Properties of a block that are given values under dotted names, or inside the block. The two ways succeed
together and lead to the same entity: dotted names put the block back after every value, and what is put
back is opened again as it was.
-/

namespace DeployRecipe

namespace Entity

/-- Gives values to properties, one after the other. -/
def bindEach (entity : Entity) (used : UsedNames) (pairs : List (String × Value)) :
    Except ErrorKind (Entity × UsedNames) :=
  pairs.foldlM (fun state pair => state.1.bind state.2 pair.1 [pair.2]) (entity, used)

/-- Gives values to properties of a block under dotted names, one after the other. -/
def bindEachWithin (entity : Entity) (head : String) (used : UsedNames) (pairs : List (String × Value)) :
    Except ErrorKind (Entity × UsedNames) :=
  pairs.foldlM (fun state pair => state.1.bindPath state.2 (DottedName.within head pair.1) [pair.2])
    (entity, used)

/-- Assigns properties of a block under dotted names. -/
def dottedForm (entity : Entity) (head : String) (pairs : List (String × Value)) : Except ErrorKind Entity :=
  (entity.bindEachWithin head [] pairs).map Prod.fst

/-- Assigns properties inside a block, which then is put into the entity. -/
def blockForm (entity : Entity) (descriptor : Descriptor) (pairs : List (String × Value)) :
    Except ErrorKind Entity := do
  match descriptor.checkPlacement (some entity.kind) with
  | .error reason => throw (.illegalNestingOrRoot descriptor.elementName reason)
  | .ok () =>
    let child ← Evaluation.inheritedContent (.opening entity) descriptor
    let (finished, _) ← child.bindEach [] pairs
    let (changed, _) ← entity.bindEntity [] finished
    pure changed

/-- The entity with a block in a property. -/
def withBlock (entity : Entity) (head : String) (block : Entity) : Entity :=
  { entity with properties := entity.properties.insert head block.toValue }

theorem property?_withBlock (entity : Entity) (head : String) (block : Entity) :
    (entity.withBlock head block).property? head = some block.toValue :=
  Entries.find?_insert_self _ _ _

theorem withBlock_withBlock (entity : Entity) (head : String) (first second : Entity) :
    (entity.withBlock head first).withBlock head second = entity.withBlock head second := by
  simp [withBlock, Entries.insert_insert]

theorem withBlock_of_property? {entity : Entity} {head : String} {block : Entity}
    (found : entity.property? head = some block.toValue) : entity.withBlock head block = entity := by
  rw [withBlock, Entries.insert_of_find? found]

end Entity

/-- Recipes may put blocks of a kind into a property. -/
def EntityKind.Takes (kind : EntityKind) (head : String) (block : EntityKind) : Prop :=
  ∃ shape, kind.writable? head = some shape ∧ (shape = .optional block.shape ∨ shape = block.shape)

namespace Entity

/-- A property that takes blocks holds a block as it is. -/
theorem setProperty_of_takes {entity block : Entity} (kept : entity.Kept) {head : String}
    (takes : entity.kind.Takes head block.kind) (whole : block.Kept) :
    entity.setProperty head block.toValue = .ok (entity.withBlock head block) := by
  obtain ⟨shape, field, holds⟩ := takes
  have itself := decode_shape_toValue whole rfl
  have read : shape.decode block.toValue = .ok block.toValue := by
    rcases holds with rfl | rfl
    · exact Shape.decode_optional_of_decode itself
    · exact itself
  rw [setProperty_eq kept field, read]
  rfl

theorem kept_withBlock {entity block : Entity} (kept : entity.Kept) {head : String}
    (takes : entity.kind.Takes head block.kind) (whole : block.Kept) : (entity.withBlock head block).Kept :=
  (setProperty_assigns kept (setProperty_of_takes kept takes whole)).kept

theorem isWritable_of_takes {entity : Entity} (kept : entity.Kept) {head : String} {block : EntityKind}
    (takes : entity.kind.Takes head block) : entity.isWritable head = true := by
  obtain ⟨shape, field, _⟩ := takes
  exact (isWritable_iff kept head).mpr (Or.inl ⟨shape, field⟩)

/-- A property that a block was put into takes blocks of its kind. -/
theorem takes_of_setProperty {entity block changed : Entity} (kept : entity.Kept)
    (other : entity.kind ≠ .application) {head : String} {descriptor : Descriptor}
    (described : Registry.describe? head = some descriptor)
    (placed : descriptor.checkPlacement (some entity.kind) = .ok ())
    (success : entity.setProperty head block.toValue = .ok changed) :
    entity.kind.Takes head descriptor.kind := by
  rcases setProperty_eq_ok kept success with ⟨shape, read, field, fits, _⟩ | ⟨_, application, _⟩
  · rcases shape_of_block described placed field fits with ⟨holds, _⟩ | ⟨holds, _⟩
    · exact ⟨shape, field, Or.inl holds⟩
    · exact ⟨shape, field, Or.inr holds⟩
  · exact absurd application other

theorem bind_single_eq_ok {entity changed : Entity} {used more : UsedNames} {name : String} {value : Value} :
    entity.bind used name [value] = .ok (changed, more) ↔
      used.covers name = false ∧ entity.assignPath [name] value = .ok changed ∧ more = used.add name := by
  rw [bind_eq_ok_iff]
  simp only [single, Except.ok.injEq, exists_eq_left']

/-- A dotted name with two segments leads into a block: the block is opened, given the value, and put back. -/
theorem bindPath_within_eq_ok {entity : Entity} (kept : entity.Kept) (other : entity.kind ≠ .application)
    {head : String} {descriptor : Descriptor} (described : Registry.describe? head = some descriptor)
    {name : String} (plain : DottedName.isDotted name = false) {value : Value} {used more : UsedNames}
    {changed : Entity} :
    entity.bindPath used (DottedName.within head name) [value] = .ok (changed, more) ↔
      used.covers (DottedName.within head name) = false ∧ more = used.add (DottedName.within head name) ∧
        descriptor.checkPlacement (some entity.kind) = .ok () ∧ entity.kind.Takes head descriptor.kind ∧
        ∃ child inner, entity.opened head descriptor.kind = .ok child ∧
          child.assignPath [name] value = .ok inner ∧ changed = entity.withBlock head inner := by
  have whole := Registry.isDotted_of_describe? described
  have segments : DottedName.segments (DottedName.within head name) = [head, name] := by
    rw [DottedName.segments_within, DottedName.segments_of_not_dotted whole,
      DottedName.segments_of_not_dotted plain]
    rfl
  rw [bindPath_eq_ok, segments]
  constructor
  · rintro ⟨_, single, free, assigned, rfl⟩
    cases single
    obtain ⟨child, inner, step⟩ := assignPath_inside kept described assigned
    have takes := takes_of_setProperty kept other described step.placed step.set
    have put := setProperty_of_takes kept (step.innerKind ▸ takes) step.innerKept
    rw [step.set] at put
    exact ⟨free, rfl, step.placed, takes, child, inner, step.start, step.assigned, Except.ok.inj put⟩
  · rintro ⟨free, rfl, placed, takes, child, inner, start, assigned, rfl⟩
    obtain ⟨kind, childKept⟩ := opened_eq_ok start
    have changes := assignPath_assigns childKept assigned
    have put := setProperty_of_takes kept ((changes.kind.trans kind).symm ▸ takes) changes.kept
    refine ⟨value, rfl, free, ?_, rfl⟩
    rw [assignPath_block (isWritable_of_takes kept takes) described placed, start, Except.bind, assigned,
      Except.bind, replace_eq_ok]
    exact put

theorem bindEach_cons_eq_ok {entity : Entity} {used : UsedNames} {name : String} {value : Value}
    {rest : List (String × Value)} {outcome : Entity × UsedNames} :
    entity.bindEach used ((name, value) :: rest) = .ok outcome ↔
      used.covers name = false ∧ ∃ changed, entity.assignPath [name] value = .ok changed ∧
        changed.bindEach (used.add name) rest = .ok outcome := by
  rw [bindEach, List.foldlM_cons, Running.attempt_eq_ok]
  constructor
  · rintro ⟨⟨changed, more⟩, first, others⟩
    obtain ⟨free, assigned, rfl⟩ := bind_single_eq_ok.mp first
    exact ⟨free, changed, assigned, others⟩
  · rintro ⟨free, changed, assigned, others⟩
    exact ⟨(changed, _), bind_single_eq_ok.mpr ⟨free, assigned, rfl⟩, others⟩

theorem bindEachWithin_cons_eq_ok {entity : Entity} {head : String} {used : UsedNames} {name : String}
    {value : Value} {rest : List (String × Value)} {outcome : Entity × UsedNames} :
    entity.bindEachWithin head used ((name, value) :: rest) = .ok outcome ↔
      ∃ changed more, entity.bindPath used (DottedName.within head name) [value] = .ok (changed, more) ∧
        changed.bindEachWithin head more rest = .ok outcome := by
  rw [bindEachWithin, List.foldlM_cons, Running.attempt_eq_ok, Prod.exists]
  rfl

/-- Names without dots that differ leave each other free, also inside the same block. -/
theorem covers_add_of_plain {used : UsedNames} {name other : String} (differs : name ≠ other)
    (first : DottedName.isDotted name = false) (second : DottedName.isDotted other = false) :
    ((used.add name).covers other = false ↔ used.covers other = false) ∧ ∀ head,
      ((used.add (DottedName.within head name)).covers (DottedName.within head other) = false ↔
        used.covers (DottedName.within head other) = false) := by
  have apart := DottedName.not_overlaps_of_ne differs first second
  constructor
  · rw [UsedNames.covers_add]
    exact and_iff_right apart
  · intro head
    rw [UsedNames.covers_add, DottedName.overlaps_within]
    exact and_iff_right apart

/-- Dotted names lead to the block that its own names lead to. Between two names the block is in its
property, where it is opened as it was put there. -/
theorem bindEachWithin_eq_ok_iff {head : String} {descriptor : Descriptor}
    (described : Registry.describe? head = some descriptor) {pairs : List (String × Value)}
    (distinct : (pairs.map Prod.fst).Nodup) (plain : ∀ pair ∈ pairs, DottedName.isDotted pair.1 = false)
    {entity block : Entity} (kept : entity.Kept) (other : entity.kind ≠ .application)
    (placed : descriptor.checkPlacement (some entity.kind) = .ok ())
    (takes : entity.kind.Takes head descriptor.kind)
    (start : entity.opened head descriptor.kind = .ok block)
    (settled : pairs = [] → entity.property? head = some block.toValue) {used inside : UsedNames}
    (free : ∀ pair ∈ pairs, used.covers (DottedName.within head pair.1) = false)
    (freeInside : ∀ pair ∈ pairs, inside.covers pair.1 = false) {result : Entity} :
    (∃ last, entity.bindEachWithin head used pairs = .ok (result, last)) ↔
      ∃ finished last, block.bindEach inside pairs = .ok (finished, last) ∧
        result = entity.withBlock head finished := by
  induction pairs generalizing entity block used inside with
  | nil =>
    simp only [bindEachWithin, bindEach, List.foldlM_nil]
    constructor
    · rintro ⟨_, same⟩
      cases same
      exact ⟨block, _, rfl, (withBlock_of_property? (settled rfl)).symm⟩
    · rintro ⟨_, _, same, rfl⟩
      cases same
      exact ⟨used, congrArg (fun entity => Except.ok (entity, used)) (withBlock_of_property? (settled rfl)).symm⟩
  | cons pair rest inductionHypothesis =>
    obtain ⟨name, value⟩ := pair
    obtain ⟨new, distinct⟩ := List.nodup_cons.mp distinct
    have single := plain _ List.mem_cons_self
    have later : ∀ pair ∈ rest, name ≠ pair.1 ∧ DottedName.isDotted pair.1 = false := fun pair member =>
      ⟨fun same => new (List.mem_map.mpr ⟨pair, member, same.symm⟩), plain pair (List.mem_cons_of_mem _ member)⟩
    obtain ⟨blockKind, blockKept⟩ := opened_eq_ok start
    -- After one value both ways have come to the same block, and none of the names that follow is used.
    have step : ∀ {inner}, block.assignPath [name] value = .ok inner →
        ((∃ last, (entity.withBlock head inner).bindEachWithin head
            (used.add (DottedName.within head name)) rest = .ok (result, last)) ↔
          ∃ finished last, inner.bindEach (inside.add name) rest = .ok (finished, last) ∧
            result = entity.withBlock head finished) := by
      intro inner assigned
      have changes := assignPath_assigns blockKept assigned
      have kind := changes.kind.trans blockKind
      have found := property?_withBlock entity head inner
      have again := inductionHypothesis distinct (fun pair member => (later pair member).2)
        (kept_withBlock kept (kind.symm ▸ takes) changes.kept) other placed takes
        (kind ▸ opened_of_property? changes.kept found) (fun _ => found)
        (fun pair member => ((covers_add_of_plain (later pair member).1 single (later pair member).2).2 _).mpr
          (free pair (List.mem_cons_of_mem _ member)))
        (fun pair member => (covers_add_of_plain (later pair member).1 single (later pair member).2).1.mpr
          (freeInside pair (List.mem_cons_of_mem _ member)))
      simpa only [withBlock_withBlock] using again
    simp only [bindEachWithin_cons_eq_ok, bindEach_cons_eq_ok,
      bindPath_within_eq_ok kept other described single]
    constructor
    · rintro ⟨last, _, _, ⟨_, rfl, _, _, child, inner, start', assigned, rfl⟩, others⟩
      obtain rfl := Except.ok.inj (start.symm.trans start')
      obtain ⟨finished, last, bound, same⟩ := (step assigned).mp ⟨last, others⟩
      exact ⟨finished, last, ⟨freeInside _ List.mem_cons_self, inner, assigned, bound⟩, same⟩
    · rintro ⟨finished, last, ⟨_, inner, assigned, bound⟩, same⟩
      obtain ⟨last, others⟩ := (step assigned).mpr ⟨finished, last, bound, same⟩
      have unused := free (name, value) List.mem_cons_self
      exact ⟨last, entity.withBlock head inner, _, ⟨unused, rfl, placed, takes, block, inner, start, assigned,
        rfl⟩, others⟩

theorem inheritedContent_eq_opened {parent : Scope} (other : parent.entity.kind ≠ .application)
    {head : String} {descriptor : Descriptor} (name : descriptor.elementName = head) :
    Evaluation.inheritedContent parent descriptor = parent.entity.opened head descriptor.kind := by
  subst name
  rw [Evaluation.inheritedContent, opened]
  split
  · rename_i application
    exact absurd application other
  · rename_i null _
    rw [null]
    rfl
  · rename_i filled
    generalize parent.entity.property descriptor.elementName = current at filled
    cases current with
    | null => exact absurd rfl filled
    | _ =>
      dsimp only
      generalize ofValue descriptor.kind _ = read
      cases read <;> rfl

/-- A finished block is put into a property of its name, as long as that was given no value. -/
theorem bindEntity_eq_ok_iff {parent changed child : Entity} (ordinary : parent.kind ≠ .application)
    {used more : UsedNames} :
    parent.bindEntity used child = .ok (changed, more) ↔
      parent.isWritable child.kind.elementName = true ∧ child.kind.elementName ∉ used ∧
        parent.setProperty child.kind.elementName child.toValue = .ok changed ∧
        more = used.add child.kind.elementName := by
  have single : isRepeatable parent.kind child.kind = false := by simp [isRepeatable, ordinary]
  rw [bindEntity]
  simp only [single, Bool.not_false, Bool.true_and, Bool.and_true]
  cases parent.isWritable child.kind.elementName with
  | false => simp [throw, throwThe, MonadExceptOf.throw, Bind.bind, Except.bind]
  | true =>
    cases taken : used.contains child.kind.elementName with
    | true => simp [throw, throwThe, MonadExceptOf.throw, Bind.bind, Except.bind, List.contains_iff_mem.mp taken]
    | false =>
      have free : child.kind.elementName ∉ used := fun there => by simp [there] at taken
      simp only [Bool.not_true, Bool.false_eq_true, if_false, Running.attempt_eq_ok, replace_eq_ok, free,
        not_false_eq_true, true_and]
      constructor
      · rintro ⟨_, set, same⟩
        cases same
        exact ⟨set, rfl⟩
      · rintro ⟨set, rfl⟩
        exact ⟨changed, set, rfl⟩

theorem bindEntity_nil_eq_ok {entity block : Entity} (other : entity.kind ≠ .application) {changed : Entity} :
    (∃ used, entity.bindEntity [] block = .ok (changed, used)) ↔
      entity.isWritable block.kind.elementName = true ∧
        entity.setProperty block.kind.elementName block.toValue = .ok changed := by
  simp only [bindEntity_eq_ok_iff other, List.not_mem_nil, not_false_eq_true, true_and, exists_and_left, exists_eq,
    and_true]

theorem bindEach_keeps {pairs : List (String × Value)} {entity finished : Entity} (kept : entity.Kept)
    {used last : UsedNames} (success : entity.bindEach used pairs = .ok (finished, last)) :
    finished.kind = entity.kind ∧ finished.Kept := by
  induction pairs generalizing entity used with
  | nil =>
    cases success
    exact ⟨rfl, kept⟩
  | cons pair rest inductionHypothesis =>
    obtain ⟨_, changed, assigned, others⟩ := bindEach_cons_eq_ok.mp success
    have changes := assignPath_assigns kept assigned
    obtain ⟨kind, whole⟩ := inductionHypothesis changes.kept others
    exact ⟨kind.trans changes.kind, whole⟩

/-- A block is opened in its place, its properties are given values, and it is put back. -/
theorem blockForm_eq_ok {entity : Entity} (kept : entity.Kept) (other : entity.kind ≠ .application)
    {head : String} {descriptor : Descriptor} (described : Registry.describe? head = some descriptor)
    {pairs : List (String × Value)} {result : Entity} :
    entity.blockForm descriptor pairs = .ok result ↔
      descriptor.checkPlacement (some entity.kind) = .ok () ∧ entity.kind.Takes head descriptor.kind ∧
        ∃ child, entity.opened head descriptor.kind = .ok child ∧
          ∃ finished last, child.bindEach [] pairs = .ok (finished, last) ∧
            result = entity.withBlock head finished := by
  have name := (Registry.describe?_eq_some described).2
  have finishes {child finished : Entity} {last : UsedNames}
      (start : entity.opened head descriptor.kind = .ok child)
      (bound : child.bindEach [] pairs = .ok (finished, last)) :
      finished.kind = descriptor.kind ∧ finished.Kept := by
    obtain ⟨kind, childKept⟩ := opened_eq_ok start
    obtain ⟨same, whole⟩ := bindEach_keeps childKept bound
    exact ⟨same.trans kind, whole⟩
  rw [blockForm]
  cases placed : descriptor.checkPlacement (some entity.kind) with
  | error reason => simp [throw, throwThe, MonadExceptOf.throw]
  | ok _ =>
    have ordinary : (Scope.opening entity).entity.kind ≠ .application := other
    have inherited := inheritedContent_eq_opened ordinary name
    simp only [Running.attempt_eq_ok, inherited, Prod.exists, true_and]
    constructor
    · rintro ⟨child, start, finished, last, bound, changed, used, put, same⟩
      cases same
      obtain ⟨kind, whole⟩ := finishes start bound
      obtain ⟨_, set⟩ := (bindEntity_nil_eq_ok other).mp ⟨used, put⟩
      rw [kind, show descriptor.kind.elementName = head from name] at set
      have takes := takes_of_setProperty kept other described placed set
      rw [setProperty_of_takes kept (kind.symm ▸ takes) whole] at set
      exact ⟨takes, child, start, finished, last, bound, (Except.ok.inj set).symm⟩
    · rintro ⟨takes, child, start, finished, last, bound, rfl⟩
      obtain ⟨kind, whole⟩ := finishes start bound
      have set := setProperty_of_takes kept (kind.symm ▸ takes) whole
      have writable := isWritable_of_takes kept takes
      rw [← show descriptor.kind.elementName = head from name, ← kind] at set writable
      obtain ⟨used, put⟩ := (bindEntity_nil_eq_ok other).mpr ⟨writable, set⟩
      rw [kind, show descriptor.kind.elementName = head from name] at put
      exact ⟨child, start, finished, last, bound, _, used, put, rfl⟩

/-- Dotted names mean what a block means: the properties of a block that are given values under dotted names,
one after the other, make the entity that the block makes in which they are given the values, and one way
is refused where the other one is. -/
theorem dottedForm_eq_ok_iff_blockForm {entity : Entity} (attainable : entity.Attainable)
    (other : entity.kind ≠ .application) {head : String} {descriptor : Descriptor}
    (described : Registry.describe? head = some descriptor) {pairs : List (String × Value)} (some : pairs ≠ [])
    (distinct : (pairs.map Prod.fst).Nodup) (plain : ∀ pair ∈ pairs, DottedName.isDotted pair.1 = false)
    (result : Entity) :
    entity.dottedForm head pairs = .ok result ↔ entity.blockForm descriptor pairs = .ok result := by
  have kept := attainable.kept
  have dotted : entity.dottedForm head pairs = .ok result ↔
      ∃ last, entity.bindEachWithin head [] pairs = .ok (result, last) := by
    simp [dottedForm, Running.map_eq_ok]
  have same {child : Entity} (placed : descriptor.checkPlacement (Option.some entity.kind) = .ok ())
      (takes : entity.kind.Takes head descriptor.kind)
      (start : entity.opened head descriptor.kind = .ok child) :
      (∃ last, entity.bindEachWithin head [] pairs = .ok (result, last)) ↔
        ∃ finished last, child.bindEach [] pairs = .ok (finished, last) ∧
          result = entity.withBlock head finished :=
    bindEachWithin_eq_ok_iff described distinct plain kept other placed takes start (absurd · some)
      (fun _ _ => rfl) (fun _ _ => rfl)
  rw [dotted, blockForm_eq_ok kept other described]
  constructor
  · rintro ⟨last, success⟩
    -- The first of the names already finds the place, the property and the block.
    obtain ⟨⟨name, value⟩, rest, rfl⟩ := List.exists_cons_of_ne_nil some
    obtain ⟨_, _, first, _⟩ := bindEachWithin_cons_eq_ok.mp success
    obtain ⟨_, _, placed, takes, child, _, start, _⟩ :=
      (bindPath_within_eq_ok kept other described (plain _ List.mem_cons_self)).mp first
    exact ⟨placed, takes, child, start, (same placed takes start).mp ⟨last, success⟩⟩
  · rintro ⟨placed, takes, child, start, inside⟩
    exact (same placed takes start).mpr inside

/-- A named service is given a script and a number for another one, of which it takes the text. -/
theorem dottedForm_eq_ok_iff_blockForm_lifecycle :
    let pairs := [("init", Value.text "install.sh"), ("stop", Value.int 7)]
    ∃ service used descriptor result,
      (fresh .service).bind [] "name" [.text "web"] = .ok (service, used) ∧
      Registry.describe? "lifecycle" = some descriptor ∧
      service.dottedForm "lifecycle" pairs = .ok result ∧ service.blockForm descriptor pairs = .ok result ∧
      result.at? "lifecycle.init" = some (.text "install.sh") ∧ result.at? "name" = some (.text "web") := by
  intro pairs
  let service : Entity := ⟨.service, (fresh .service).properties.insert "name" (.text "web")⟩
  let lifecycle : Entity := ⟨.lifecycle,
    ((fresh .lifecycle).properties.insert "init" (.text "install.sh")).insert "stop" (.text "7")⟩
  have bound : (fresh .service).bind [] "name" [.text "web"] = .ok (service, ["name"]) := rfl
  have dotted : service.dottedForm "lifecycle" pairs = .ok (service.withBlock "lifecycle" lifecycle) := rfl
  have plain : ∀ pair ∈ pairs, DottedName.isDotted pair.1 = false := by
    simp only [pairs, List.forall_mem_cons]
    decide
  have block := (dottedForm_eq_ok_iff_blockForm (.bind (.fresh .service) bound) (by decide) rfl
    (List.cons_ne_nil _ _) (by decide) plain _).mp dotted
  exact ⟨service, _, _, _, bound, rfl, dotted, block, rfl, rfl⟩

end Entity

end DeployRecipe
