import DeployRecipe.Proofs.Entity.Slots

/-!
Assignments to two paths of which neither leads through the other. The second one keeps the value at the
first path, unless both lead to the same key of one property or it appends to the services that the first
one assigned.
-/

namespace DeployRecipe

namespace Mapping

/-- A path without content before is a mapping with the one key. -/
theorem insertPath_nil (key : String) (rest : List String) (value : Value) :
    ∃ content, insertPath [] (key :: rest) value = [(.text key, content)] := by
  cases rest with
  | nil => exact ⟨value, rfl⟩
  | cons next more => exact ⟨_, rfl⟩

end Mapping

namespace Entity

/-- The value at a path in the mapping of an entity. -/
def valueAt? (entity : Entity) (path : List String) : Option Value :=
  (Mapping.ofValue entity.toValue).descend? path

theorem valueAt?_congr {first second : Entity} {head : String}
    (same : first.property? head = second.property? head) (rest : List String) :
    first.valueAt? (head :: rest) = second.valueAt? (head :: rest) :=
  Mapping.descend?_congr ((Mapping.find?_ofTable _ _).trans (same.trans (Mapping.find?_ofTable _ _).symm)) rest

theorem valueAt?_of_absent {entity : Entity} {head : String} (absent : entity.property? head = none)
    (rest : List String) : entity.valueAt? (head :: rest) = none := by
  have found := (Mapping.find?_ofTable entity.properties head).trans absent
  cases rest with
  | nil => exact found
  | cons next more =>
    rw [valueAt?, Mapping.descend?, toValue, found]
    simp

theorem valueAt?_of_mapping {entity : Entity} {head : String} {mapping : Mapping}
    (found : entity.property? head = some (.mapping mapping)) (next : String) (rest : List String) :
    entity.valueAt? (head :: next :: rest) = mapping.descend? (next :: rest) := by
  have same := (Mapping.find?_ofTable entity.properties head).trans found
  rw [valueAt?, Mapping.descend?, toValue, same]
  simp

/-- Inside a block the rest of the path is followed. -/
theorem valueAt?_block {entity child : Entity} {head : String}
    (found : entity.property? head = some child.toValue) (next : String) (rest : List String) :
    entity.valueAt? (head :: next :: rest) = child.valueAt? (next :: rest) :=
  valueAt?_of_mapping found next rest

/-- Two paths lead through the same blocks to the same key of a property. -/
def Meets : List String → List String → Prop
  | head :: rest, other :: more =>
    head = other ∧
      if (Registry.describe? head).isSome then Meets rest more else rest.head? = more.head?
  | _, _ => False

/-- The first path is that of an application's services, and the second one begins with one more. -/
def Appends (kind : EntityKind) (path other : List String) : Prop :=
  kind = .application ∧ path = ["services"] ∧ other.head? = some serviceSlot

/-- An assignment to a path through a block: the block that is opened, and what it becomes. -/
structure Inside (entity : Entity) (head : String) (rest : List String) (value : Value)
    (descriptor : Descriptor) (child inner changed : Entity) : Prop where
  writable : entity.isWritable head = true
  placed : descriptor.checkPlacement (some entity.kind) = .ok ()
  start : entity.opened head descriptor.kind = .ok child
  whole : child.Kept
  kind : child.kind = descriptor.kind
  assigned : child.assignPath rest value = .ok inner
  innerKept : inner.Kept
  innerKind : inner.kind = descriptor.kind
  set : entity.setProperty head inner.toValue = .ok changed
  found : entity.kind = .application ∧ head = serviceSlot ∨ changed.property? head = some inner.toValue

section Steps

variable {entity changed : Entity} (kept : entity.Kept)
include kept

/-- An application has no property in which it takes one more service. -/
theorem property?_serviceSlot (application : entity.kind = .application) :
    entity.property? serviceSlot = none := by
  rw [property?_eq_none_iff kept, application]
  rfl

omit kept in
theorem decode_shape_toValue {kind : EntityKind} {inner : Entity} (whole : inner.Kept)
    (same : inner.kind = kind) : kind.shape.decode inner.toValue = .ok inner.toValue :=
  same ▸ decode_shape_ofTable whole

omit kept in
/-- A property that takes a block is for an entity of its kind. -/
theorem shape_of_block {kind : EntityKind} {head : String} {descriptor : Descriptor}
    (described : Registry.describe? head = some descriptor)
    (placed : descriptor.checkPlacement (some kind) = .ok ()) {shape : Shape}
    (field : kind.writable? head = some shape) {inner : Entity} {read : Value}
    (fits : shape.decode inner.toValue = .ok read) :
    shape = .optional descriptor.kind.shape ∧ (fresh kind).property? head = some .null ∨
      shape = descriptor.kind.shape ∧
        (fresh kind).property? head = some (fresh descriptor.kind).toValue := by
  obtain ⟨member, rfl⟩ := Registry.describe?_eq_some described
  rcases EntityKind.field_of_placed member placed (EntityKind.writable?_eq_some.mp field).2 with
    refuses | holds
  · have refused := Shape.decode_mapping_of_refuses (Mapping.ofValue inner.toValue) shape refuses
    change (shape.decode inner.toValue).toOption = none at refused
    rw [fits] at refused
    cases refused
  · exact holds

/-- A finished block is found in the property that it was put into. -/
theorem property?_of_block {head : String} {descriptor : Descriptor}
    (described : Registry.describe? head = some descriptor)
    (placed : descriptor.checkPlacement (some entity.kind) = .ok ()) {inner : Entity} (whole : inner.Kept)
    (kind : inner.kind = descriptor.kind) (success : entity.setProperty head inner.toValue = .ok changed) :
    entity.kind = .application ∧ head = serviceSlot ∨ changed.property? head = some inner.toValue := by
  rcases setProperty_eq_ok kept success with ⟨shape, read, field, fits, rfl⟩ | ⟨_, application, slot, _⟩
  · right
    have itself := decode_shape_toValue whole kind
    have same : read = inner.toValue := by
      rcases shape_of_block described placed field fits with ⟨rfl, _⟩ | ⟨rfl, _⟩
      · exact Except.ok.inj (fits.symm.trans (Shape.decode_optional_of_decode itself))
      · exact Except.ok.inj (fits.symm.trans itself)
    exact same ▸ Entries.find?_insert_self _ _ _
  · exact Or.inl ⟨application, slot⟩

omit kept in
/-- A block that is in its property is opened again as it is. -/
theorem opened_of_property? {head : String} {inner : Entity} (whole : inner.Kept)
    (found : entity.property? head = some inner.toValue) : entity.opened head inner.kind = .ok inner := by
  have same : entity.property head = inner.toValue := by rw [property, found, Option.getD_some]
  have again := ofValue_toValue whole
  rw [opened, same]
  rw [toValue, Value.ofTable] at again ⊢
  simp only [again]
  rfl

/-- A path through a block is followed inside the block, which is then put back. -/
theorem assignPath_inside {head next : String} {rest : List String} {value : Value}
    {descriptor : Descriptor} (described : Registry.describe? head = some descriptor)
    (success : entity.assignPath (head :: next :: rest) value = .ok changed) :
    ∃ child inner, entity.Inside head (next :: rest) value descriptor child inner changed := by
  cases assignment_of_eq_ok (List.cons_ne_nil _ _) success with
  | key _ free =>
    rw [described] at free
    cases free
  | block writable same placed start assigned set =>
    obtain rfl := Option.some.inj (described.symm.trans same)
    obtain ⟨kind, whole⟩ := opened_eq_ok start
    have changes := assignPath_assigns whole assigned
    have innerKind := changes.kind.trans kind
    exact ⟨_, _, {
      writable, placed, start, whole, kind, assigned, set, innerKind
      innerKept := changes.kept
      found := property?_of_block kept described placed changes.kept innerKind set }⟩

omit kept in
/-- A block that was put back is the one that the next path through it opens. -/
theorem Inside.reopens {head : String} {rest : List String} {value : Value} {descriptor : Descriptor}
    {child inner : Entity} (step : entity.Inside head rest value descriptor child inner changed)
    (kept : entity.Kept) {block : Entity} (whole : block.Kept) (kind : block.kind = descriptor.kind)
    (found : entity.property? head = some block.toValue) :
    block = child ∧ changed.property? head = some inner.toValue := by
  constructor
  · have reopened := opened_of_property? whole found
    rw [kind, step.start] at reopened
    exact (Except.ok.inj reopened).symm
  · rcases step.found with ⟨application, rfl⟩ | put
    · rw [property?_serviceSlot kept application] at found
      cases found
    · exact put

/-- A path into a property that no block opens leads to one of its keys. -/
theorem assignPath_withKey {head next : String} {rest : List String} {value : Value}
    (free : Registry.describe? head = none)
    (success : entity.assignPath (head :: next :: rest) value = .ok changed) :
    ∃ shape read content settled, entity.kind.writable? head = some shape ∧
      shape.contentReader? = some read ∧
      Mapping.insertPath [] (next :: rest) value = [(.text next, content)] ∧
      settle read content = some settled ∧ changed = entity.withKey head next settled := by
  cases assignment_of_eq_ok (List.cons_ne_nil _ _) success with
  | block _ described => rw [free] at described; cases described
  | key writable _ set =>
    obtain ⟨content, single⟩ := Mapping.insertPath_nil next rest value
    rw [single] at set
    rcases (isWritable_iff kept head).mp writable with ⟨shape, field⟩ | ⟨_, rfl⟩
    · rcases EntityKind.field_of_free (EntityKind.writable?_eq_some.mp field).2 free with
        refuses | ⟨read, reader⟩
      · exact absurd set (setCoerced_ne_ok_of_refuses kept field refuses next content changed)
      · obtain ⟨settled, settles, rfl⟩ := (setCoerced_key kept field reader next content changed).mp set
        exact ⟨shape, read, content, settled, field, reader, single, settles, rfl⟩
    · cases free

end Steps

theorem property?_withKey (entity : Entity) (name key : String) (value : Value) :
    (entity.withKey name key value).property? name =
      some (.mapping ((Mapping.ofValue (entity.property name)).insert key value)) :=
  Entries.find?_insert_self _ _ _

/-- Paths of which neither leads through the other begin differently, or both lead on. -/
theorem apart_cons {head other : String} {rest more : List String}
    (first : ¬ (head :: rest) <+: (other :: more)) (second : ¬ (other :: more) <+: (head :: rest)) :
    head ≠ other ∨ head = other ∧ ∃ next inner further deeper, rest = next :: inner ∧
      more = further :: deeper ∧ ¬ rest <+: more ∧ ¬ more <+: rest := by
  by_cases same : head = other
  · subst same
    simp only [List.prefix_cons_inj] at first second
    right
    refine ⟨rfl, ?_⟩
    cases rest with
    | nil => exact absurd List.nil_prefix first
    | cons next inner =>
      cases more with
      | nil => exact absurd List.nil_prefix second
      | cons further deeper => exact ⟨next, inner, further, deeper, rfl, rfl, first, second⟩
  · exact Or.inl same

theorem valueAt?_of_differing {entity one two : Entity} (kept : entity.Kept) {head last : String}
    {rest more : List String} {value content : Value}
    (once : entity.assignPath (head :: rest) value = .ok one)
    (twice : one.assignPath (last :: more) content = .ok two) (differs : head ≠ last)
    (inside : ¬ Appends entity.kind (head :: rest) (last :: more)) :
    two.valueAt? (head :: rest) = one.valueAt? (head :: rest) := by
  have changes := assignPath_assigns kept once
  have changesAgain := assignPath_assigns changes.kept twice
  by_cases behind : head = one.kind.target last
  · rw [EntityKind.target] at behind
    split at behind
    · rename_i slot
      obtain ⟨application, rfl⟩ := slot
      rw [changes.kind] at application
      subst behind
      cases rest with
      | nil => exact absurd ⟨application, rfl, rfl⟩ inside
      | cons next inner =>
        obtain ⟨shape, read, _, _, field, reader, _⟩ := assignPath_withKey kept rfl once
        rw [application] at field
        obtain rfl := Option.some.inj (show some (Shape.list Schema.service) = some shape from field)
        cases reader
    · exact absurd behind differs
  · exact valueAt?_congr (changesAgain.others head behind) rest

/-- Paths that do not meet do not touch each other's values. -/
theorem assignPath_apart {entity one two : Entity} (kept : entity.Kept) {path other : List String}
    {value content : Value} (first : ¬ path <+: other) (second : ¬ other <+: path)
    (once : entity.assignPath path value = .ok one) (twice : one.assignPath other content = .ok two)
    (separate : ¬ Meets path other) (inside : ¬ Appends entity.kind path other) :
    two.valueAt? path = one.valueAt? path := by
  induction path generalizing entity one two other with
  | nil => exact absurd List.nil_prefix first
  | cons head rest inductionHypothesis =>
    cases other with
    | nil => exact absurd List.nil_prefix second
    | cons last more =>
      have changes := assignPath_assigns kept once
      have changesAgain := assignPath_assigns changes.kept twice
      rcases apart_cons first second with differs | ⟨rfl, next, inner, further, deeper, rfl, rfl, below, above⟩
      · exact valueAt?_of_differing kept once twice differs inside
      · cases described : Registry.describe? head with
        | none =>
          obtain ⟨_, _, _, before, _, _, _, _, rfl⟩ := assignPath_withKey kept described once
          obtain ⟨_, _, _, after, _, _, _, _, rfl⟩ := assignPath_withKey changes.kept described twice
          have keys : further ≠ next := by
            rintro rfl
            exact separate ⟨rfl, by simp [described]⟩
          rw [valueAt?_of_mapping (property?_withKey _ _ _ _),
            valueAt?_of_mapping (property?_withKey _ _ _ _)]
          apply Mapping.descend?_congr
          rw [property, property?_withKey, Option.getD_some, Mapping.find?_insert, if_neg keys]
          rfl
        | some descriptor =>
          obtain ⟨child, block, step⟩ := assignPath_inside kept described once
          obtain ⟨again, block', step'⟩ := assignPath_inside changes.kept described twice
          rcases step.found with ⟨application, rfl⟩ | found
          · have kinds := changes.kind.trans application
            rw [valueAt?_of_absent (property?_serviceSlot changesAgain.kept (changesAgain.kind.trans kinds)),
              valueAt?_of_absent (property?_serviceSlot changes.kept kinds)]
          · obtain ⟨rfl, found'⟩ := step'.reopens changes.kept step.innerKept step.innerKind found
            rw [valueAt?_block found', valueAt?_block found]
            refine inductionHypothesis step.whole below above step.assigned step'.assigned ?_ ?_
            · intro meets
              exact separate ⟨rfl, by simpa [described] using meets⟩
            · rintro ⟨application, _⟩
              exact EntityKind.kind_of_placed (Registry.describe?_eq_some described).1 step.placed
                (step.kind.symm.trans application)

theorem isWritable_fresh {entity : Entity} (kept : entity.Kept) {name : String}
    (writable : entity.isWritable name = true) : (fresh entity.kind).isWritable name = true :=
  (isWritable_iff (kept_fresh entity.kind) name).mpr ((isWritable_iff kept name).mp writable)

/-- At its defaults an entity takes a block that one of its kind takes, and opens it at its defaults. -/
theorem Inside.fresh_takes {entity changed child inner : Entity} {head next : String} {rest : List String}
    {value : Value} {descriptor : Descriptor} (described : Registry.describe? head = some descriptor)
    (kept : entity.Kept) (step : entity.Inside head (next :: rest) value descriptor child inner changed)
    {alone : Entity} (assigned : (fresh descriptor.kind).assignPath (next :: rest) value = .ok alone) :
    ∃ result, (fresh entity.kind).assignPath (head :: next :: rest) value = .ok result ∧
      (entity.kind = .application ∧ head = serviceSlot ∨ result.property? head = some alone.toValue) := by
  have changes := assignPath_assigns (kept_fresh _) assigned
  have kind : alone.kind = descriptor.kind := changes.kind
  have itself := decode_shape_toValue changes.kept kind
  obtain ⟨start, result, set⟩ : (fresh entity.kind).opened head descriptor.kind = .ok (fresh descriptor.kind) ∧
      ∃ result, (fresh entity.kind).setProperty head alone.toValue = .ok result := by
    rcases setProperty_eq_ok kept step.set with ⟨shape, read, field, fits, _⟩ | ⟨_, application, rfl, _, _⟩
    · rw [setProperty_eq (kept_fresh entity.kind) field]
      rcases shape_of_block described step.placed field fits with ⟨rfl, default⟩ | ⟨rfl, default⟩
      · rw [Shape.decode_optional_of_decode itself, opened, property, default]
        exact ⟨rfl, _, rfl⟩
      · rw [itself]
        exact ⟨opened_of_property? (kept_fresh descriptor.kind) default, _, rfl⟩
    · obtain rfl := Option.some.inj (described.symm.trans rfl)
      rw [application, setProperty, if_pos ⟨rfl, rfl⟩, show Schema.service.decode alone.toValue = _ from itself]
      exact ⟨rfl, _, rfl⟩
  refine ⟨result, ?_, property?_of_block (kept_fresh entity.kind) described step.placed changes.kept
    kind set⟩
  rw [assignPath_block (isWritable_fresh kept step.writable) described step.placed, start, Except.bind,
    assigned, Except.bind, replace_eq_ok, set]

/-- A key that both assignments lead to holds what the second one alone gives it. -/
theorem assignPath_sameKey {entity one two : Entity} (kept : entity.Kept) {head key : String}
    {rest more : List String} {value content : Value} (free : Registry.describe? head = none)
    (once : entity.assignPath (head :: key :: rest) value = .ok one)
    (twice : one.assignPath (head :: key :: more) content = .ok two) :
    ∃ alone, (fresh entity.kind).assignPath (head :: key :: more) content = .ok alone ∧
      two.valueAt? (head :: key :: rest) = alone.valueAt? (head :: key :: rest) := by
  have whole := (assignPath_assigns kept once).kept
  obtain ⟨_, _, _, before, _, _, _, _, rfl⟩ := assignPath_withKey kept free once
  obtain ⟨shape, read, written, after, field, reader, single, settles, rfl⟩ := assignPath_withKey whole free twice
  have writable : (fresh entity.kind).isWritable head = true :=
    (isWritable_iff (kept_fresh entity.kind) head).mpr (Or.inl ⟨shape, field⟩)
  refine ⟨(fresh entity.kind).withKey head key after, ?_, ?_⟩
  · rw [assignPath_key writable free, single]
    exact (setCoerced_key (kept_fresh entity.kind) field reader key written _).mpr ⟨after, settles, rfl⟩
  · rw [valueAt?_of_mapping (property?_withKey _ _ _ _), valueAt?_of_mapping (property?_withKey _ _ _ _)]
    apply Mapping.descend?_congr
    rw [Mapping.find?_insert, if_pos rfl, Mapping.find?_insert, if_pos rfl]

/-- An application takes one more service with each assignment, and has none of them under the name of the block. -/
theorem Inside.valueAt?_serviceSlot {entity changed child inner : Entity} {next : String} {rest : List String}
    {value : Value} {descriptor : Descriptor} (kept : entity.Kept) (application : entity.kind = .application)
    (described : Registry.describe? serviceSlot = some descriptor)
    (step : entity.Inside serviceSlot (next :: rest) value descriptor child inner changed) (path : List String) :
    ∃ alone, (fresh entity.kind).assignPath (serviceSlot :: next :: rest) value = .ok alone ∧
      changed.valueAt? (serviceSlot :: path) = alone.valueAt? (serviceSlot :: path) := by
  have start := step.start
  rw [opened, property, property?_serviceSlot kept application] at start
  obtain rfl := Except.ok.inj start
  obtain ⟨alone, fromFresh, _⟩ := step.fresh_takes described kept step.assigned
  have changes := setProperty_assigns kept step.set
  have aloneChanges := assignPath_assigns (kept_fresh _) fromFresh
  refine ⟨alone, fromFresh, ?_⟩
  rw [valueAt?_of_absent (property?_serviceSlot changes.kept (changes.kind.trans application)),
    valueAt?_of_absent (property?_serviceSlot aloneChanges.kept (aloneChanges.kind.trans application))]

/-- Where the paths meet, the value at the first one is what the second assignment alone puts there. -/
theorem assignPath_meeting {entity one two : Entity} (kept : entity.Kept) {path other : List String}
    {value content : Value} (first : ¬ path <+: other) (second : ¬ other <+: path)
    (once : entity.assignPath path value = .ok one) (twice : one.assignPath other content = .ok two)
    (meets : Meets path other) :
    ∃ alone, (fresh entity.kind).assignPath other content = .ok alone ∧
      two.valueAt? path = alone.valueAt? path := by
  induction path generalizing entity one two other with
  | nil => exact absurd List.nil_prefix first
  | cons head rest inductionHypothesis =>
    cases other with
    | nil => exact absurd List.nil_prefix second
    | cons last more =>
      have changes := assignPath_assigns kept once
      rcases apart_cons first second with differs | ⟨rfl, next, inner, further, deeper, rfl, rfl, below, above⟩
      · exact absurd meets.1 differs
      · cases described : Registry.describe? head with
        | none =>
          obtain rfl : next = further := by simpa [Meets, described] using meets
          exact assignPath_sameKey kept described once twice
        | some descriptor =>
          obtain ⟨child, block, step⟩ := assignPath_inside kept described once
          obtain ⟨again, block', step'⟩ := assignPath_inside changes.kept described twice
          rcases step.found with ⟨application, rfl⟩ | found
          · rw [← changes.kind]
            exact step'.valueAt?_serviceSlot changes.kept (changes.kind.trans application) described _
          · have deeperMeets : Meets (next :: inner) (further :: deeper) := by
              have both := meets.2
              rwa [described, Option.isSome_some, if_pos rfl] at both
            obtain ⟨rfl, found'⟩ := step'.reopens changes.kept step.innerKept step.innerKind found
            obtain ⟨inside, fromFresh, same⟩ :=
              inductionHypothesis step.whole below above step.assigned step'.assigned deeperMeets
            rw [step.kind] at fromFresh
            obtain ⟨alone, fromFresh, put⟩ := step'.fresh_takes described changes.kept fromFresh
            have aloneFound : alone.property? head = some inside.toValue := by
              rcases put with ⟨application, rfl⟩ | put
              · rw [property?_serviceSlot changes.kept application] at found
                cases found
              · exact put
            rw [changes.kind] at fromFresh
            exact ⟨alone, fromFresh, by rw [valueAt?_block found', valueAt?_block aloneFound, same]⟩

/-- One more service stands after those that an application has. -/
theorem assignPath_appends {one two : Entity} (kept : one.Kept) (application : one.kind = .application)
    {rest : List String} {content : Value}
    (success : one.assignPath (serviceSlot :: rest) content = .ok two) :
    ∃ items service, one.valueAt? ["services"] = some (.sequence items) ∧
      two.valueAt? ["services"] = some (.sequence (items ++ [service])) := by
  obtain ⟨assigned, set⟩ := assignPath_sets success
  obtain ⟨items, services, _⟩ := property?_services kept application
  rcases setProperty_eq_ok kept set with ⟨shape, _, field, _⟩ | ⟨service, _, _, _, rfl⟩
  · rw [application] at field
    cases field
  · refine ⟨items, service, (Mapping.find?_ofTable _ _).trans services, ?_⟩
    rw [appendService_eq services]
    exact (Mapping.find?_ofTable _ _).trans (Entries.find?_insert_self _ _ _)

/-- The value at a dotted name in the mapping of an entity. -/
def at? (entity : Entity) (path : String) : Option Value :=
  entity.valueAt? (DottedName.segments path)

/-- Two assignments in one block to names of which neither leads through the other. Unless both lead to
the same key of one property, the second one keeps the value at the first name; only an application's
services, where one more is assigned, have it at their end. -/
theorem bindPath_apart {entity one two : Entity} {used first second : UsedNames} {path other : String}
    {values contents : List Value} (reachable : entity.Reachable) (different : path ≠ other)
    (outside : DottedName.isWithin path other = false) (beside : DottedName.isWithin other path = false)
    (separate : ¬ Meets (DottedName.segments path) (DottedName.segments other))
    (once : entity.bindPath used path values = .ok (one, first))
    (twice : one.bindPath first other contents = .ok (two, second)) :
    (¬ Appends entity.kind (DottedName.segments path) (DottedName.segments other) →
        two.at? path = one.at? path) ∧
      (Appends entity.kind (DottedName.segments path) (DottedName.segments other) →
        ∃ items service, one.at? path = some (.sequence items) ∧
          two.at? path = some (.sequence (items ++ [service]))) := by
  obtain ⟨value, _, _, assigned, _⟩ := bindPath_eq_ok.mp once
  obtain ⟨content, _, _, assigned', _⟩ := bindPath_eq_ok.mp twice
  obtain ⟨_, _, _, changes⟩ := bindPath_assigns reachable.kept once
  constructor
  · refine assignPath_apart reachable.kept ?_ ?_ assigned assigned' separate
    · intro leads
      rcases DottedName.eq_or_isWithin_of_prefix leads with same | inside
      · exact different same
      · rw [beside] at inside
        cases inside
    · intro leads
      rcases DottedName.eq_or_isWithin_of_prefix leads with same | inside
      · exact different same.symm
      · rw [outside] at inside
        cases inside
  · rintro ⟨application, services, begins⟩
    obtain ⟨head, rest, segments⟩ := List.exists_cons_of_ne_nil (DottedName.segments_ne_nil other)
    rw [segments] at begins assigned'
    obtain rfl := Option.some.inj begins
    rw [at?, at?, services]
    exact assignPath_appends changes.kept (changes.kind.trans application) assigned'

theorem bindPath_apart_plugin :
    ∃ one two first second,
      (fresh .plugin).bindPath [] "config.host" [.text "db"] = .ok (one, first) ∧
      one.bindPath first "config.port" [.int 5432] = .ok (two, second) ∧
      one.at? "config.host" = some (.text "db") ∧ two.at? "config.host" = one.at? "config.host" := by
  have once : (fresh .plugin).bindPath [] "config.host" [.text "db"] =
      .ok ((fresh .plugin).withKey "config" "host" (.text "db"), ["config.host"]) := rfl
  have twice : ((fresh .plugin).withKey "config" "host" (.text "db")).bindPath ["config.host"] "config.port"
      [.int 5432] = .ok (((fresh .plugin).withKey "config" "host" (.text "db")).withKey "config" "port"
        (.int 5432), ["config.host", "config.port"]) := rfl
  have separate : ¬ Meets (DottedName.segments "config.host") (DottedName.segments "config.port") := by
    have first : DottedName.segments "config.host" = ["config", "host"] := by decide
    have second : DottedName.segments "config.port" = ["config", "port"] := by decide
    have free : Registry.describe? "config" = none := rfl
    simp [first, second, Meets, free]
  exact ⟨_, _, _, _, once, twice, rfl, (bindPath_apart (.fresh .plugin) (by decide) (by decide) (by decide)
    separate once twice).1 fun appends => by cases appends.1⟩

/-- Below the same key the earlier value is lost, and an application's services grow. -/
theorem bindPath_apart_changes :
    (∃ one two first second,
      (fresh .cloud).bindPath [] "custom.a.b" [.int 1] = .ok (one, first) ∧
      one.bindPath first "custom.a.c" [.int 2] = .ok (two, second) ∧
      one.at? "custom.a.b" = some (.int 1) ∧ two.at? "custom.a.b" = none) ∧
    (∃ one two first second service,
      (fresh .application).bindPath [] "services" [.sequence []] = .ok (one, first) ∧
      one.bindPath first "service.name" [.text "web"] = .ok (two, second) ∧
      one.at? "services" = some (.sequence []) ∧ two.at? "services" = some (.sequence [service])) :=
  ⟨⟨_, _, _, _, rfl, rfl, rfl, rfl⟩, ⟨_, _, _, _, _, rfl, rfl, rfl, rfl⟩⟩

end Entity

end DeployRecipe
