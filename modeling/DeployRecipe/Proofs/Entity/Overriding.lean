import DeployRecipe.Proofs.Entity.Inner
import DeployRecipe.Proofs.Entity.Separate

/-!
What overriding a property has to do with what the property held. The coercions look at the form of the held value
alone, which is a scalar, a list or neither. A property of one form holds that form always; where a property may hold
more than one form, or nothing yet, only some values are taken in the same way whatever it holds.
-/

namespace DeployRecipe

open Entity (shaped fallbacks)

namespace Value

def isMapping : Value → Bool
  | .mapping _ => true
  | _ => false

/-- The two values are scalars or not and lists or not, each as the other one. -/
def SameForm (one other : Value) : Prop :=
  one.isScalar = other.isScalar ∧ one.isSequence = other.isSequence

end Value

namespace Shape

/-- A text, a truth value, a number or a choice. -/
def isSingle : Shape → Bool
  | .text | .bool | .int _ | .double | .choice _ => true
  | _ => false

/-- Values of more than one form. -/
def isUnion : Shape → Bool
  | .optional .any | .optional .executable => true
  | _ => false

/-- A map or an entity. -/
def holdsParts : Shape → Bool
  | .map _ | .record _ _ _ | .optional (.record _ _ _) => true
  | _ => false

/-- What a property may hold: parts, a list, or one value that may be absent or of more than one form. -/
inductive IsProperty : Shape → Prop
  | parts {shape : Shape} (parts : shape.holdsParts = true) : IsProperty shape
  | list (inner : Shape) : IsProperty (.list inner)
  | single {shape : Shape} (single : shape.isSingle = true) : IsProperty shape
  | optional {inner : Shape} (single : inner.isSingle = true) : IsProperty (.optional inner)
  | union {shape : Shape} (union : shape.isUnion = true) : IsProperty shape

/-- Decides whether the shape is that of a property. -/
def isProperty : Shape → Bool
  | .list _ => true
  | .optional inner => inner.isSingle || isUnion (.optional inner) || holdsParts (.optional inner)
  | shape => shape.isSingle || shape.holdsParts

theorem isProperty_of_check {shape : Shape} (check : shape.isProperty = true) : shape.IsProperty := by
  cases shape with
  | list inner => exact .list inner
  | optional inner =>
    simp only [isProperty, Bool.or_eq_true] at check
    rcases check with (single | union) | parts
    · exact .optional single
    · exact .union union
    · exact .parts parts
  | _ =>
    simp only [isProperty, Bool.or_eq_true] at check
    rcases check with single | parts
    · exact .single single
    · exact .parts parts

/-- What a single value is kept as is a scalar. -/
theorem isScalar_of_decode_single {shape : Shape} (single : shape.isSingle = true) {value kept : Value}
    (read : shape.decode value = .ok kept) : kept.isScalar = true := by
  cases shape with
  | text | bool | double =>
    simp only [decode] at read
    split at read <;> cases read <;> rfl
  | int range =>
    simp only [decode] at read
    split at read
    · split at read <;> cases read
      rfl
    · cases read
  | choice choices =>
    have member (spelling : String) (read : decodeChoice choices spelling = .ok kept) : kept.isScalar = true := by
      rw [decodeChoice] at read
      split at read <;> cases read
      rfl
    simp only [decode] at read
    split at read
    · exact member _ read
    · exact member _ read
    · cases read
  | _ => cases single

/-- A single value is read from no list and from no mapping. -/
theorem decode_single_eq_ok {shape : Shape} (single : shape.isSingle = true) {value kept : Value}
    (read : shape.decode value = .ok kept) : value.isSequence = false ∧ value.isMapping = false := by
  cases value with
  | sequence items =>
    cases shape <;> simp [decode, Value.untagged, isSingle] at read single
  | mapping entries =>
    cases shape <;> simp [decode, Value.untagged, isSingle] at read single
  | _ => exact ⟨rfl, rfl⟩

end Shape

namespace Layout

/-- All fields have shapes of properties. -/
def haveProperties : Layout → Bool
  | .nil => true
  | .field _ shape _ rest => shape.isProperty && rest.haveProperties

theorem isProperty_of_shape? {layout : Layout} (check : layout.haveProperties = true) {name : String} {shape : Shape}
    (field : layout.shape? name = some shape) : shape.IsProperty := by
  induction layout with
  | nil => cases field
  | field present first absent rest inductionHypothesis =>
    obtain ⟨here, later⟩ := Bool.and_eq_true_iff.mp check
    rw [shape?] at field
    split at field
    · obtain rfl := Option.some.inj field
      exact Shape.isProperty_of_check here
    · exact inductionHypothesis later field

end Layout

theorem EntityKind.isProperty_of_field? {kind : EntityKind} {name : String} {shape : Shape}
    (field : kind.field? name = some shape) : shape.IsProperty := by
  refine Layout.isProperty_of_shape? ?_ field
  cases kind <;> rfl

namespace Value

/-- The only item of a list of one, and every other value as it is. -/
def unwrapped : Value → Value
  | .sequence [only] => only
  | value => value

theorem unwrapped_of_ne_one {value : Value} (many : ∀ item, value ≠ .sequence [item]) :
    value.unwrapped = value := by
  cases value with
  | sequence items =>
    rcases items with _ | ⟨only, _ | _⟩
    · rfl
    · exact absurd rfl (many only)
    · rfl
  | _ => rfl

theorem isSequence_of_isScalar {value : Value} (scalar : value.isScalar = true) : value.isSequence = false := by
  cases value with
  | sequence items => cases scalar
  | _ => rfl

theorem SameForm.of_isScalar {one other : Value} (scalar : one.isScalar = true)
    (scalar' : other.isScalar = true) : one.SameForm other :=
  ⟨scalar.trans scalar'.symm, (isSequence_of_isScalar scalar).trans (isSequence_of_isScalar scalar').symm⟩

theorem ne_one_of_isScalar {value : Value} (scalar : value.isScalar = true) (item : Value) :
    value ≠ .sequence [item] := by
  rintro rfl
  cases scalar

end Value

namespace Entity

/-- The form of the held value decides on how a value is taken that is no mapping. -/
theorem shaped_eq (current : Value) {value : Value} (plain : value.isMapping = false) :
    shaped current value =
      if current.isSequence then if value.isScalar then .sequence [value] else value
      else if current.isScalar then value.unwrapped else value := by
  cases value with
  | mapping entries => cases plain
  | sequence items =>
    rcases items with _ | ⟨only, _ | _⟩ <;> cases current <;>
      simp [shaped, Value.isSequence, Value.isScalar, Value.unwrapped]
  | _ => cases current <;> simp [shaped, Value.isSequence, Value.isScalar, Value.unwrapped]

theorem fallbacks_congr {current other : Value} (same : other.isSequence = current.isSequence) (value : Value) :
    fallbacks other value = fallbacks current value := by
  simp only [fallbacks, same]

theorem fallbacks_of_ne_one (current : Value) {value : Value} (plain : value.isMapping = false)
    (many : ∀ item, value ≠ .sequence [item]) : fallbacks current value = value.asText?.toList := by
  cases value with
  | mapping entries => cases plain
  | sequence items =>
    rcases items with _ | ⟨only, _ | _⟩
    · rfl
    · exact absurd rfl (many only)
    · rfl
  | _ => rfl

/-- In place of a mapping other mappings are tried. -/
theorem isMapping_of_mem_fallbacks {current candidate : Value} {entries : Mapping}
    (member : candidate ∈ fallbacks current (.mapping entries)) : candidate.isMapping = true := by
  rw [fallbacks] at member
  split at member
  · obtain rfl := List.mem_singleton.mp member
    rfl
  · cases member

end Entity

namespace Shape

variable {shape : Shape} {current other value : Value}

theorem settled?_congr (shaped' : shaped other value = shaped current value)
    (fallbacks' : fallbacks other (shaped current value) = fallbacks current (shaped current value)) :
    shape.settled? other value = shape.settled? current value := by
  simp only [settled?, shaped', fallbacks']

theorem settled?_of_sameForm (plain : value.isMapping = false) (same : current.SameForm other) :
    shape.settled? other value = shape.settled? current value := by
  obtain ⟨scalar, sequence⟩ := same
  refine settled?_congr ?_ (Entity.fallbacks_congr sequence.symm _)
  rw [Entity.shaped_eq other plain, Entity.shaped_eq current plain, scalar, sequence]

/-- A value that is neither a scalar nor a list of one is taken as it is. -/
theorem settled?_of_whole (plain : value.isMapping = false) (scalar : value.isScalar = false)
    (many : ∀ item, value ≠ .sequence [item]) : shape.settled? other value = shape.settled? current value := by
  have whole (held : Value) : shaped held value = value := by
    simp only [Entity.shaped_eq held plain, scalar, Value.unwrapped_of_ne_one many, Bool.false_eq_true, if_false,
      ite_self]
  refine settled?_congr ((whole other).trans (whole current).symm) ?_
  rw [whole current, Entity.fallbacks_of_ne_one _ plain many, Entity.fallbacks_of_ne_one _ plain many]

/-- A scalar is taken in one way by lists and in another one by everything else. -/
theorem settled?_of_isScalar (plain : value.isMapping = false) (scalar : value.isScalar = true)
    (lists : current.isSequence = other.isSequence) :
    shape.settled? other value = shape.settled? current value := by
  refine settled?_congr ?_ (Entity.fallbacks_congr lists.symm _)
  simp only [Entity.shaped_eq _ plain, lists, Value.unwrapped_of_ne_one (Value.ne_one_of_isScalar scalar), ite_self]

/-- A list of one that the shape reads is taken as it is where no scalar is held. -/
theorem settled?_asGiven {item kept : Value} (free : current.isScalar = false)
    (read : shape.decode (.sequence [item]) = .ok kept) : shape.settled? current (.sequence [item]) = some kept := by
  have whole : shaped current (.sequence [item]) = .sequence [item] := by
    rw [Entity.shaped_eq current rfl, free]
    simp [Value.isScalar]
  simp only [settled?, whole, List.findSome?_cons, read, Except.toOption]

theorem toOption_decode_eq_none (refused : ∀ kept, shape.decode value ≠ .ok kept) :
    (shape.decode value).toOption = none := by
  cases read : shape.decode value with
  | ok kept => exact absurd read (refused kept)
  | error error => rfl

/-- Where no mapping is read, nothing that is tried in place of one is read. -/
theorem findSome?_fallbacks_mapping {entries : Mapping}
    (refused : ∀ value : Value, value.isMapping = true → ∀ kept, shape.decode value ≠ .ok kept) :
    (fallbacks current (.mapping entries)).findSome? (fun candidate => (shape.decode candidate).toOption) = none :=
  List.findSome?_eq_none_iff.mpr fun candidate member =>
    toOption_decode_eq_none (refused candidate (Entity.isMapping_of_mem_fallbacks member))

/-- The item of a list of one that the shape does not read is taken as it is, or else as a text, where no list is
held. -/
theorem settled?_unwrapped {item : Value} (free : current.isSequence = false)
    (refused : ∀ kept, shape.decode (.sequence [item]) ≠ .ok kept) (flat : ∀ inner, item ≠ .sequence [inner])
    (parts : item.isMapping = true → ∀ value : Value, value.isMapping = true → ∀ kept, shape.decode value ≠ .ok kept) :
    shape.settled? current (.sequence [item]) =
      (item :: item.asText?.toList).findSome? fun candidate => (shape.decode candidate).toOption := by
  rw [settled?, Entity.shaped_eq current rfl, free]
  cases scalar : current.isScalar with
  | false =>
    -- the list is refused as it is given, and its item is tried in its place
    simp only [Bool.false_eq_true, if_false, List.findSome?_cons, toOption_decode_eq_none refused]
    simp [fallbacks, free, List.findSome?_cons]
  | true =>
    simp only [Bool.false_eq_true, if_false, if_true, Value.unwrapped]
    cases item with
    | mapping entries =>
      have nothing := parts rfl
      simp only [List.findSome?_cons, toOption_decode_eq_none (nothing (.mapping entries) rfl),
        findSome?_fallbacks_mapping nothing]
      rfl
    | _ => rw [Entity.fallbacks_of_ne_one current rfl flat]

/-- Ways in which a value is taken alike where one and the other value are held. -/
inductive TakenAlike (shape : Shape) (held other value : Value) : Prop
  /-- The held values have the same form. -/
  | sameForm (same : held.SameForm other)
  /-- The shape has one form, or else none yet. -/
  | plain (union : shape.isUnion = false)
    (flat : ∀ inner item, shape = .optional inner → value ≠ .sequence [.sequence [item]])
  /-- The value is neither a scalar nor a list of one. -/
  | whole (scalar : value.isScalar = false) (many : ∀ item, value ≠ .sequence [item])
  /-- The value is a scalar, and lists are held or none. -/
  | scalar (scalar : value.isScalar = true) (lists : held.isSequence = other.isSequence)
  /-- The value is a list of one that the shape reads, and no scalar is held. -/
  | asGiven (item kept : Value) (one : value = .sequence [item]) (read : shape.decode value = .ok kept)
    (free : held.isScalar = false) (free' : other.isScalar = false)
  /-- The value is a list of one that the shape does not read, and no list is held. -/
  | unwrapped (item : Value) (one : value = .sequence [item]) (refused : ∀ kept, shape.decode value ≠ .ok kept)
    (mapping : item.isMapping = false) (flat : ∀ inner, item ≠ .sequence [inner])
    (free : held.isSequence = false) (free' : other.isSequence = false)

/-- An optional single value is read from no list and from no mapping, and kept as no list. -/
theorem decode_optional_single_eq_ok {inner : Shape} (single : inner.isSingle = true) {value kept : Value}
    (read : (optional inner).decode value = .ok kept) :
    value.isSequence = false ∧ value.isMapping = false ∧ kept.isSequence = false := by
  rcases decode_optional_eq_ok read with ⟨rfl, rfl⟩ | given
  · exact ⟨rfl, rfl, rfl⟩
  · obtain ⟨list, mapping⟩ := decode_single_eq_ok single given
    exact ⟨list, mapping, Value.isSequence_of_isScalar (isScalar_of_decode_single single given)⟩

/-- An optional single value takes every value alike, whether or not it is set, but for a list of one list. -/
theorem settled?_optional {inner : Shape} (single : inner.isSingle = true)
    (fits : (optional inner).decode current = .ok current) (fits' : (optional inner).decode other = .ok other)
    (plain : value.isMapping = false) (flat : ∀ item, value ≠ .sequence [.sequence [item]]) :
    (optional inner).settled? other value = (optional inner).settled? current value := by
  obtain ⟨-, -, free⟩ := decode_optional_single_eq_ok single fits
  obtain ⟨-, -, free'⟩ := decode_optional_single_eq_ok single fits'
  by_cases one : ∃ item, value = .sequence [item]
  · -- a set value unwraps the list at once and an unset one when the list is refused, so both try its item
    obtain ⟨item, rfl⟩ := one
    have refused (kept : Value) : (optional inner).decode (.sequence [item]) ≠ .ok kept := by
      intro read
      cases (decode_optional_single_eq_ok single read).1
    have inside (between : Value) : item ≠ .sequence [between] := by
      rintro rfl
      exact flat between rfl
    have parts (_ : item.isMapping = true) (mapping : Value) (isMapping : mapping.isMapping = true) (kept : Value) :
        (optional inner).decode mapping ≠ .ok kept := by
      intro read
      rw [(decode_optional_single_eq_ok single read).2.1] at isMapping
      cases isMapping
    rw [settled?_unwrapped free' refused inside parts, settled?_unwrapped free refused inside parts]
  · cases scalar : value.isScalar with
    | true => exact settled?_of_isScalar plain scalar (free.trans free'.symm)
    | false => exact settled?_of_whole plain scalar fun item equal => one ⟨item, equal⟩

/-- What a property is kept as has one form always, unless it may be absent or is of more than one form. -/
theorem settled?_plain (isProperty : shape.IsProperty) (parts : shape.holdsParts = false)
    (union : shape.isUnion = false) (fits : shape.decode current = .ok current)
    (fits' : shape.decode other = .ok other) (plain : value.isMapping = false)
    (flat : ∀ inner item, shape = .optional inner → value ≠ .sequence [.sequence [item]]) :
    shape.settled? other value = shape.settled? current value := by
  cases isProperty with
  | parts holds => exact absurd (holds.symm.trans parts) (by decide)
  | list inner =>
    obtain ⟨items, rfl, -⟩ := decode_list_eq_self fits
    obtain ⟨items', rfl, -⟩ := decode_list_eq_self fits'
    exact settled?_of_sameForm plain ⟨rfl, rfl⟩
  | single single =>
    exact settled?_of_sameForm plain
      (.of_isScalar (isScalar_of_decode_single single fits) (isScalar_of_decode_single single fits'))
  | optional single => exact settled?_optional single fits fits' plain fun item => flat _ item rfl
  | union isUnion => exact absurd (isUnion.symm.trans union) (by decide)

theorem settled?_of_takenAlike (isProperty : shape.IsProperty) (parts : shape.holdsParts = false)
    (fits : shape.decode current = .ok current) (fits' : shape.decode other = .ok other)
    (plain : value.isMapping = false) (alike : shape.TakenAlike current other value) :
    shape.settled? other value = shape.settled? current value := by
  cases alike with
  | sameForm same => exact settled?_of_sameForm plain same
  | plain union flat => exact settled?_plain isProperty parts union fits fits' plain flat
  | whole scalar many => exact settled?_of_whole plain scalar many
  | scalar scalar lists => exact settled?_of_isScalar plain scalar lists
  | asGiven item kept one read free free' =>
    subst one
    rw [settled?_asGiven free' read, settled?_asGiven free read]
  | unwrapped item one refused mapping flat free free' =>
    subst one
    have parts (isMapping : item.isMapping = true) : ∀ value : Value, value.isMapping = true → ∀ kept,
        shape.decode value ≠ .ok kept := by
      rw [mapping] at isMapping
      cases isMapping
    rw [settled?_unwrapped free' refused flat parts, settled?_unwrapped free refused flat parts]

end Shape

namespace Entity

/-- What an assignment after the coercions stores in a property; nothing if the assignment fails. -/
def stored? (entity : Entity) (name : String) (value : Value) : Option Value :=
  (entity.setCoerced name value).toOption.map fun changed => changed.property name

theorem stored?_eq {entity : Entity} (kept : entity.Kept) {name : String} {shape : Shape}
    (field : entity.kind.field? name = some shape) (value : Value) :
    entity.stored? name value =
      if name ∈ entity.kind.readOnly then none else shape.settled? (entity.property name) value := by
  split
  · rename_i readOnly
    rw [stored?]
    cases outcome : entity.setCoerced name value with
    | error error => rfl
    | ok changed =>
      obtain ⟨assigned, set⟩ := setCoerced_eq_ok outcome
      rcases setProperty_eq_ok kept set with ⟨_, _, writable, _⟩ | ⟨_, application, _⟩
      · exact absurd readOnly (EntityKind.writable?_eq_some.mp writable).1
      · rw [application] at readOnly
        cases readOnly
  · rename_i free
    rw [stored?, toOption_setCoerced kept (EntityKind.writable?_eq_some.mpr ⟨free, field⟩), Option.map_map]
    have stores (settled : Value) : (entity.withProperty name settled).property name = settled := by
      rw [property, property?_withProperty, Option.getD_some]
    cases shape.settled? (entity.property name) value with
    | none => rfl
    | some settled => exact congrArg some (stores settled)

/-- What an assignment stores in a property that holds no parts, and whether it succeeds, does not depend on what the
property held, where the value is taken alike: always in lists and in single values, and in optional single values
but for a list of one list; elsewhere for held values of one form and for the values that `Shape.TakenAlike` names.
All entities that assignments lead to are kept (`Attainable.kept`). -/
theorem stored?_eq_of_takenAlike {entity other : Entity} (kept : entity.Kept) (kept' : other.Kept)
    (kind : other.kind = entity.kind) {name : String} {shape : Shape}
    (field : entity.kind.field? name = some shape) (parts : shape.holdsParts = false) {value : Value}
    (plain : value.isMapping = false)
    (alike : shape.TakenAlike (entity.property name) (other.property name) value) :
    other.stored? name value = entity.stored? name value := by
  have field' : other.kind.field? name = some shape := kind ▸ field
  have fits := (property_of_field kept field).2
  have fits' := (property_of_field kept' field').2
  rw [stored?_eq kept field, stored?_eq kept' field', kind,
    Shape.settled?_of_takenAlike (EntityKind.isProperty_of_field? field) parts fits fits' plain alike]

/-- A list of one number is the name of a service as a text, in a new service as well as in one with a name. -/
theorem stored?_eq_of_takenAlike_name :
    ∃ named, (fresh .service).setCoerced "name" (.text "web") = .ok named ∧
      named.property "name" = .text "web" ∧ (fresh .service).property "name" = .null ∧
      named.stored? "name" (.sequence [.int 5]) = (fresh .service).stored? "name" (.sequence [.int 5]) ∧
      (fresh .service).stored? "name" (.sequence [.int 5]) = some (.text "5") := by
  have set : (fresh .service).setCoerced "name" (.text "web") =
      .ok ((fresh .service).withProperty "name" (.text "web")) := rfl
  have kept := (setCoerced_assigns (kept_fresh .service) set).kept
  have field : EntityKind.field? .service "name" = some (.optional .text) := rfl
  refine ⟨_, set, rfl, rfl, stored?_eq_of_takenAlike (kept_fresh .service) kept rfl field rfl rfl ?_, rfl⟩
  refine .plain rfl fun inner item _ same => ?_
  cases same

/-- A list of one script is stored as a list by a handler that is not set and as the script alone by one that holds
a script. -/
theorem stored?_init_ne :
    ∃ held, (fresh .lifecycle).bind [] "init" [.text "old.sh"] = .ok (held, ["init"]) ∧
      EntityKind.field? .lifecycle "init" = some (.optional .executable) ∧
      held.stored? "init" (.sequence [.text "new.sh"]) = some (.text "new.sh") ∧
      (fresh .lifecycle).stored? "init" (.sequence [.text "new.sh"]) = some (.sequence [.text "new.sh"]) :=
  ⟨(fresh .lifecycle).withProperty "init" (.text "old.sh"), rfl, rfl, rfl, rfl⟩

end Entity

end DeployRecipe
