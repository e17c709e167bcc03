import DeployRecipe.Proofs.Entity.Binding
import DeployRecipe.Proofs.Mapping

/-!
Keys of properties that hold a mapping. Such a property is read key by key, so a value for one key is read
alone, and it leaves the other keys as they are.
-/

namespace DeployRecipe

namespace Mapping

/-- A text key is the same value as another one only if it has the same characters. -/
theorem insertKey_text (mapping : Mapping) (key : String) (value : Value) :
    mapping.insertKey (.text key) value = mapping.insert key value := by
  induction mapping with
  | nil => rfl
  | cons entry rest inductionHypothesis =>
    obtain ⟨present, old⟩ := entry
    cases present with
    | text name =>
      rw [insertKey, insert, inductionHypothesis]
      simp only [Value.same, decide_eq_true_eq]
    | _ =>
      rw [insertKey, insert, inductionHypothesis]
      · simp [Value.same]
      · simp

/-- Reads the content of each key. -/
def readAll (read : Value → Option Value) : Mapping → Option Mapping
  | [] => some []
  | (key, content) :: rest => do
    let value ← read content
    let others ← readAll read rest
    some ((key, value) :: others)

/-- Every key is a text, and every content is read as itself. -/
def KeptBy (read : Value → Option Value) (mapping : Mapping) : Prop :=
  ∀ entry ∈ mapping, (∃ key, entry.1 = .text key) ∧ read entry.2 = some entry.2

theorem readAll_of_keptBy {read : Value → Option Value} {mapping : Mapping} (kept : mapping.KeptBy read) :
    mapping.readAll read = some mapping := by
  induction mapping with
  | nil => rfl
  | cons entry rest inductionHypothesis =>
    obtain ⟨⟨_, same⟩, others⟩ := List.forall_mem_cons.mp kept
    rw [readAll, same, inductionHypothesis others]
    rfl

/-- Beside contents that are kept only the new content is read. -/
theorem readAll_insert {read : Value → Option Value} {mapping : Mapping} (kept : mapping.KeptBy read)
    (key : String) (content : Value) :
    (mapping.insert key content).readAll read = (read content).map (mapping.insert key) := by
  induction mapping with
  | nil => cases value : read content <;> simp [insert, readAll, value]
  | cons entry rest inductionHypothesis =>
    obtain ⟨⟨⟨present, text⟩, same⟩, others⟩ := List.forall_mem_cons.mp kept
    obtain ⟨first, old⟩ := entry
    obtain rfl : first = .text present := text
    by_cases here : present = key
    · rw [insert, if_pos here, readAll, readAll_of_keptBy others]
      cases read content with
      | none => rfl
      | some value => simp [insert, here]
    · rw [insert, if_neg here, readAll, same, inductionHypothesis others]
      cases read content with
      | none => rfl
      | some value => simp [insert, here]

end Mapping

namespace Shape

/-- Only a text, which stays as it is. -/
def readText : Value → Option Value
  | .text content => some (.text content)
  | _ => none

/-- The reading of one content, if mappings are read key by key. -/
def contentReader? : Shape → Option (Value → Option Value)
  | .map .any => some some
  | .map .text => some fun content => (decode .text content).toOption
  | .map .executable => some fun content => (decode .executable content).toOption
  | .map (.record title closed layout) =>
    some fun content => (decode (.record title closed layout) content).toOption
  | .optional .executable => some readText
  | _ => none

/-- No mapping has the shape. -/
def refusesMappings : Shape → Bool
  | .text | .bool | .int _ | .double | .list _ | .choice _ => true
  | .optional inner => inner.refusesMappings
  | _ => false

theorem decode_mapping_of_refuses (entries : Mapping) : (shape : Shape) → shape.refusesMappings = true →
    (shape.decode (.mapping entries)).toOption = none
  | .text, _ | .bool, _ | .int _, _ | .double, _ | .list _, _ | .choice _, _ => rfl
  | .optional inner, refuses => by
    rw [decode]
    · exact decode_mapping_of_refuses entries inner refuses
    · simp

theorem collectEntries_texts {read : Value → Except DecodeError Value} {entries : Mapping}
    (texts : ∀ entry ∈ entries, ∃ key, entry.1 = .text key) :
    (collectEntries read entries).toOption = entries.readAll fun content => (read content).toOption := by
  induction entries with
  | nil => rfl
  | cons entry rest inductionHypothesis =>
    obtain ⟨⟨key, text⟩, others⟩ := List.forall_mem_cons.mp texts
    obtain ⟨first, content⟩ := entry
    obtain rfl : first = .text key := text
    rw [collectEntries, Mapping.readAll, ← inductionHypothesis others]
    simp only [Value.untagged]
    cases read content with
    | error error => rfl
    | ok value => cases collectEntries read rest <;> rfl

/-- The two texts of a line for one system. -/
def lineOf? (entry : Value × Value) : Option (String × String) := do
  pure ((← Executable.textOf? entry.1), (← Executable.textOf? entry.2))

theorem mapM_lineOf? {entries : Mapping} (texts : ∀ entry ∈ entries, ∃ key, entry.1 = .text key) :
    Option.map (List.map fun line : String × String => (Value.text line.1, Value.text line.2))
        (entries.mapM lineOf?) =
      entries.readAll readText := by
  induction entries with
  | nil => rfl
  | cons entry rest inductionHypothesis =>
    obtain ⟨⟨key, text⟩, others⟩ := List.forall_mem_cons.mp texts
    obtain ⟨first, content⟩ := entry
    obtain rfl : first = .text key := text
    rw [Mapping.readAll, ← inductionHypothesis others, List.mapM_cons]
    cases content <;> cases rest.mapM lineOf? <;> rfl

theorem executable_texts {entries : Mapping} (texts : ∀ entry ∈ entries, ∃ key, entry.1 = .text key) :
    (decodeExecutable (.mapping entries)).toOption = (entries.readAll readText).map .mapping := by
  have command : Executable.ofValue? (.mapping entries) =
      (entries.mapM lineOf?).map .perSystem := rfl
  rw [decodeExecutable, command, ← mapM_lineOf? texts]
  cases entries.mapM lineOf? <;> rfl

/-- Mappings with text keys are read key by key. -/
theorem decode_mapping_of_contentReader {shape : Shape} {read : Value → Option Value}
    (reader : shape.contentReader? = some read) {entries : Mapping}
    (texts : ∀ entry ∈ entries, ∃ key, entry.1 = .text key) :
    (shape.decode (.mapping entries)).toOption = (entries.readAll read).map .mapping := by
  have byMap : ∀ inner : Shape, ((Shape.map inner).decode (.mapping entries)).toOption =
      (entries.readAll fun content => (inner.decode content).toOption).map .mapping := by
    intro inner
    rw [decode, ← collectEntries_texts texts]
    simp only [Value.untagged]
    cases collectEntries inner.decode entries <;> rfl
  cases shape with
  | map inner =>
    cases inner <;> simp only [contentReader?, Option.some.injEq, reduceCtorEq] at reader
    all_goals
      subst reader
      exact byMap _
  | optional inner =>
    cases inner <;> simp only [contentReader?, Option.some.injEq, reduceCtorEq] at reader
    subst reader
    rw [decode, decode, executable_texts texts]
    simp
  | _ => cases reader

theorem texts_of_collectEntries {read : Value → Except DecodeError Value} {entries kept : Mapping}
    (success : collectEntries read entries = .ok kept) : ∀ entry ∈ kept, ∃ key, entry.1 = .text key := by
  induction entries generalizing kept with
  | nil =>
    obtain rfl := Except.ok.inj success
    simp
  | cons entry rest inductionHypothesis =>
    obtain ⟨key, content⟩ := entry
    rw [collectEntries] at success
    split at success
    · rename_i name _
      obtain ⟨value, _, success⟩ := (Running.attempt_eq_ok _ _ _).mp success
      obtain ⟨others, more, success⟩ := (Running.attempt_eq_ok _ _ _).mp success
      obtain rfl := Except.ok.inj success
      exact List.forall_mem_cons.mpr ⟨⟨name, rfl⟩, inductionHypothesis more⟩
    · cases success

/-- The keys of a mapping that is kept are texts. -/
theorem texts_of_decode {shape : Shape} {read : Value → Option Value}
    (reader : shape.contentReader? = some read) {entries : Mapping}
    (kept : shape.decode (.mapping entries) = .ok (.mapping entries)) :
    ∀ entry ∈ entries, ∃ key, entry.1 = .text key := by
  cases shape with
  | map inner =>
    rw [decode] at kept
    simp only [Value.untagged] at kept
    obtain ⟨collected, success, same⟩ := (Running.map_eq_ok _ _ _).mp kept
    obtain rfl := Value.mapping.inj same
    exact texts_of_collectEntries success
  | optional inner =>
    cases inner <;> simp only [contentReader?, reduceCtorEq] at reader
    rw [decode, decode, decodeExecutable] at kept
    · split at kept
      · rename_i command _
        have same := Except.ok.inj kept
        cases command with
        | perSystem lines =>
          obtain rfl := Value.mapping.inj same
          rintro entry member
          obtain ⟨line, _, rfl⟩ := List.mem_map.mp member
          exact ⟨line.1, rfl⟩
        | _ => cases same
      · cases kept
    · simp
  | _ => cases reader

theorem keptBy_of_readAll {read : Value → Option Value} {entries : Mapping}
    (texts : ∀ entry ∈ entries, ∃ key, entry.1 = .text key) (same : entries.readAll read = some entries) :
    entries.KeptBy read := by
  induction entries with
  | nil => simp [Mapping.KeptBy]
  | cons entry rest inductionHypothesis =>
    obtain ⟨text, others⟩ := List.forall_mem_cons.mp texts
    obtain ⟨key, content⟩ := entry
    rw [Mapping.readAll] at same
    obtain ⟨value, first, same⟩ := Option.bind_eq_some_iff.mp same
    obtain ⟨more, rest', same⟩ := Option.bind_eq_some_iff.mp same
    simp only [Option.some.injEq, List.cons.injEq, Prod.mk.injEq, true_and] at same
    obtain ⟨rfl, rfl⟩ := same
    exact List.forall_mem_cons.mpr ⟨⟨text, first⟩, inductionHypothesis others rest'⟩

/-- What is kept is a mapping whose contents are kept, or no mapping at all. -/
theorem keptBy_of_decode {shape : Shape} {read : Value → Option Value}
    (reader : shape.contentReader? = some read) {value : Value} (kept : shape.decode value = .ok value) :
    (Mapping.ofValue value).KeptBy read := by
  cases value with
  | mapping entries =>
    have texts := texts_of_decode reader kept
    have all := decode_mapping_of_contentReader reader texts
    rw [kept] at all
    obtain ⟨result, same, equal⟩ := Option.map_eq_some_iff.mp all.symm
    obtain rfl := Value.mapping.inj equal
    exact keptBy_of_readAll texts same
  | _ => simp [Mapping.ofValue, Mapping.KeptBy]

/-- Each content is read, or what is kept is no number and no truth value. -/
theorem steady_of_contentReader {shape : Shape} {read : Value → Option Value}
    (reader : shape.contentReader? = some read) :
    (∀ content, read content ≠ none) ∨ ∀ content, read content = some content → content.asText? = none := by
  cases shape with
  | map inner =>
    cases inner <;> simp only [contentReader?, Option.some.injEq, reduceCtorEq] at reader
    case any =>
      subst reader
      exact Or.inl fun content => Option.some_ne_none content
    all_goals
      subst reader
      refine Or.inr fun content same => ?_
      cases content <;> first | rfl | cases same
  | optional inner =>
    cases inner <;> simp only [contentReader?, Option.some.injEq, reduceCtorEq] at reader
    subst reader
    refine Or.inr fun content same => ?_
    cases content <;> first | rfl | cases same
  | _ => cases reader

end Shape

namespace Mapping

/-- The text in place of a number or a truth value, or the value itself. -/
def plain (content : Value) : Value :=
  content.asText?.getD content

theorem map_plain {mapping : Mapping} (plainly : ∀ entry ∈ mapping, entry.2.asText? = none) :
    (mapping.map fun entry => (entry.1, plain entry.2)) = mapping := by
  induction mapping with
  | nil => rfl
  | cons entry rest inductionHypothesis =>
    obtain ⟨same, others⟩ := List.forall_mem_cons.mp plainly
    rw [List.map_cons, inductionHypothesis others, plain, same]
    rfl

theorem map_plain_insert {mapping : Mapping} (plainly : ∀ entry ∈ mapping, entry.2.asText? = none)
    (key : String) (content : Value) :
    ((mapping.insert key content).map fun entry => (entry.1, plain entry.2)) =
      mapping.insert key (plain content) := by
  induction mapping with
  | nil => rfl
  | cons entry rest inductionHypothesis =>
    obtain ⟨same, others⟩ := List.forall_mem_cons.mp plainly
    obtain ⟨present, old⟩ := entry
    have kept : plain old = old := by rw [plain, same, Option.getD_none]
    cases present with
    | text name =>
      by_cases here : name = key
      · rw [insert, if_pos here, insert, if_pos here, List.map_cons, map_plain others]
      · rw [insert, if_neg here, insert, if_neg here, List.map_cons, inductionHypothesis others, kept]
    | _ =>
      rw [insert, insert, List.map_cons, inductionHypothesis others, kept]
      all_goals simp

theorem any_asText?_insert {mapping : Mapping} (plainly : ∀ entry ∈ mapping, entry.2.asText? = none)
    (key : String) (content : Value) :
    ((mapping.insert key content).any fun entry => entry.2.asText?.isSome) = content.asText?.isSome := by
  induction mapping with
  | nil => simp [insert]
  | cons entry rest inductionHypothesis =>
    obtain ⟨same, others⟩ := List.forall_mem_cons.mp plainly
    obtain ⟨present, old⟩ := entry
    have none : (rest.any fun entry => entry.2.asText?.isSome) = false := by
      rw [List.any_eq_false]
      intro entry member
      simp [others entry member]
    cases present with
    | text name =>
      by_cases here : name = key
      · rw [insert, if_pos here, List.any_cons, none, Bool.or_false]
      · rw [insert, if_neg here, List.any_cons, inductionHypothesis others, same]
        rfl
    | _ =>
      rw [insert, List.any_cons, inductionHypothesis others, same]
      · rfl
      · simp

theorem mem_insert {mapping : Mapping} {key : String} {value : Value} {entry : Value × Value}
    (member : entry ∈ mapping.insert key value) : entry = (.text key, value) ∨ entry ∈ mapping := by
  induction mapping with
  | nil => simpa [insert] using member
  | cons first rest inductionHypothesis =>
    obtain ⟨present, old⟩ := first
    cases present with
    | text name =>
      by_cases here : name = key
      · rw [insert, if_pos here, here] at member
        exact (List.mem_cons.mp member).imp id (List.mem_cons_of_mem _)
      · rw [insert, if_neg here] at member
        rcases List.mem_cons.mp member with rfl | later
        · exact Or.inr List.mem_cons_self
        · exact (inductionHypothesis later).imp id (List.mem_cons_of_mem _)
    | _ =>
      rw [insert] at member
      · rcases List.mem_cons.mp member with rfl | later
        · exact Or.inr List.mem_cons_self
        · exact (inductionHypothesis later).imp id (List.mem_cons_of_mem _)
      · simp

end Mapping

namespace Entity

/-- The reading of a content, or else of the text that stands for it. -/
def settle (read : Value → Option Value) (content : Value) : Option Value :=
  (read content).or (content.asText?.bind read)

theorem shaped_key (current : Value) (key : String) (content : Value) :
    shaped current (.mapping [(.text key, content)]) =
      .mapping ((Mapping.ofValue current).insert key content) := by
  cases current with
  | mapping entries =>
    cases entries with
    | nil => rfl
    | cons first rest => simp only [shaped, Mapping.merge, List.foldl, Mapping.insertKey_text, Mapping.ofValue]
  | _ => rfl

theorem fallbacks_key (current : Value) {mapping : Mapping}
    (plainly : ∀ entry ∈ mapping, entry.2.asText? = none) (key : String) (content : Value) :
    fallbacks current (.mapping (mapping.insert key content)) =
      (content.asText?.map fun line => Value.mapping (mapping.insert key line)).toList := by
  have some := Mapping.any_asText?_insert plainly key content
  have replaced := Mapping.map_plain_insert plainly key content
  rw [fallbacks]
  cases plain : content.asText? with
  | none =>
    rw [plain] at some
    rw [if_neg (by rw [some]; simp)]
    rfl
  | some line =>
    rw [plain] at some
    rw [Mapping.plain, plain, Option.getD_some] at replaced
    rw [if_pos (by rw [some]; rfl)]
    exact congrArg (fun entries => [Value.mapping entries]) replaced

/-- The entity with a value at one key of a property. -/
def withKey (entity : Entity) (name key : String) (value : Value) : Entity :=
  let mapping := (Mapping.ofValue (entity.property name)).insert key value
  { entity with properties := entity.properties.insert name (.mapping mapping) }

theorem setProperty_key {entity : Entity} (kept : entity.Kept) {name : String} {shape : Shape}
    {read : Value → Option Value} (field : entity.kind.writable? name = some shape)
    (reader : shape.contentReader? = some read) (key : String) (content : Value) :
    (∃ value, read content = some value ∧
      entity.setProperty name (.mapping ((Mapping.ofValue (entity.property name)).insert key content)) =
        .ok (entity.withKey name key value)) ∨
    (∃ error, read content = none ∧
      entity.setProperty name (.mapping ((Mapping.ofValue (entity.property name)).insert key content)) =
        .error (.coercion error)) := by
  have inner := Shape.keptBy_of_decode reader
    (property_of_field kept (EntityKind.writable?_eq_some.mp field).2).2
  have texts : ∀ entry ∈ (Mapping.ofValue (entity.property name)).insert key content,
      ∃ key, entry.1 = .text key := by
    intro entry member
    rcases Mapping.mem_insert member with rfl | old
    · exact ⟨key, rfl⟩
    · exact (inner entry old).1
  have decoded := Shape.decode_mapping_of_contentReader reader texts
  rw [Mapping.readAll_insert inner, Option.map_map] at decoded
  rw [setProperty_eq kept field]
  cases outcome : shape.decode (.mapping ((Mapping.ofValue (entity.property name)).insert key content)) with
  | ok result =>
    rw [outcome] at decoded
    obtain ⟨value, same, rfl⟩ := Option.map_eq_some_iff.mp decoded.symm
    exact Or.inl ⟨value, same, rfl⟩
  | error error =>
    rw [outcome] at decoded
    exact Or.inr ⟨error, Option.map_eq_none_iff.mp decoded.symm, rfl⟩

/-- To assign one key of a property is to settle its content, and nothing of the other keys counts. -/
theorem setCoerced_key {entity : Entity} (kept : entity.Kept) {name : String} {shape : Shape}
    {read : Value → Option Value} (field : entity.kind.writable? name = some shape)
    (reader : shape.contentReader? = some read) (key : String) (content : Value) (changed : Entity) :
    entity.setCoerced name (.mapping [(.text key, content)]) = .ok changed ↔
      ∃ value, settle read content = some value ∧ changed = entity.withKey name key value := by
  rw [setCoerced, shaped_key]
  dsimp only
  rcases setProperty_key kept field reader key content with ⟨value, first, set⟩ | ⟨error, first, set⟩
  · simp [set, settle, first, eq_comm]
  · have inner := Shape.keptBy_of_decode reader
      (property_of_field kept (EntityKind.writable?_eq_some.mp field).2).2
    have plainly : ∀ entry ∈ Mapping.ofValue (entity.property name), entry.2.asText? = none := by
      rcases Shape.steady_of_contentReader reader with total | steady
      · exact absurd first (total content)
      · exact fun entry member => steady entry.2 (inner entry member).2
    rw [set]
    simp only [fallbacks_key _ plainly, settle, first, Option.none_or]
    cases other : content.asText? with
    | none => simp
    | some line =>
      rcases setProperty_key kept field reader key line with ⟨value, second, set⟩ | ⟨error, second, set⟩
      · simp [set, second, Except.toOption, eq_comm]
      · simp [set, second, Except.toOption]

theorem mapping_of_mem_fallbacks {current candidate : Value} {entries : Mapping}
    (member : candidate ∈ fallbacks current (.mapping entries)) : ∃ others, candidate = .mapping others := by
  rw [fallbacks] at member
  split at member
  · exact ⟨_, List.mem_singleton.mp member⟩
  · simp at member

theorem setCoerced_ne_ok_of_refuses {entity : Entity} (kept : entity.Kept) {name : String} {shape : Shape}
    (field : entity.kind.writable? name = some shape) (refuses : shape.refusesMappings = true) (key : String)
    (content : Value) (changed : Entity) :
    entity.setCoerced name (.mapping [(.text key, content)]) ≠ .ok changed := by
  have never : ∀ entries, ∃ error, entity.setProperty name (.mapping entries) = .error (.coercion error) := by
    intro entries
    have none := Shape.decode_mapping_of_refuses entries shape refuses
    rw [setProperty_eq kept field]
    cases read : shape.decode (.mapping entries) with
    | ok result =>
      rw [read] at none
      cases none
    | error error => exact ⟨error, rfl⟩
  rw [setCoerced, shaped_key]
  dsimp only
  obtain ⟨error, first⟩ := never ((Mapping.ofValue (entity.property name)).insert key content)
  have nothing : ((fallbacks (entity.property name)
      (.mapping ((Mapping.ofValue (entity.property name)).insert key content))).filterMap fun candidate =>
        (entity.setProperty name candidate).toOption) = [] := by
    rw [List.filterMap_eq_nil_iff]
    intro candidate member
    obtain ⟨others, rfl⟩ := mapping_of_mem_fallbacks member
    obtain ⟨error, second⟩ := never others
    rw [second]
    rfl
  rw [first]
  simp [nothing]

end Entity

end DeployRecipe
