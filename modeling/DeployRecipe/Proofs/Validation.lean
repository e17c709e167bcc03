import DeployRecipe.Validation.Basic
import DeployRecipe.Proofs.Entity.Inner

/-!
Validation makes the checks of every entity in a tree, each entity before those inside it, and reports the first
one that fails. So a tree is accepted exactly if every entity in it passes the checks of its kind.
-/

namespace DeployRecipe.Validation

/-! Loops that stop at the first failure. -/

section Loops

variable {α β ε : Type}

theorem forM_flatMap (items : List α) (inside : α → List β) (action : β → Except ε Unit) :
    forM (items.flatMap inside) action = forM items fun item => forM (inside item) action := by
  induction items with
  | nil => rfl
  | cons item rest inductionHypothesis =>
    rw [List.flatMap_cons, List.forM_append, inductionHypothesis, List.forM_cons]

theorem forM_congr {items : List α} {one other : α → Except ε Unit} (same : ∀ item ∈ items, one item = other item) :
    forM items one = forM items other := by
  induction items with
  | nil => rfl
  | cons item rest inductionHypothesis =>
    rw [List.forM_cons, List.forM_cons, same item List.mem_cons_self,
      inductionHypothesis fun item member => same item (List.mem_cons_of_mem _ member)]

theorem forM_eq_ok_iff {items : List α} {action : α → Except ε Unit} :
    forM items action = .ok () ↔ ∀ item ∈ items, action item = .ok () := by
  induction items with
  | nil => simp [pure, Except.pure]
  | cons item rest inductionHypothesis =>
    rw [List.forM_cons, Running.attempt_eq_ok, List.forall_mem_cons, ← inductionHypothesis]
    exact ⟨fun ⟨_, first, others⟩ => ⟨first, others⟩, fun ⟨first, others⟩ => ⟨_, first, others⟩⟩

/-- A loop fails as the first item does that fails. -/
theorem forM_eq_error_iff {items : List α} {action : α → Except ε Unit} {error : ε} :
    forM items action = .error error ↔ ∃ before item after, items = before ++ item :: after ∧
      (∀ earlier ∈ before, action earlier = .ok ()) ∧ action item = .error error := by
  constructor
  · intro failed
    induction items with
    | nil => cases failed
    | cons item rest inductionHypothesis =>
      rw [List.forM_cons] at failed
      cases first : action item with
      | error fault =>
        rw [first] at failed
        obtain rfl := Except.error.inj failed
        exact ⟨[], item, rest, rfl, by simp, first⟩
      | ok done =>
        rw [first] at failed
        obtain ⟨before, later, after, rfl, passed, last⟩ := inductionHypothesis failed
        exact ⟨item :: before, later, after, rfl, List.forall_mem_cons.mpr ⟨first, passed⟩, last⟩
  · rintro ⟨before, item, after, rfl, passed, last⟩
    rw [List.forM_append, forM_eq_ok_iff.mpr passed, List.forM_cons]
    rw [last]
    rfl

end Loops

/-- A check that is made of an entity. -/
structure Hook where
  entity : Entity
  check : Check

/-- The outcome of a check, reported for the kind of the entity. -/
def Hook.run (context : ValidationContext) (hook : Hook) : Except ErrorKind Unit :=
  match hook.check context hook.entity with
  | .ok () => .ok ()
  | .error fault => .error (.validationFailure hook.entity.kind fault)

/-- The checks of an entity in order, without those of the entities inside it. -/
def hooksOf (entity : Entity) : List Hook :=
  (checks entity.kind).map (⟨entity, ·⟩)

/-- The checks of everything that an entity contains, in the order in which they are made. -/
def hooks (root : Entity) : List Hook :=
  root.preorder.flatMap hooksOf

theorem checkOne_eq (context : ValidationContext) (entity : Entity) :
    checkOne context entity = forM (hooksOf entity) (Hook.run context) := by
  rw [checkOne, hooksOf, List.forM_map]
  rfl

theorem validate_eq (context : ValidationContext) (entity : Entity) :
    validate context entity = (checkOne context entity >>= fun _ => forM entity.children (validate context)) := by
  rw [validate]
  conv_rhs => rw [← List.attach_map_subtype_val entity.children, List.forM_map]
  rfl

/-- Validation makes the checks one after the other. -/
theorem validate_eq_hooks (context : ValidationContext) {root : Entity} (kept : root.Kept) :
    validate context root = forM (hooks root) (Hook.run context) := by
  rw [validate_eq, hooks, Entity.preorder_eq, List.flatMap_cons, List.forM_append, ← checkOne_eq,
    List.flatMap_assoc, forM_flatMap, Entity.children_eq_inner kept]
  congr 1
  funext _
  exact forM_congr fun child member => validate_eq_hooks context (Entity.kept_of_mem_inner kept member)
termination_by root.kind.height
decreasing_by exact Entity.height_of_mem_inner member

/-- The entity satisfies the checks of its kind. -/
def Passes (context : ValidationContext) (entity : Entity) : Prop :=
  ∀ check ∈ checks entity.kind, check context entity = .ok ()

theorem Hook.run_eq_ok_iff {context : ValidationContext} {hook : Hook} :
    hook.run context = .ok () ↔ hook.check context hook.entity = .ok () := by
  rw [run]
  cases hook.check context hook.entity <;> simp

theorem Hook.run_eq_error_iff {context : ValidationContext} {hook : Hook} {failure : ErrorKind} :
    hook.run context = .error failure ↔ ∃ fault, hook.check context hook.entity = .error fault ∧
      failure = .validationFailure hook.entity.kind fault := by
  rw [run]
  cases hook.check context hook.entity <;> simp [eq_comm]

theorem passes_iff_hooksOf {context : ValidationContext} {entity : Entity} :
    Passes context entity ↔ ∀ hook ∈ hooksOf entity, hook.run context = .ok () := by
  simp [Passes, hooksOf, Hook.run_eq_ok_iff]

/-! What the checks say about an entity. -/

theorem require_eq_ok_iff {condition : Bool} {fault : ValidationFault} :
    require condition fault = .ok () ↔ condition = true := by
  cases condition <;> simp [require]

theorem require_bind_eq_ok_iff {condition : Bool} {fault : ValidationFault} {next : Except ValidationFault Unit} :
    (require condition fault >>= fun _ => next) = .ok () ↔ condition = true ∧ next = .ok () := by
  rw [Running.attempt_eq_ok, ← require_eq_ok_iff]
  exact ⟨fun ⟨_, holds, more⟩ => ⟨holds, more⟩, fun ⟨holds, more⟩ => ⟨_, holds, more⟩⟩

theorem textOf?_eq_some_iff {value : Value} {text : String} : textOf? value = some text ↔ value = .text text := by
  cases value <;> simp [textOf?]

/-- A scaling rule sets its statistics. If it names them, then they are declared. -/
def RuleDeclared (statistics : List Value) (rule : Value) : Prop :=
  part rule "serviceStatistics" ≠ .null ∧
    ∀ name, part rule "serviceStatistics" = .text name → ∃ entry ∈ statistics, part entry "name" = .text name

theorem scalingRule_eq_ok_iff {statistics : List Value} {rule : Value} :
    scalingRule statistics rule = .ok () ↔ RuleDeclared statistics rule := by
  rw [scalingRule, RuleDeclared]
  split
  · rename_i absent
    simp [absent]
  · rename_i name named
    simp [named, require_eq_ok_iff, textOf?_eq_some_iff]
  · rename_i present other
    simp only [true_iff]
    exact ⟨present, fun name named => absurd named (other name)⟩

/-- A service that can be deployed. -/
structure SoundService (service : Entity) : Prop where
  name : ∃ name, service.property "name" = .text name ∧ isBlank name = false
  instances : ∃ least count most : Int, service.property "minAllowedInstances" = .int least ∧
    service.property "numInstances" = .int count ∧ service.property "maxAllowedInstances" = .int most ∧
    1 ≤ least ∧ least ≤ count ∧ count ≤ most
  retries : ∃ retries : Int, service.property "retries" = .int retries ∧ -1 ≤ retries
  scalingRules : ∃ rules statistics, service.property "scalingRules" = .sequence rules ∧
    service.property "serviceStatistics" = .sequence statistics ∧ ∀ rule ∈ rules, RuleDeclared statistics rule

/-- A lifecycle that is watched for some time, and from time to time. -/
def SoundLifecycle (lifecycle : Entity) : Prop :=
  ∃ timeout interval : Int, lifecycle.property "startDetectionTimeoutSecs" = .int timeout ∧
    lifecycle.property "startDetectionIntervalSecs" = .int interval ∧ 0 < timeout ∧ 0 < interval

/-- A network with a port that exists, if it has a port. -/
def SoundNetwork (network : Entity) : Prop :=
  network.property "port" = .null ∨
    ∃ port : Int, network.property "port" = .int port ∧ 1 ≤ port ∧ port ≤ 65535

/-- A cloud whose management machines have a template of the cloud. -/
def SoundCloud (cloud : Entity) : Prop :=
  ∃ name templates, part (cloud.property "configuration") "managementMachineTemplate" = .text name ∧
    isBlank name = false ∧ cloud.property "templates" = .mapping templates ∧
    ∃ template, (.text name, template) ∈ templates

theorem int_of_decode {range : IntRange} {value : Value} (kept : (Shape.int range).decode value = .ok value) :
    ∃ number, value = .int number ∧ range.least ≤ number ∧ number ≤ range.greatest := by
  rw [Shape.decode] at kept
  split at kept
  · split at kept
    · rename_i number _ inside
      obtain rfl := Except.ok.inj kept
      exact ⟨number, rfl, by simpa [IntRange.contains] using inside⟩
    · cases kept
  · cases kept

theorem mem_tableOf {value : Value} {name : String} {content : Value}
    (member : (name, content) ∈ Entity.tableOf value) :
    ∃ entries, value = .mapping entries ∧ (.text name, content) ∈ entries := by
  cases value with
  | mapping entries =>
    rw [Entity.tableOf, List.mem_filterMap] at member
    obtain ⟨⟨key, found⟩, there, same⟩ := member
    refine ⟨entries, rfl, ?_⟩
    split at same
    · rename_i other value equal
      obtain ⟨rfl, rfl⟩ := Prod.mk.inj equal
      obtain ⟨rfl, rfl⟩ := Prod.mk.inj (Option.some.inj same)
      exact there
    · cases same
  | _ => cases member

section Sound

variable {context : ValidationContext} {entity : Entity} (kept : entity.Kept)
include kept

theorem int_property (name : String) {range : IntRange} (field : entity.kind.field? name = some (.int range)) :
    ∃ number, entity.property name = .int number ∧ range.least ≤ number ∧ number ≤ range.greatest :=
  int_of_decode (Entity.property_of_field kept field).2

theorem list_property (name : String) {item : Shape} (field : entity.kind.field? name = some (.list item)) :
    ∃ items, entity.property name = .sequence items := by
  obtain ⟨items, same, -⟩ := Shape.decode_list_eq_self (Entity.property_of_field kept field).2
  exact ⟨items, same⟩

theorem soundService_of_passes (service : entity.kind = .service) (passes : Passes context entity) :
    SoundService entity := by
  rw [Passes, service] at passes
  simp only [checks, List.forall_mem_cons] at passes
  obtain ⟨name, instances, -, retries, -, -, rules, -⟩ := passes
  obtain ⟨least, least_eq, least_bound, -⟩ := int_property kept "minAllowedInstances" (by rw [service]; rfl)
  obtain ⟨count, count_eq, -⟩ := int_property kept "numInstances" (by rw [service]; rfl)
  obtain ⟨most, most_eq, -⟩ := int_property kept "maxAllowedInstances" (by rw [service]; rfl)
  obtain ⟨tries, tries_eq, -⟩ := int_property kept "retries" (by rw [service]; rfl)
  obtain ⟨items, items_eq⟩ := list_property kept "scalingRules" (by rw [service]; rfl)
  obtain ⟨statistics, statistics_eq⟩ := list_property kept "serviceStatistics" (by rw [service]; rfl)
  refine ⟨?_, ⟨least, count, most, least_eq, count_eq, most_eq, ?_⟩, ⟨tries, tries_eq, ?_⟩,
    items, statistics, items_eq, statistics_eq, ?_⟩
  · rw [serviceName] at name
    split at name
    · cases name
    · rename_i text named
      exact ⟨text, textOf?_eq_some_iff.mp named, by simpa [require_eq_ok_iff] using name⟩
  · simp only [serviceInstances, least_eq, count_eq, most_eq, intOf, require_bind_eq_ok_iff, require_eq_ok_iff,
      decide_eq_true_eq] at instances
    simp only [IntRange.unsigned32] at least_bound
    omega
  · simpa [serviceRetries, tries_eq, intOf, require_eq_ok_iff] using retries
  · rw [serviceScalingRules, items_eq, statistics_eq] at rules
    exact fun rule member => scalingRule_eq_ok_iff.mp (forM_eq_ok_iff.mp rules rule member)

theorem soundLifecycle_of_passes (lifecycle : entity.kind = .lifecycle) (passes : Passes context entity) :
    SoundLifecycle entity := by
  rw [Passes, lifecycle] at passes
  have detection := passes lifecycleDetection List.mem_cons_self
  obtain ⟨timeout, timeout_eq, timeout_bound, -⟩ :=
    int_property kept "startDetectionTimeoutSecs" (by rw [lifecycle]; rfl)
  obtain ⟨interval, interval_eq, interval_bound, -⟩ :=
    int_property kept "startDetectionIntervalSecs" (by rw [lifecycle]; rfl)
  simp only [lifecycleDetection, timeout_eq, interval_eq, intOf, require_bind_eq_ok_iff, require_eq_ok_iff,
    decide_eq_true_eq] at detection
  simp only [IntRange.unsigned32] at timeout_bound interval_bound
  exact ⟨timeout, interval, timeout_eq, interval_eq, by omega, by omega⟩

theorem soundNetwork_of_passes (network : entity.kind = .network) (passes : Passes context entity) :
    SoundNetwork entity := by
  rw [Passes, network] at passes
  have port := passes networkPort List.mem_cons_self
  have field : entity.kind.field? "port" = some (.optional (.int .signed32)) := by
    rw [network]
    rfl
  rcases Shape.decode_optional_eq_ok (Entity.property_of_field kept field).2 with ⟨absent, -⟩ | given
  · exact Or.inl absent
  · obtain ⟨number, number_eq, -⟩ := int_of_decode given
    rw [networkPort, number_eq] at port
    exact Or.inr ⟨number, number_eq, by simpa [require_eq_ok_iff] using port⟩

omit kept in
theorem soundCloud_of_passes (cloud : entity.kind = .cloud) (passes : Passes context entity) :
    SoundCloud entity := by
  rw [Passes, cloud] at passes
  have template := passes cloudManagementTemplate List.mem_cons_self
  simp only [cloudManagementTemplate, require_bind_eq_ok_iff, require_eq_ok_iff] at template
  obtain ⟨named, listed⟩ := template
  cases text : textOf? (part (entity.property "configuration") "managementMachineTemplate") with
  | none => simp [text, isBlank, Text.isBlankText] at named
  | some name =>
    rw [text, Option.getD_some] at named listed
    obtain ⟨template, found⟩ := Option.isSome_iff_exists.mp listed
    obtain ⟨templates, mapping, member⟩ := mem_tableOf (Entries.mem_of_find? found)
    exact ⟨name, templates, textOf?_eq_some_iff.mp text, by simpa using named, mapping, template, member⟩

end Sound

/-- What a sound entity of each kind is. -/
def Sound (entity : Entity) : Prop :=
  match entity.kind with
  | .service => SoundService entity
  | .lifecycle => SoundLifecycle entity
  | .network => SoundNetwork entity
  | .cloud => SoundCloud entity
  | _ => True

theorem sound_of_passes {context : ValidationContext} {entity : Entity} (kept : entity.Kept)
    (passes : Passes context entity) : Sound entity := by
  unfold Sound
  split
  · rename_i service
    exact soundService_of_passes kept service passes
  · rename_i lifecycle
    exact soundLifecycle_of_passes kept lifecycle passes
  · rename_i network
    exact soundNetwork_of_passes kept network passes
  · rename_i cloud
    exact soundCloud_of_passes cloud passes
  · trivial

/-- The failure is that of the first of some checks that does not pass. -/
def FirstFailure (context : ValidationContext) (made : List Hook) (failure : ErrorKind) : Prop :=
  ∃ before hook after fault, made = before ++ hook :: after ∧
    (∀ earlier ∈ before, earlier.check context earlier.entity = .ok ()) ∧
    hook.check context hook.entity = .error fault ∧ failure = .validationFailure hook.entity.kind fault

/-- A network with a port that does not exist. -/
def farPort : Entity :=
  ⟨.network, (Entity.fresh .network).properties.insert "port" (.int 70000)⟩

/-- A service with that network. -/
def farService : Entity :=
  ⟨.service, ((Entity.fresh .service).properties.insert "name" (.text "s")).insert "network" farPort.toValue⟩

/-- An application with that service. -/
def farApplication : Entity :=
  ⟨.application, (Entity.fresh .application).properties.insert "services" (.sequence [farService.toValue])⟩

/-- A recipe with no other file. -/
def bareContext : ValidationContext :=
  ⟨⟨[], []⟩, ⟨"/w/a-application.recipe"⟩⟩

end DeployRecipe.Validation
