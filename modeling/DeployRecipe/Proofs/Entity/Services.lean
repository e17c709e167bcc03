import DeployRecipe.Proofs.Entity.Apart
import DeployRecipe.Proofs.Entity.Units

/-!
The services of an application. What an application is assigned leaves those that it has, unless the whole list
is assigned, and a service that is assigned comes after them.
-/

namespace DeployRecipe.Entity

section Application

variable {entity changed : Entity} (kept : entity.Kept) (application : entity.kind = .application)
include kept application

/-- The services of an application stay where an assignment does not lead to them. -/
theorem children_of_assigns {name : String} (assigns : entity.Assigns name changed)
    (aside : name ≠ serviceSlot) (beside : name ≠ "services") : changed.children = entity.children := by
  obtain ⟨items, services, _⟩ := property?_services kept application
  have target : entity.kind.target name = name := by simp [EntityKind.target, aside]
  have same := assigns.others "services" (by rw [target]; exact beside.symm)
  rw [children_application application services,
    children_application (assigns.kind.trans application) (same.trans services)]

theorem children_appendService (service : Value) :
    (entity.appendService service).children = entity.children ++ [⟨.service, tableOf service⟩] := by
  obtain ⟨items, services, _⟩ := property?_services kept application
  have now : (entity.appendService service).property? "services" = some (.sequence (items ++ [service])) := by
    rw [appendService_eq services]
    exact Entries.find?_insert_self _ _ _
  have still : (entity.appendService service).kind = .application := application
  rw [children_application application services, children_application still now, List.map_append]
  rfl

/-- A service that an application is assigned comes after those that it has. -/
theorem children_of_setService {service : Entity} (whole : service.Kept) (kind : service.kind = .service)
    (set : entity.setProperty serviceSlot service.toValue = .ok changed) :
    changed.children = entity.children ++ [service] := by
  rcases setProperty_eq_ok kept set with ⟨shape, _, field, _⟩ | ⟨read, _, _, fits, rfl⟩
  · rw [application] at field
    cases field
  · have itself : Schema.service.decode service.toValue = .ok service.toValue :=
      decode_shape_toValue whole kind
    obtain rfl := Except.ok.inj (fits.symm.trans itself)
    have last : (⟨.service, tableOf service.toValue⟩ : Entity) = service := by
      rw [toValue, tableOf_ofTable, ← kind]
    rw [children_appendService kept application, last]

/-- A dotted name that begins in a service gives its value to a new one. -/
theorem children_of_assignPath {next : String} {rest : List String} {value : Value}
    (success : entity.assignPath (serviceSlot :: next :: rest) value = .ok changed) :
    ∃ service, (fresh .service).assignPath (next :: rest) value = .ok service ∧
      changed.children = entity.children ++ [service] := by
  obtain ⟨child, inner, step⟩ := assignPath_inside kept rfl success
  have start := step.start
  rw [opened, property, property?_serviceSlot kept application] at start
  obtain rfl := Except.ok.inj start
  exact ⟨inner, step.assigned, children_of_setService kept application step.innerKept step.innerKind step.set⟩

/-- No dotted name leads into the list. -/
theorem assignPath_services_ne {next : String} {rest : List String} {value : Value} :
    entity.assignPath ("services" :: next :: rest) value ≠ .ok changed := by
  intro success
  obtain ⟨shape, _, _, _, field, reader, _⟩ := assignPath_withKey kept rfl success
  rw [application] at field
  obtain rfl := Option.some.inj (show some (Shape.list Schema.service) = some shape from field)
  cases reader

/-- What an application is assigned leaves the services that it has in their order, unless it is the list. -/
theorem children_sublist_of_setProperty {name : String} {value : Value}
    (set : entity.setProperty name value = .ok changed) (beside : name ≠ "services") :
    entity.children.Sublist changed.children := by
  rcases setProperty_eq_ok kept set with ⟨shape, _, field, _⟩ | ⟨service, _, _, _, rfl⟩
  · have aside : name ≠ serviceSlot := by
      rintro rfl
      rw [application] at field
      cases field
    rw [children_of_assigns kept application (setProperty_assigns kept set) aside beside]
  · rw [children_appendService kept application]
    exact List.sublist_append_left _ _

/-- The only block that an application takes is that of a service. -/
theorem kind_of_setApplication {kind : EntityKind} {value : Value}
    (set : entity.setProperty kind.elementName value = .ok changed) : kind = .service := by
  rcases setProperty_eq_ok kept set with ⟨shape, _, field, _⟩ | ⟨_, _, slot, _⟩
  · rw [application] at field
    cases kind <;> cases field
  · cases kind <;> first | rfl | exact absurd slot (by decide)

end Application

end DeployRecipe.Entity
