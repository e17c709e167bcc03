import DeployRecipe.Proofs.Compilation.Steps
import DeployRecipe.Proofs.Entity.Slots
import DeployRecipe.Proofs.Entity.UsedNames

/-!
The assignments that are made while a block is open, by its own declarations, by those of fragments that are
loaded in place, and by those of blocks inside it. Each one has a path from the open block.
-/

namespace DeployRecipe

/-- An assignment to a name, in blocks inside the open one. -/
structure Assigned where
  /-- The names of the blocks, the outermost first. -/
  blocks : List String
  /-- The name, possibly dotted. -/
  name : String
deriving DecidableEq, Repr

namespace Assigned

/-- The name as it would be written in the open block. -/
def path (assigned : Assigned) : String :=
  assigned.blocks.foldr DottedName.within assigned.name

/-- The same assignment, seen from outside the open block. -/
def inside (head : String) (assigned : Assigned) : Assigned :=
  { assigned with blocks := head :: assigned.blocks }

/-- What the open block itself gives a value to: the name, or the outermost block. -/
def first (assigned : Assigned) : String :=
  assigned.blocks.headD assigned.name

/-- A dotted name goes into a block, and later that block is opened. -/
def Refills (earlier later : Assigned) : Prop :=
  ∃ head rest, later.blocks = earlier.blocks ++ head :: rest ∧ DottedName.isWithin earlier.name head = true

/-- The assignment is made in a service of an application. -/
def InService (kind : EntityKind) (assigned : Assigned) : Prop :=
  kind = .application ∧ assigned.blocks.head? = some Entity.serviceSlot

/-- Two assignments in a block of a kind, one after the other, have paths of which none leads through the
other. Only a block may go over what a dotted name assigned in it before, and an application takes any
number of services. -/
def Lawful (kind : EntityKind) (earlier later : Assigned) : Prop :=
  DottedName.Overlaps earlier.path later.path → Refills earlier later ∨ InService kind later

/-- A block with some names used has no value for what is assigned. -/
def New (kind : EntityKind) (used : UsedNames) (assigned : Assigned) : Prop :=
  match assigned.blocks with
  | [] => used.covers assigned.name = false
  | head :: _ => DottedName.isDotted head = false ∧ (InService kind assigned ∨ head ∉ used)

theorem path_inside (head : String) (assigned : Assigned) :
    (assigned.inside head).path = DottedName.within head assigned.path := rfl

theorem New.mono {kind : EntityKind} {used more : UsedNames} {assigned : Assigned}
    (new : assigned.New kind more) (subset : used ⊆ more) : assigned.New kind used := by
  obtain ⟨blocks, name⟩ := assigned
  cases blocks with
  | nil =>
    rw [New, UsedNames.covers_eq_false_iff] at new ⊢
    exact fun other member => new other (subset member)
  | cons head rest => exact ⟨new.1, new.2.imp id fun fresh member => fresh (subset member)⟩

/-- What is new in a block is lawful after what the block used its names for. -/
theorem lawful_of_new {kind : EntityKind} {before used : UsedNames} {earlier later : Assigned}
    (was : earlier.New kind before) (noted : earlier.first ∈ used) (new : later.New kind used) :
    Lawful kind earlier later := by
  intro overlaps
  obtain ⟨blocks, name⟩ := earlier
  obtain ⟨others, last⟩ := later
  cases others with
  | nil =>
    have free := UsedNames.covers_eq_false_iff.mp new
    cases blocks with
    | nil => exact absurd overlaps (free name noted)
    | cons head rest =>
      have around := (DottedName.overlaps_comm.mp overlaps).around (DottedName.isWithin_within _ _)
      exact absurd (DottedName.overlaps_comm.mp around) (free head noted)
  | cons other more =>
    obtain ⟨plain, service | fresh⟩ := new
    · exact Or.inr service
    · have around := overlaps.around (DottedName.isWithin_within _ _)
      cases blocks with
      | nil =>
        rcases around with rfl | inside | outside
        · exact absurd noted fresh
        · exact Or.inl ⟨other, more, rfl, inside⟩
        · rw [DottedName.isWithin_of_not_dotted plain] at outside
          cases outside
      | cons head rest =>
        have beside := (DottedName.overlaps_comm.mp around).around (DottedName.isWithin_within _ _)
        have same := (DottedName.overlaps_comm.mp beside).head_eq plain
        rw [DottedName.head_of_not_dotted was.1] at same
        exact absurd (same ▸ noted) fresh

/-- What is lawful in a block is lawful around it. -/
theorem Lawful.inside {inner : EntityKind} (other : inner ≠ .application) {earlier later : Assigned}
    (lawful : Lawful inner earlier later) (kind : EntityKind) (head : String) :
    Lawful kind (earlier.inside head) (later.inside head) := by
  intro overlaps
  rw [path_inside, path_inside, DottedName.overlaps_within] at overlaps
  rcases lawful overlaps with ⟨block, rest, same, dotted⟩ | ⟨application, _⟩
  · exact Or.inl ⟨block, rest, congrArg (head :: ·) same, dotted⟩
  · exact absurd application other

end Assigned

namespace Evaluation

/-- The content with which a block starts. -/
def contentOf (state : Evaluation) (descriptor : Descriptor) (attached : Bool) : Except ErrorKind Entity :=
  if attached then
    match state.scopes with
    | [] => .ok (.fresh descriptor.kind)
    | parent :: _ => inheritedContent parent descriptor
  else .ok (.fresh descriptor.kind)

/-- The state in which the body of a block is evaluated. It does not matter here whether another block of
its family was declared before. -/
def insideBlock? (state : Evaluation) (name : String) (attached : Bool) : Option Evaluation :=
  match Registry.describe? name with
  | none => none
  | some descriptor =>
    match checkPlace state descriptor attached, state.contentOf descriptor attached with
    | .ok _, .ok start =>
      let noted := state.noting descriptor attached
      some { noted with scopes := .opening start :: noted.scopes }
    | _, _ => none

mutual

/-- The assignments of a declaration in an open block. -/
def assignedStatement (depth : Nat) (inner : RecipeContext → List Declaration → Evaluation → List Assigned)
    (context : RecipeContext) : Declaration → Evaluation → List Assigned
  | .mk name line body, state => assignedBody depth inner context name line body state

def assignedBody (depth : Nat) (inner : RecipeContext → List Declaration → Evaluation → List Assigned)
    (context : RecipeContext) (name : String) (line : Nat) : Body → Evaluation → List Assigned
  | .block declarations, state =>
    match state.insideBlock? name true with
    | none => []
    | some inside =>
      -- Only a block that is evaluated to its end is put into the open one.
      match evaluateStatements (Deeper.upTo depth) context declarations inside with
      | .ok _ _ => (assignedStatements depth inner context declarations inside).map (Assigned.inside name)
      | .error _ _ => []
  | .arguments expressions, state =>
    if name = extendWord then []
    else if name = loadWord then
      match openFragment (Deeper.upTo depth) context line expressions state with
      | .ok declarations inside => inner context declarations inside
      | .error _ _ => []
    else
      match evaluateItems (Deeper.upTo depth) context line expressions state with
      | .ok values _ => if values.length ≤ 1 then [⟨[], name⟩] else []
      | .error _ _ => []
  | .assignment expression, state =>
    match evaluate (Deeper.upTo depth) context line expression state with
    | .ok _ _ => [⟨[], name⟩]
    | .error _ _ => []

def assignedStatements (depth : Nat) (inner : RecipeContext → List Declaration → Evaluation → List Assigned)
    (context : RecipeContext) : List Declaration → Evaluation → List Assigned
  | [], _ => []
  | first :: rest, state =>
    let here := assignedStatement depth inner context first state
    match evaluateStatement (Deeper.upTo depth) context first state with
    | .ok _ after => here ++ assignedStatements depth inner context rest after
    | .error _ _ => here

end

/-- The assignments of declarations in an open block, in order, up to and with the first one that fails. -/
def assigned : Nat → RecipeContext → List Declaration → Evaluation → List Assigned
  | 0 => assignedStatements 0 fun _ _ _ => []
  | depth + 1 => assignedStatements (depth + 1) (assigned depth)

/-- The assignments that are made while a block is open. -/
def assignedInBlock (depth : Nat) (context : RecipeContext) (name : String) (attached : Bool)
    (declarations : List Declaration) (state : Evaluation) : List Assigned :=
  match state.insideBlock? name attached with
  | some inside => assigned depth context declarations inside
  | none => []

end Evaluation

end DeployRecipe
