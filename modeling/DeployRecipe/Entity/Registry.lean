import DeployRecipe.Entity.Kind

/-!
How blocks may be declared: as the root of a recipe or inside another block, next to which other blocks,
and whether they may extend a base.
-/

namespace DeployRecipe

/-- A family of blocks of which an entity has at most one. -/
inductive BlockFamily where
  | processingUnit
deriving DecidableEq, Repr

def BlockFamily.name : BlockFamily → String
  | .processingUnit => "processingUnit"

/-- How the blocks of a kind may be declared. -/
structure Descriptor where
  kind : EntityKind
  allowAsRoot : Bool
  allowNested : Bool
  /-- The kind of block that must enclose a nested block, if it is not free. -/
  requiredParent : Option EntityKind
  family : Option BlockFamily
  /-- Whether the block may extend a base. -/
  extensible : Bool
deriving Repr

namespace Descriptor

def elementName (descriptor : Descriptor) : String :=
  descriptor.kind.elementName

/-- A block that only stands inside a block of the given kind. -/
def nestedIn (parent kind : EntityKind) : Descriptor :=
  ⟨kind, false, true, some parent, none, false⟩

/-- A block of a service that excludes the others of its family. -/
def processingUnit (kind : EntityKind) : Descriptor :=
  { nestedIn .service kind with family := some .processingUnit }

/-- Why a block may not be declared in a place. -/
inductive PlacementError where
  | notRoot
  | notNested
  | wrongParent (required actual : EntityKind)
  | secondRoot
deriving DecidableEq, Repr

def PlacementError.message : PlacementError → String
  | .notRoot => "cannot be used as a root element"
  | .notNested => "cannot be nested in another element"
  | .wrongParent required actual =>
    "must be declared inside a '" ++ required.elementName ++ "' block, not '" ++ actual.elementName ++
      "'"
  | .secondRoot => "cannot be declared: the recipe already has a root element"

/-- Checks that the block may be declared inside a parent, or as a root if there is none. -/
def checkPlacement (descriptor : Descriptor) (parent : Option EntityKind) : Except PlacementError Unit :=
  match parent with
  | none => if descriptor.allowAsRoot then .ok () else .error .notRoot
  | some actual =>
    if descriptor.allowNested then
      match descriptor.requiredParent with
      | some required => if required = actual then .ok () else .error (.wrongParent required actual)
      | none => .ok ()
    else .error .notNested

end Descriptor

namespace Registry

open Descriptor

/-- The descriptors of all blocks. -/
def descriptors : List Descriptor := [
  ⟨.application, true, false, none, none, false⟩,
  ⟨.service, true, true, some .application, none, true⟩,
  processingUnit .lifecycle,
  nestedIn .service .network,
  nestedIn .service .compute,
  nestedIn .service .isolationSla,
  processingUnit .statelessProcessingUnit,
  processingUnit .statefulProcessingUnit,
  processingUnit .mirrorProcessingUnit,
  processingUnit .dataGrid,
  processingUnit .memcached,
  ⟨.sla, false, true, none, none, false⟩,
  nestedIn .service .userInterface,
  nestedIn .userInterface .metricGroup,
  nestedIn .userInterface .widgetGroup,
  nestedIn .widgetGroup .balanceGauge,
  nestedIn .widgetGroup .barLineChart,
  nestedIn .service .scalingRule,
  nestedIn .scalingRule .highThreshold,
  nestedIn .scalingRule .lowThreshold,
  nestedIn .service .serviceStatistics,
  nestedIn .service .perInstanceStatistics,
  nestedIn .service .plugin,
  ⟨.cloud, true, false, none, none, false⟩,
  nestedIn .cloud .cloudProvider,
  nestedIn .cloud .cloudUser,
  nestedIn .cloud .cloudConfiguration,
  ⟨.cloudTemplate, true, true, none, none, false⟩,
  ⟨.templateInstaller, true, true, some .cloudTemplate, none, false⟩]

/-- The descriptor of the block with a name. -/
def describe? (name : String) : Option Descriptor :=
  descriptors.find? fun descriptor => descriptor.elementName = name

/-- The members in order of the family with a name. -/
def familyMembers (family : String) : List Descriptor :=
  descriptors.filter fun descriptor => descriptor.family.any fun member => member.name = family

end Registry

end DeployRecipe
