import DeployRecipe.Schema.Records

/-!
The kinds of entities. A kind is declared by a block, whose name is also the property of the enclosing
entity that holds the finished block.
-/

namespace DeployRecipe

inductive EntityKind where
  | application
  | service
  | lifecycle
  | network
  | compute
  | isolationSla
  | statelessProcessingUnit
  | statefulProcessingUnit
  | mirrorProcessingUnit
  | dataGrid
  | memcached
  | sla
  | cloud
  | cloudProvider
  | cloudUser
  | cloudConfiguration
  | cloudTemplate
  | userInterface
  | metricGroup
  | widgetGroup
  | balanceGauge
  | barLineChart
  | scalingRule
  | highThreshold
  | lowThreshold
  | serviceStatistics
  | perInstanceStatistics
  | plugin
  | templateInstaller
deriving DecidableEq, Repr, Inhabited

namespace EntityKind

/-- The name of the block. -/
def elementName : EntityKind → String
  | .application => "application"
  | .service => "service"
  | .lifecycle => "lifecycle"
  | .network => "network"
  | .compute => "compute"
  | .isolationSla => "isolationSLA"
  | .statelessProcessingUnit => "statelessProcessingUnit"
  | .statefulProcessingUnit => "statefulProcessingUnit"
  | .mirrorProcessingUnit => "mirrorProcessingUnit"
  | .dataGrid => "dataGrid"
  | .memcached => "memcached"
  | .sla => "sla"
  | .cloud => "cloud"
  | .cloudProvider => "provider"
  | .cloudUser => "user"
  | .cloudConfiguration => "configuration"
  | .cloudTemplate => "template"
  | .userInterface => "userInterface"
  | .metricGroup => "metricGroup"
  | .widgetGroup => "widgetGroup"
  | .balanceGauge => "balanceGauge"
  | .barLineChart => "barLineChart"
  | .scalingRule => "scalingRule"
  | .highThreshold => "highThreshold"
  | .lowThreshold => "lowThreshold"
  | .serviceStatistics => "serviceStatistics"
  | .perInstanceStatistics => "perInstanceStatistics"
  | .plugin => "plugin"
  | .templateInstaller => "installer"

/-- The shape of the entities of a kind, which is always a record. -/
def shape : EntityKind → Shape
  | .application => Schema.application
  | .service => Schema.service
  | .lifecycle => Schema.lifecycle
  | .network => Schema.network
  | .compute => Schema.compute
  | .isolationSla => Schema.isolationSla
  | .statelessProcessingUnit => Schema.processingUnit
  | .statefulProcessingUnit => Schema.processingUnit
  | .mirrorProcessingUnit => Schema.processingUnit
  | .dataGrid => Schema.dataGrid
  | .memcached => Schema.memcached
  | .sla => Schema.sla
  | .cloud => Schema.cloud
  | .cloudProvider => Schema.cloudProvider
  | .cloudUser => Schema.cloudUser
  | .cloudConfiguration => Schema.cloudConfiguration
  | .cloudTemplate => Schema.cloudTemplate
  | .userInterface => Schema.userInterface
  | .metricGroup => Schema.metricGroup
  | .widgetGroup => Schema.widgetGroup
  | .balanceGauge => Schema.balanceGauge
  | .barLineChart => Schema.barLineChart
  | .scalingRule => Schema.scalingRule
  | .highThreshold => Schema.highThreshold
  | .lowThreshold => Schema.lowThreshold
  | .serviceStatistics => Schema.statistics
  | .perInstanceStatistics => Schema.statistics
  | .plugin => Schema.plugin
  | .templateInstaller => Schema.templateInstaller

/-- All kinds. -/
def all : List EntityKind := [
  .application, .service, .lifecycle, .network, .compute, .isolationSla, .statelessProcessingUnit,
  .statefulProcessingUnit, .mirrorProcessingUnit, .dataGrid, .memcached, .sla, .cloud, .cloudProvider,
  .cloudUser, .cloudConfiguration, .cloudTemplate, .userInterface, .metricGroup, .widgetGroup,
  .balanceGauge, .barLineChart, .scalingRule, .highThreshold, .lowThreshold, .serviceStatistics,
  .perInstanceStatistics, .plugin, .templateInstaller]

/-- The kind whose block has a name. -/
def ofName? (name : String) : Option EntityKind :=
  all.find? fun kind => kind.elementName = name

/-- How deep entities of the kind can nest others at most. -/
def height : EntityKind → Nat
  | .application => 4
  | .service => 3
  | .cloud => 2
  | .userInterface => 2
  | .widgetGroup | .scalingRule | .cloudTemplate | .statelessProcessingUnit |
      .statefulProcessingUnit | .mirrorProcessingUnit | .dataGrid | .memcached => 1
  | _ => 0

/-- How a property holds entities. -/
inductive Nesting where
  /-- One entity of the kind, or null. -/
  | one (kind : EntityKind)
  /-- A list or a map of entities of the kind. -/
  | many (kind : EntityKind)
  /-- A list of gauges and charts. -/
  | widgets
deriving DecidableEq, Repr

/-- The properties that hold entities, in order. -/
def nestings : EntityKind → List (String × Nesting)
  | .application => [("services", .many .service)]
  | .service => [
      ("lifecycle", .one .lifecycle), ("network", .one .network), ("compute", .one .compute),
      ("isolationSLA", .one .isolationSla),
      ("statelessProcessingUnit", .one .statelessProcessingUnit),
      ("statefulProcessingUnit", .one .statefulProcessingUnit),
      ("mirrorProcessingUnit", .one .mirrorProcessingUnit), ("dataGrid", .one .dataGrid),
      ("memcached", .one .memcached), ("userInterface", .one .userInterface),
      ("plugins", .many .plugin), ("scalingRules", .many .scalingRule),
      ("serviceStatistics", .many .serviceStatistics),
      ("perInstanceStatistics", .many .perInstanceStatistics)]
  | .userInterface => [("metricGroups", .many .metricGroup), ("widgetGroups", .many .widgetGroup)]
  | .widgetGroup => [("widgets", .widgets)]
  | .scalingRule => [("highThreshold", .one .highThreshold), ("lowThreshold", .one .lowThreshold)]
  | .cloudTemplate => [("installer", .one .templateInstaller)]
  | .statelessProcessingUnit | .statefulProcessingUnit | .mirrorProcessingUnit | .dataGrid |
      .memcached => [("sla", .one .sla)]
  | .cloud => [
      ("provider", .one .cloudProvider), ("user", .one .cloudUser),
      ("configuration", .one .cloudConfiguration), ("templates", .many .cloudTemplate)]
  | _ => []

/-- The height of the kinds of entities that a property holds. -/
def Nesting.height : Nesting → Nat
  | .one kind => kind.height
  | .many kind => kind.height
  | .widgets => 0

theorem height_of_mem_nestings {kind : EntityKind} {name : String} {nesting : Nesting}
    (member : (name, nesting) ∈ kind.nestings) : nesting.height < kind.height := by
  have lower : ∀ slot ∈ kind.nestings, slot.2.height < kind.height := by
    cases kind <;> decide
  exact lower (name, nesting) member

/-- The properties that recipes may not assign. -/
def readOnly : EntityKind → List String
  | .service => ["extendedServicesPaths"]
  | .cloudTemplate => ["absoluteUploadDir"]
  | _ => []

end EntityKind

end DeployRecipe
