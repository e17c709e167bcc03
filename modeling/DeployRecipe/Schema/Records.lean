import DeployRecipe.Schema.Shape

/-!
The records of services, applications and clouds, field by field.
-/

namespace DeployRecipe.Schema

/-- A field of a record: its name, its shape and the value that stands where it is not given. -/
abbrev Field := String × Shape × Value

def field (name : String) (shape : Shape) (absent : Value) : Field :=
  (name, shape, absent)

/-- A field that is null where it is not given. -/
def optional (name : String) (shape : Shape) : Field :=
  field name (.optional shape) .null

def optionalText (name : String) : Field :=
  optional name .text

def text (name absent : String) : Field :=
  field name .text (.text absent)

def bool (name : String) (absent : Bool) : Field :=
  field name .bool (.bool absent)

def unsigned32 (name : String) (absent : Int) : Field :=
  field name (.int .unsigned32) (.int absent)

def signed32 (name : String) (absent : Int) : Field :=
  field name (.int .signed32) (.int absent)

/-- A field with a list that is empty where it is not given. -/
def list (name : String) (item : Shape) : Field :=
  field name (.list item) (.sequence [])

/-- A field with a map that is empty where it is not given. -/
def map (name : String) (content : Shape) : Field :=
  field name (.map content) (.mapping [])

/-- A record that ignores fields it does not know. -/
def record (title : String) (fields : List Field) : Shape :=
  .record title false (.ofList fields)

/-- A field with a record whose own fields have their defaults where it is not given. -/
def inner (name : String) (shape : Shape) : Field :=
  field name shape (Value.ofTable shape.layout.defaults)

/-- A field with a choice. -/
def choice (name : String) (choices : List Choice) (absent : String) : Field :=
  field name (.choice choices) (.text absent)

/-! Parts of services. -/

def lifecycle : Shape :=
  record "ServiceLifecycle" [
    optional "init" .executable,
    optional "preInstall" .executable,
    optional "install" .executable,
    optional "postInstall" .executable,
    optional "preStart" .executable,
    optional "start" .executable,
    optional "postStart" .executable,
    optional "preStop" .executable,
    optional "stop" .executable,
    optional "postStop" .executable,
    optional "shutdown" .executable,
    optional "startDetection" .executable,
    optional "stopDetection" .executable,
    optional "locator" .executable,
    optional "monitors" .executable,
    optional "details" .executable,
    unsigned32 "startDetectionTimeoutSecs" 90,
    unsigned32 "startDetectionIntervalSecs" 1]

def network : Shape :=
  record "ServiceNetwork" [
    optional "port" (.int .signed32),
    optionalText "protocolDescription",
    optionalText "description"]

def compute : Shape :=
  record "ComputeDetails" [optionalText "template"]

def isolationModes : List Choice := [
  ⟨"DEDICATED", ["DEDICATED", "Dedicated", "dedicated"]⟩,
  ⟨"GLOBAL", ["GLOBAL", "Global", "global"]⟩,
  ⟨"APP_SHARED", ["APP_SHARED", "AppShared", "appShared", "app_shared"]⟩,
  ⟨"TENANT_SHARED", ["TENANT_SHARED", "TenantShared", "tenantShared", "tenant_shared"]⟩]

def isolationSla : Shape :=
  record "IsolationSla" [
    choice "mode" isolationModes "DEDICATED",
    field "instanceCpuCores" .double (.float (Double.ofMagnitudeBits false 0)),
    unsigned32 "instanceMemoryMB" 0,
    bool "useManagement" false]

def metricGroup : Shape :=
  record "MetricGroup" [optionalText "name", list "metrics" .any]

def widgetGroup : Shape :=
  record "WidgetGroup" [optionalText "name", optionalText "title", list "widgets" .widget]

def userInterface : Shape :=
  record "UserInterface" [list "metricGroups" metricGroup, list "widgetGroups" widgetGroup]

def balanceGauge : Shape :=
  .record "BalanceGauge" true (.ofList [optionalText "metric"])

def barLineChart : Shape :=
  record "BarLineChart" [optionalText "metric", optionalText "axisYUnit"]

def highThreshold : Shape :=
  record "HighThreshold" [optional "value" .double, unsigned32 "instancesIncrease" 1]

def lowThreshold : Shape :=
  record "LowThreshold" [optional "value" .double, unsigned32 "instancesDecrease" 1]

def scalingRule : Shape :=
  record "ScalingRule" [
    optional "serviceStatistics" .any,
    optional "highThreshold" highThreshold,
    optional "lowThreshold" lowThreshold]

def statistics : Shape :=
  record "Statistics" [
    optionalText "name",
    optionalText "metric",
    text "timeStatistics" "average",
    text "instancesStatistics" "average",
    unsigned32 "movingTimeRangeInSeconds" 300]

def plugin : Shape :=
  record "Plugin" [optionalText "name", optionalText "className", map "config" .any]

def sla : Shape :=
  record "Sla" [
    optional "memoryCapacity" (.int .unsigned32),
    optional "maxMemoryCapacity" (.int .unsigned32),
    optional "memoryCapacityPerContainer" (.int .unsigned32),
    bool "highlyAvailable" false]

def processingUnit : Shape :=
  record "ProcessingUnit" [
    optionalText "binaries",
    optional "sla" sla,
    map "contextProperties" .text]

def dataGrid : Shape :=
  record "DataGrid" [optional "sla" sla]

def memcached : Shape :=
  record "Memcached" [
    optionalText "binaries",
    optional "port" (.int .signed32),
    optional "sla" sla]

/-- The greatest size of a packaged service where none is given: 150 MiB. -/
def defaultMaxJarSize : Int := 150 * 1024 * 1024

def service : Shape :=
  record "Service" [
    optionalText "name",
    optionalText "icon",
    optionalText "type",
    unsigned32 "numInstances" 1,
    unsigned32 "minAllowedInstances" 1,
    unsigned32 "maxAllowedInstances" 1,
    bool "elastic" false,
    optionalText "url",
    signed32 "retries" (-1),
    list "dependsOn" .text,
    optional "lifecycle" lifecycle,
    optional "network" network,
    optional "compute" compute,
    optional "isolationSLA" isolationSla,
    map "customCommands" .executable,
    map "customProperties" .text,
    optional "statelessProcessingUnit" processingUnit,
    optional "statefulProcessingUnit" processingUnit,
    optional "mirrorProcessingUnit" processingUnit,
    optional "dataGrid" dataGrid,
    optional "memcached" memcached,
    optional "userInterface" userInterface,
    list "plugins" plugin,
    field "maxJarSize" (.int .unsigned64) (.int defaultMaxJarSize),
    list "scalingRules" scalingRule,
    list "serviceStatistics" statistics,
    list "perInstanceStatistics" statistics,
    unsigned32 "samplingPeriodInSeconds" 60,
    unsigned32 "scaleInCooldownInSeconds" 0,
    unsigned32 "scaleOutCooldownInSeconds" 0,
    list "extendedServicesPaths" .text]

def application : Shape :=
  record "Application" [optionalText "name", list "services" service]

/-! Parts of clouds. -/

def cloudProvider : Shape :=
  record "CloudProvider" [
    optionalText "provider",
    optionalText "cloudifyUrl",
    optionalText "machineNamePrefix",
    optionalText "managementGroup",
    unsigned32 "numberOfManagementMachines" 0,
    bool "dedicatedManagementMachines" true,
    field "zones" (.list .text) (.sequence [.text "agent"]),
    text "sshLoggingLevel" "INFO",
    unsigned32 "reservedMemoryCapacityPerMachineInMB" 0,
    unsigned32 "reservedMemoryCapacityPerManagementMachineInMB" 0]

def cloudUser : Shape :=
  record "CloudUser" [optionalText "user", optionalText "apiKey", optionalText "keyFile"]

def cloudConfiguration : Shape :=
  record "CloudConfiguration" [
    optionalText "className",
    optionalText "managementMachineTemplate",
    bool "connectToPrivateIp" true,
    bool "bootstrapManagementOnPublicIp" true,
    optionalText "remoteUsername",
    optionalText "remotePassword",
    optionalText "persistentStoragePath"]

def templateInstaller : Shape :=
  record "TemplateInstaller" [
    unsigned32 "connectionTestRouteResolutionTimeoutMillis" 120000,
    unsigned32 "connectionTestIntervalMillis" 5000,
    unsigned32 "connectionTestConnectTimeoutMillis" 10000,
    unsigned32 "fileTransferConnectionTimeoutMillis" 10000,
    unsigned32 "fileTransferRetries" 3,
    signed32 "fileTransferPort" (-1),
    unsigned32 "fileTransferConnectionRetryIntervalMillis" 5000,
    signed32 "remoteExecutionPort" (-1),
    unsigned32 "remoteExecutionConnectionTimeoutMillis" 10000]

def fileTransferModes : List Choice := [
  ⟨"SFTP", ["SFTP", "Sftp", "sftp"]⟩,
  ⟨"SCP", ["SCP", "Scp", "scp"]⟩,
  ⟨"CIFS", ["CIFS", "Cifs", "cifs"]⟩]

def remoteExecutionModes : List Choice := [
  ⟨"SSH", ["SSH", "Ssh", "ssh"]⟩,
  ⟨"WINRM", ["WINRM", "WinRm", "Winrm", "winrm"]⟩]

def cloudTemplate : Shape :=
  record "CloudTemplate" [
    optionalText "imageId",
    optionalText "hardwareId",
    optionalText "locationId",
    unsigned32 "machineMemoryMB" 0,
    unsigned32 "numberOfCores" 1,
    optionalText "localDirectory",
    optionalText "keyFile",
    map "options" .any,
    map "overrides" .any,
    map "custom" .any,
    choice "fileTransfer" fileTransferModes "SCP",
    choice "remoteExecution" remoteExecutionModes "SSH",
    optionalText "username",
    optionalText "password",
    text "remoteDirectory" "upload",
    bool "privileged" false,
    optionalText "initializationCommand",
    optionalText "javaUrl",
    map "env" .text,
    inner "installer" templateInstaller,
    optionalText "absoluteUploadDir"]

def cloud : Shape :=
  record "Cloud" [
    optionalText "name",
    optional "provider" cloudProvider,
    inner "user" cloudUser,
    inner "configuration" cloudConfiguration,
    map "templates" cloudTemplate,
    map "custom" .any]

end DeployRecipe.Schema
