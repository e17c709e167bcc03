import DeployRecipe.Error
import DeployRecipe.Entity.Basic
import DeployRecipe.Text.Blank

/-!
Validation of finished entities. Each kind has its checks; an entity is valid if the checks of its kind
and of every entity inside it pass, and the first check that fails is reported.
-/

namespace DeployRecipe

/-- What checks may look at besides the entity. -/
structure ValidationContext where
  files : FileTree
  recipeFile : Path

/-- The directory of the recipe. -/
def ValidationContext.recipeDirectory (context : ValidationContext) : Path :=
  context.recipeFile.parent?.getD ⟨"."⟩

namespace Validation

/-- A check of one entity, without those inside it. -/
abbrev Check := ValidationContext → Entity → Except ValidationFault Unit

/-- Fails with a fault unless a condition holds. -/
def require (condition : Bool) (fault : ValidationFault) : Except ValidationFault Unit :=
  if condition then .ok () else .error fault

def textOf? : Value → Option String
  | .text text => some text
  | _ => none

def intOf : Value → Int
  | .int number => number
  | _ => 0

def itemsOf : Value → List Value
  | .sequence items => items
  | _ => []

/-- A property of a record that stands as a value. -/
def part (value : Value) (name : String) : Value :=
  ((Entity.tableOf value).find? name).getD .null

def isBlank (text : String) : Bool :=
  Text.isBlankText text.toList

/-- The texts are equal if the case of ASCII letters does not count. -/
def sameLetters (left right : String) : Bool :=
  left.toList.map Char.toLower = right.toList.map Char.toLower

/-- The text is a whole number of 64 bits in decimal, with or without a sign. -/
def isInteger (text : List Char) : Bool :=
  let (negative, digits) :=
    match text with
    | '-' :: rest => (true, rest)
    | '+' :: rest => (false, rest)
    | _ => (false, text)
  let size : Int := digits.foldl (fun value digit => 10 * value + (digit.toNat - '0'.toNat)) 0
  !digits.isEmpty && digits.all Char.isDigit &&
    decide (if negative then size ≤ Nat.pow 2 63 else size < Nat.pow 2 63)

/-! Checks of services. -/

def serviceName : Check := fun _ service =>
  match textOf? (service.property "name") with
  | none => .error .nameMissing
  | some name => require (!isBlank name) .nameEmpty

def serviceInstances : Check := fun _ service => do
  let minimum := intOf (service.property "minAllowedInstances")
  let maximum := intOf (service.property "maxAllowedInstances")
  let count := intOf (service.property "numInstances")
  require (minimum ≠ 0) (.minimumBelowOne minimum)
  require (minimum ≤ maximum) (.maximumBelowMinimum maximum minimum)
  require (minimum ≤ count) (.fewerThanMinimum count minimum)
  require (count ≤ maximum) (.moreThanMaximum count maximum)

def serviceTier : Check := fun _ service =>
  match textOf? (service.property "type") with
  | some tier => require (ValidationFault.tiers.any (sameLetters tier)) (.unknownTier tier)
  | none => .ok ()

def serviceRetries : Check := fun _ service =>
  require (-1 ≤ intOf (service.property "retries")) .retriesBelowMinusOne

def serviceCacheTimeout : Check := fun _ service =>
  match textOf? (part (service.property "customProperties") ValidationFault.cacheTimeoutProperty) with
  | some found => require (isInteger (Text.trim found.toList)) (.cacheTimeoutNotInteger found)
  | none => .ok ()

/-- The suffix of the files of service recipes. -/
def serviceSuffix : String := "-service.recipe"

/-- The first of some directories, tried in order, in which a file stands; else the last place that was
tried. -/
def findIn (files : FileTree) (name : Path) (tried : Path) : List Path → Except Path Unit
  | [] => .error tried
  | directory :: rest =>
    if files.isFile (directory.join name) then .ok ()
    else findIn files name (directory.join name) rest

/-- The icon stands next to the recipe or to one of those that it extends. This is checked only for the
recipe of a service. -/
def serviceIcon : Check := fun context service =>
  match textOf? (service.property "icon") with
  | none => .ok ()
  | some icon =>
    let file := Text.trim context.recipeFile.text.toList
    if serviceSuffix.toList.isSuffixOf file then
      let bases := (itemsOf (service.property "extendedServicesPaths")).filterMap textOf?
      let directories := bases.map fun base =>
        if context.files.isFile ⟨base⟩ then (Path.mk base).parent?.getD ⟨base⟩ else ⟨base⟩
      match findIn context.files ⟨icon⟩ ⟨icon⟩ (context.recipeDirectory :: directories) with
      | .ok () => .ok ()
      | .error tried => .error (.iconMissing tried)
    else .ok ()

/-- A scaling rule that names its statistics names declared ones. -/
def scalingRule (statistics : List Value) (rule : Value) : Except ValidationFault Unit :=
  match part rule "serviceStatistics" with
  | .null => .error .ruleWithoutStatistics
  | .text name =>
    require (statistics.any fun entry => textOf? (part entry "name") = some name)
      (.undeclaredStatistics name)
  | _ => .ok ()

def serviceScalingRules : Check := fun _ service =>
  (itemsOf (service.property "scalingRules")).forM
    (scalingRule (itemsOf (service.property "serviceStatistics")))

/-! Checks of parts of services. -/

def lifecycleDetection : Check := fun _ lifecycle => do
  require (intOf (lifecycle.property "startDetectionTimeoutSecs") ≠ 0) .detectionTimeoutNotPositive
  require (intOf (lifecycle.property "startDetectionIntervalSecs") ≠ 0) .detectionIntervalNotPositive

def networkPort : Check := fun _ network =>
  match network.property "port" with
  | .int port => require (1 ≤ port ∧ port ≤ 65535) (.portOutOfRange port)
  | _ => .ok ()

/-- A metric is a name, or a list of a name and a known unit. -/
def metric (group : String) : Value → Except ValidationFault Unit
  | .text _ => .ok ()
  | .sequence [.text _, unit] =>
    let known :=
      match unit with
      | .text name => ValidationFault.metricUnits.any (sameLetters name)
      | _ => false
    require known (.unknownUnit group unit)
  | .sequence _ => .error (.metricNotPair group)
  | found => .error (.metricNotNamed group found)

def userInterfaceMetrics : Check := fun _ userInterface =>
  (itemsOf (userInterface.property "metricGroups")).forM fun group =>
    let name := (textOf? (part group "name")).getD "<unnamed>"
    (itemsOf (part group "metrics")).forM (metric name)

/-! Checks of clouds and their parts. -/

def cloudManagementTemplate : Check := fun _ cloud =>
  let name := (textOf? (part (cloud.property "configuration") "managementMachineTemplate")).getD ""
  do
    require (!isBlank name) .managementTemplateEmpty
    require ((Entity.tableOf (cloud.property "templates")).has name) (.managementTemplateUnlisted name)

/-- A key file that is set, and not to blanks. -/
def keyFile? (value : Value) : Option Path :=
  ((textOf? value).filter fun name => !isBlank name).map Path.mk

def cloudUserKeyFile : Check := fun context cloud =>
  match keyFile? (part (cloud.property "user") "keyFile") with
  | some name =>
    let path := context.recipeDirectory.join name
    require (context.files.isFile path) (.keyFileMissing path)
  | none => .ok ()

def providerSettings : Check := fun _ provider => do
  require (!isBlank ((textOf? (provider.property "provider")).getD "")) .providerEmpty
  match textOf? (provider.property "cloudifyUrl") with
  | some url =>
    if url ≠ "" then
      match Url.check url with
      | .ok () => pure ()
      | .error error => throw (.invalidUrl url error)
  | none => pure ()
  let machines := intOf (provider.property "numberOfManagementMachines")
  require (1 ≤ machines ∧ machines ≤ 2) (.managementMachinesOutOfRange machines)
  let level := (textOf? (provider.property "sshLoggingLevel")).getD ""
  require (ValidationFault.loggingLevels.contains level) (.unknownLoggingLevel level)

def templateDefaults : Check := fun _ template => do
  require (!isBlank ((textOf? (template.property "remoteDirectory")).getD "")) .remoteDirectoryMissing
  require (!isBlank ((textOf? (template.property "localDirectory")).getD "")) .localDirectoryMissing
  require (textOf? (template.property "keyFile") ≠ some ValidationFault.keyFileName)
    .keyFilePlaceholder

/-- The upload directory stands next to the recipe, and the key file stands in it. -/
def templateUploadDirectory : Check := fun context template =>
  match textOf? (template.property "localDirectory") with
  | none => .ok ()
  | some directory => do
    require (!(Path.mk directory).isAbsolute) .uploadDirectoryAbsolute
    let upload := context.recipeDirectory.join ⟨directory⟩
    require (context.files.has upload) (.uploadDirectoryMissing upload)
    require (context.files.isDirectory upload) (.uploadDirectoryNotDirectory upload)
    match keyFile? (template.property "keyFile") with
    | some name =>
      let path := upload.join name
      require (context.files.isFile path) (.keyFileMissing path)
    | none => pure ()

/-- The checks of a kind, in the order in which they are made. -/
def checks : EntityKind → List Check
  | .service => [
      serviceName, serviceInstances, serviceTier, serviceRetries, serviceCacheTimeout, serviceIcon,
      serviceScalingRules]
  | .lifecycle => [lifecycleDetection]
  | .network => [networkPort]
  | .userInterface => [userInterfaceMetrics]
  | .cloud => [cloudManagementTemplate, cloudUserKeyFile]
  | .cloudProvider => [providerSettings]
  | .cloudTemplate => [templateDefaults, templateUploadDirectory]
  | _ => []

/-- The kinds that have checks. -/
def checkedKinds : List EntityKind :=
  EntityKind.all.filter fun kind => !(checks kind).isEmpty

/-- Makes the checks of an entity, without those inside it. -/
def checkOne (context : ValidationContext) (entity : Entity) : Except ErrorKind Unit :=
  (checks entity.kind).forM fun check =>
    match check context entity with
    | .ok () => .ok ()
    | .error fault => .error (.validationFailure entity.kind fault)

/-- Checks an entity, then the entities inside it in order. -/
def validate (context : ValidationContext) (entity : Entity) : Except ErrorKind Unit := do
  checkOne context entity
  entity.children.attach.forM fun ⟨child, _member⟩ => validate context child
termination_by entity.kind.height
decreasing_by exact Entity.height_of_mem_children _member

end Validation

end DeployRecipe
