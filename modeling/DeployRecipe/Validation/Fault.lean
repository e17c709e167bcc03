import DeployRecipe.Path
import DeployRecipe.Url
import DeployRecipe.Value.Inspect

/-!
What can be wrong with a finished entity.
-/

namespace DeployRecipe

inductive ValidationFault where
  | nameMissing
  | nameEmpty
  | minimumBelowOne (minimum : Int)
  | maximumBelowMinimum (maximum minimum : Int)
  | fewerThanMinimum (count minimum : Int)
  | moreThanMaximum (count maximum : Int)
  | unknownTier (tier : String)
  | retriesBelowMinusOne
  | cacheTimeoutNotInteger (found : String)
  | iconMissing (path : Path)
  | ruleWithoutStatistics
  | undeclaredStatistics (name : String)
  | detectionTimeoutNotPositive
  | detectionIntervalNotPositive
  | portOutOfRange (port : Int)
  | unknownUnit (group : String) (unit : Value)
  | metricNotPair (group : String)
  | metricNotNamed (group : String) (found : Value)
  | managementTemplateEmpty
  | managementTemplateUnlisted (name : String)
  | keyFileMissing (path : Path)
  | providerEmpty
  | invalidUrl (url : String) (error : Url.UrlError)
  | managementMachinesOutOfRange (count : Int)
  | unknownLoggingLevel (level : String)
  | remoteDirectoryMissing
  | localDirectoryMissing
  | keyFilePlaceholder
  | uploadDirectoryAbsolute
  | uploadDirectoryMissing (path : Path)
  | uploadDirectoryNotDirectory (path : Path)

namespace ValidationFault

/-- The tiers of services. -/
def tiers : List String := [
  "WEB_SERVER", "APP_SERVER", "DATABASE", "NOSQL_DB", "MESSAGE_BUS", "ESB_SERVER", "LOAD_BALANCER",
  "SECURITY_SERVER", "UNDEFINED"]

/-- The units of metrics. -/
def metricUnits : List String := ["REGULAR", "PERCENTAGE", "MEMORY", "DURATION"]

def loggingLevels : List String := ["INFO", "FINE", "FINER", "FINEST", "WARNING", "DEBUG"]

/-- The custom property that sets how long monitors are kept. -/
def cacheTimeoutProperty : String := "monitorsCacheExpirationTimeout"

/-- The name that stands for a key file in fresh templates. -/
def keyFileName : String := "ENTER_KEY_FILE_NAME"

def commaSeparated (names : List String) : String :=
  String.intercalate ", " names

def message : ValidationFault → String
  | .nameMissing => "the service's name is missing"
  | .nameEmpty => "the service's name is empty"
  | .minimumBelowOne minimum =>
    "minimum number of instances (" ++ toString minimum ++ ") must be 1 or higher"
  | .maximumBelowMinimum maximum minimum =>
    "maximum number of instances (" ++ toString maximum ++
      ") must be equal or greater than the minimum number of instances (" ++ toString minimum ++ ")"
  | .fewerThanMinimum count minimum =>
    "number of instances (" ++ toString count ++
      ") must be equal or greater than the minimum number of instances (" ++ toString minimum ++ ")"
  | .moreThanMaximum count maximum =>
    "the requested number of instances (" ++ toString count ++
      ") exceeds the maximum number of instances allowed (" ++ toString maximum ++ ")"
  | .unknownTier tier =>
    "the service type '" ++ tier ++ "' is undefined; known types are " ++ commaSeparated tiers
  | .retriesBelowMinusOne =>
    "valid values for retries are -1 (always retry) and above; use 0 for no retries"
  | .cacheTimeoutNotInteger found =>
    "the " ++ cacheTimeoutProperty ++ " property must be an integer, got '" ++ found ++ "'"
  | .iconMissing path => "the icon file \"" ++ path.text ++ "\" does not exist"
  | .ruleWithoutStatistics => "a scaling rule must set serviceStatistics"
  | .undeclaredStatistics name =>
    "scaling rule refers to serviceStatistics \"" ++ name ++ "\" which is not declared"
  | .detectionTimeoutNotPositive => "startDetectionTimeoutSecs must be positive"
  | .detectionIntervalNotPositive => "startDetectionIntervalSecs must be positive"
  | .portOutOfRange port => "port " ++ toString port ++ " is out of range 1-65535"
  | .unknownUnit group unit =>
    "metric group \"" ++ group ++ "\": unit " ++ unit.inspect ++ " is not one of " ++
      commaSeparated metricUnits
  | .metricNotPair group => "metric group \"" ++ group ++ "\": a metric list must be [name, unit]"
  | .metricNotNamed group found =>
    "metric group \"" ++ group ++ "\": expected a metric name or [name, unit], got " ++ found.inspect
  | .managementTemplateEmpty => "managementMachineTemplate may not be empty"
  | .managementTemplateUnlisted name =>
    "the management machine template \"" ++ name ++
      "\" is not listed in the cloud's templates section"
  | .keyFileMissing path => "the specified key file was not found: " ++ path.text
  | .providerEmpty => "provider cannot be empty"
  | .invalidUrl url error => "invalid cloudify url \"" ++ url ++ "\": " ++ error.message
  | .managementMachinesOutOfRange count =>
    "invalid numberOfManagementMachines \"" ++ toString count ++ "\"; valid values are 1 or 2"
  | .unknownLoggingLevel level =>
    "sshLoggingLevel \"" ++ level ++ "\" is invalid; supported values are " ++
      commaSeparated loggingLevels
  | .remoteDirectoryMissing => "remote directory for template is missing"
  | .localDirectoryMissing => "local directory for template is missing"
  | .keyFilePlaceholder => "key file name still has the default value of " ++ keyFileName
  | .uploadDirectoryAbsolute =>
    "upload directory of a cloud template must be relative to the cloud configuration directory"
  | .uploadDirectoryMissing path => "could not find upload directory at: " ++ path.text
  | .uploadDirectoryNotDirectory path =>
    "upload directory, set to: " ++ path.text ++ " is not a directory"

end ValidationFault

end DeployRecipe
