/-
`pkg/config`: the configuration, as far as defaulting, overriding and validating read or write it.

Every field starts at its zero value, so that the empty record is what an empty file parses to. A map is the list of its
entries in the order a loop visits them; `none` is the nil map where the code tells it from an empty one. A
`float64` is a rational.
-/
import Jupiter.Go.Time
import Mathlib.Data.Rat.Defs

namespace Jupiter.Config

open Jupiter.Go

structure CORSConfig where
  enabled : Bool := false
  allowedOrigins : List String := []
  allowedMethods : List String := []
  allowedHeaders : List String := []
  exposedHeaders : List String := []
  maxAge : Int := 0

structure ProxyConfig where
  listenAddress : String := ""
  readTimeout : Duration := 0
  writeTimeout : Duration := 0
  idleTimeout : Duration := 0
  shutdownTimeout : Duration := 0
  maxHeaderBytes : Int := 0
  cors : CORSConfig := {}

structure ProviderConfig where
  baseURL : String := ""
  apiKey : String := ""
  timeout : Duration := 0
  maxRetries : Int := 0
  deriving DecidableEq

structure PolicyValidationConfig where
  enabled : Bool := false
  strict : Bool := false

structure PolicyConfig where
  mode : String := ""
  filePath : String := ""
  gitRepo : String := ""
  gitBranch : String := ""
  gitPath : String := ""
  watch : Bool := false
  validation : PolicyValidationConfig := {}

/-! ## Evidence -/

structure SQLiteConfig where
  path : String := ""
  maxOpenConns : Int := 0
  maxIdleConns : Int := 0
  walMode : Bool := false
  busyTimeout : Duration := 0

structure PostgresConfig where
  host : String := ""
  port : Int := 0
  database : String := ""
  user : String := ""
  password : String := ""
  sslMode : String := ""

structure S3Config where
  bucket : String := ""
  region : String := ""
  keyPrefix : String := ""
  endpoint : String := ""

structure RecorderConfig where
  asyncBuffer : Int := 0
  writeTimeout : Duration := 0
  hashRequest : Bool := false
  hashResponse : Bool := false
  redactAPIKeys : Bool := false
  maxFieldLength : Int := 0

structure RetentionConfig where
  days : Int := 0
  pruneSchedule : String := ""
  archiveBeforeDelete : Bool := false
  archivePath : String := ""
  maxRecords : Int := 0

structure QueryConfig where
  defaultLimit : Int := 0
  maxLimit : Int := 0
  timeout : Duration := 0

structure ExportConfig where
  jsonPretty : Bool := false
  csvIncludeHeader : Bool := false
  maxExportSize : Int := 0

structure EvidenceConfig where
  enabled : Bool := false
  backend : String := ""
  sqlite : SQLiteConfig := {}
  postgres : PostgresConfig := {}
  s3 : S3Config := {}
  recorder : RecorderConfig := {}
  retention : RetentionConfig := {}
  query : QueryConfig := {}
  exports : ExportConfig := {}
  signingKeyPath : String := ""

/-! ## Processing -/

structure TokensConfig where
  estimator : String := ""
  cacheSize : Int := 0
  models : Option (List (String × ℚ)) := none

structure ModelPricingConfig where
  prompt : ℚ := 0
  completion : ℚ := 0
  cachedPrompt : ℚ := 0
  deriving DecidableEq

structure CostsConfig where
  pricing : Option (List (String × List (String × ModelPricingConfig))) := none

structure PIIConfig where
  types : List String := []

structure SensitiveConfig where
  severityThreshold : String := ""
  categories : List String := []

structure InjectionConfig where
  confidenceThreshold : ℚ := 0
  patterns : List String := []

structure ContentConfig where
  pii : PIIConfig := {}
  sensitive : SensitiveConfig := {}
  injection : InjectionConfig := {}

structure ConversationConfig where
  maxContextWindow : Option (List (String × Int)) := none
  warnThreshold : ℚ := 0

structure ProcessingConfig where
  tokens : TokensConfig := {}
  costs : CostsConfig := {}
  content : ContentConfig := {}
  conversation : ConversationConfig := {}

/-! ## Limits -/

structure BudgetLimits where
  hourly : ℚ := 0
  daily : ℚ := 0
  monthly : ℚ := 0

structure BudgetsConfig where
  enabled : Bool := false
  alertThreshold : ℚ := 0
  byAPIKey : List (String × BudgetLimits) := []
  byUser : List (String × BudgetLimits) := []
  byTeam : List (String × BudgetLimits) := []

structure RateLimits where
  requestsPerSecond : Int := 0
  requestsPerMinute : Int := 0
  requestsPerHour : Int := 0
  tokensPerMinute : Int := 0
  tokensPerHour : Int := 0
  maxConcurrent : Int := 0

structure RateLimitsConfig where
  enabled : Bool := false
  byAPIKey : List (String × RateLimits) := []
  byUser : List (String × RateLimits) := []
  byTeam : List (String × RateLimits) := []

structure EnforcementConfig where
  action : String := ""
  queueDepth : Int := 0
  queueTimeout : Duration := 0
  modelDowngrades : List (String × String) := []

structure LimitsSQLiteConfig where
  path : String := ""
  snapshotInterval : Duration := 0

structure LimitsMemoryConfig where
  maxEntries : Int := 0
  cleanupInterval : Duration := 0

structure LimitsStorageConfig where
  backend : String := ""
  sqlite : LimitsSQLiteConfig := {}
  memory : LimitsMemoryConfig := {}

structure LimitsConfig where
  budgets : BudgetsConfig := {}
  rateLimits : RateLimitsConfig := {}
  enforcement : EnforcementConfig := {}
  storage : LimitsStorageConfig := {}

/-! ## Telemetry and security -/

structure LoggingConfig where
  level : String := ""
  format : String := ""

structure MetricsConfig where
  enabled : Bool := false
  path : String := ""

structure TracingConfig where
  enabled : Bool := false
  sampleRatio : ℚ := 0
  endpoint : String := ""

structure HealthConfig where
  enabled : Bool := false
  livenessPath : String := ""
  readinessPath : String := ""
  versionPath : String := ""
  checkTimeout : Duration := 0
  minHealthyProviders : Int := 0

structure TelemetryConfig where
  logging : LoggingConfig := {}
  metrics : MetricsConfig := {}
  tracing : TracingConfig := {}
  health : HealthConfig := {}

structure MTLSConfig where
  enabled : Bool := false
  clientCAFile : String := ""

structure TLSConfig where
  enabled : Bool := false
  certFile : String := ""
  keyFile : String := ""
  mtls : MTLSConfig := {}

structure SecurityConfig where
  tls : TLSConfig := {}

set_option linter.dupNamespace false in
/-- The whole configuration. The routing section is left out: nothing here reads it. -/
structure Config where
  proxy : ProxyConfig := {}
  providers : List (String × ProviderConfig) := []
  policy : PolicyConfig := {}
  evidence : EvidenceConfig := {}
  processing : ProcessingConfig := {}
  limits : LimitsConfig := {}
  telemetry : TelemetryConfig := {}
  security : SecurityConfig := {}

end Jupiter.Config
