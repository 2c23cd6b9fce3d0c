/-
`pkg/config`, `validate.go`: `Validate` and the checks of each section, in the order the code makes them.

`url.Parse` and the quoting of `%q` come from the standard library and are taken as given: the first by the text of
the error it answers with, if any.
-/
import Jupiter.Config.Types
import Jupiter.Lib.Table

namespace Jupiter.Config

open Jupiter.Go Jupiter.Lib

structure FieldError where
  field : String
  message : String
  deriving DecidableEq

namespace FieldError

def error (e : FieldError) : String := e.field ++ ": " ++ e.message

end FieldError

def validationError : List FieldError → String
  | [] => "configuration validation failed"
  | [e] => "configuration validation failed: " ++ e.error
  | errs => "configuration validation failed with " ++ toString errs.length ++ " errors:\n" ++
      errs.foldl (fun text e => text ++ "  - " ++ e.error ++ "\n") ""

/-- What the loader takes from the standard library. The parsers answer with nothing for a text they refuse. -/
structure Stdlib where
  parseDuration : String → Option Duration
  atoi : String → Option Int
  parseBool : String → Option Bool
  parseFloat : String → Option ℚ
  urlError : String → Option String
  quote : String → String

/-- A library that parses nothing. -/
def plain : Stdlib := ⟨fun _ => none, fun _ => none, fun _ => none, fun _ => none, fun _ => none, id⟩

def refuse (bad : Bool) (field message : String) : List FieldError := if bad then [⟨field, message⟩] else []

def unlisted (words : List String) (value : String) : Bool := !words.contains value

def oneOf (words : List String) (value field required invalid : String) : List FieldError :=
  if value = "" then [⟨field, required⟩] else refuse (unlisted words value) field invalid

def validateProxy (cfg : ProxyConfig) : List FieldError :=
  refuse (cfg.listenAddress = "") "proxy.listen_address" "listen address is required" ++
  refuse (cfg.readTimeout < 0) "proxy.read_timeout" "read timeout must be positive" ++
  refuse (cfg.writeTimeout < 0) "proxy.write_timeout" "write timeout must be positive" ++
  refuse (cfg.idleTimeout < 0) "proxy.idle_timeout" "idle timeout must be positive" ++
  refuse (cfg.maxHeaderBytes < 0) "proxy.max_header_bytes" "max header bytes must be non-negative" ++
  refuse (10 * 1024 * 1024 < cfg.maxHeaderBytes) "proxy.max_header_bytes"
    "max header bytes exceeds reasonable limit (10MB)"

section

variable (lib : Stdlib)

/-- The checks of one provider. The API key may be empty: it can be injected later. -/
def validateProvider (name : String) (provider : ProviderConfig) : List FieldError :=
  let path := "providers." ++ name
  (if provider.baseURL = "" then [⟨path ++ ".base_url", "base URL is required"⟩]
  else match lib.urlError provider.baseURL with
    | some err => [⟨path ++ ".base_url", "invalid URL format: " ++ err⟩]
    | none => []) ++
  refuse (provider.timeout < 0) (path ++ ".timeout") "timeout must be positive" ++
  refuse (provider.maxRetries < 0) (path ++ ".max_retries") "max retries must be non-negative" ++
  refuse (10 < provider.maxRetries) (path ++ ".max_retries") "max retries exceeds reasonable limit (10)"

def validateProviders (providers : List (String × ProviderConfig)) : List FieldError :=
  if providers.isEmpty then [⟨"providers", "at least one provider must be configured"⟩]
  else providers.flatMap fun entry => validateProvider lib entry.1 entry.2

def validatePolicy (cfg : PolicyConfig) : List FieldError :=
  oneOf ["file", "git"] cfg.mode "policy.mode" "mode is required"
    ("invalid mode " ++ lib.quote cfg.mode ++ ": must be 'file' or 'git'") ++
  refuse (cfg.mode = "file" && cfg.filePath = "") "policy.file_path" "file path is required when mode is 'file'" ++
  if cfg.mode = "git" then
    refuse (cfg.gitRepo = "") "policy.git_repo" "git repository is required when mode is 'git'" ++
    refuse (cfg.gitBranch = "") "policy.git_branch" "git branch is required when mode is 'git'" ++
    refuse (cfg.gitPath = "") "policy.git_path" "git path is required when mode is 'git'"
  else []

def validatePostgres (cfg : PostgresConfig) : List FieldError :=
  refuse (cfg.host = "") "evidence.postgres.host" "PostgreSQL host is required when backend is 'postgres'" ++
  refuse (cfg.port < 1 || 65535 < cfg.port) "evidence.postgres.port" "PostgreSQL port must be between 1 and 65535" ++
  refuse (cfg.database = "") "evidence.postgres.database"
    "PostgreSQL database is required when backend is 'postgres'" ++
  refuse (cfg.user = "") "evidence.postgres.user" "PostgreSQL user is required when backend is 'postgres'" ++
  refuse (unlisted ["disable", "require", "verify-ca", "verify-full"] cfg.sslMode) "evidence.postgres.ssl_mode"
    ("invalid SSL mode " ++ lib.quote cfg.sslMode ++ ": must be 'disable', 'require', 'verify-ca', or 'verify-full'")

/-- The checks of the backend in use; those of another are not made. -/
def validateEvidenceBackend (cfg : EvidenceConfig) : List FieldError :=
  match cfg.backend with
  | "sqlite" =>
    refuse (cfg.sqlite.path = "") "evidence.sqlite.path" "SQLite path is required when backend is 'sqlite'"
  | "postgres" => validatePostgres lib cfg.postgres
  | "s3" =>
    refuse (cfg.s3.bucket = "") "evidence.s3.bucket" "S3 bucket is required when backend is 's3'" ++
    refuse (cfg.s3.region = "") "evidence.s3.region" "S3 region is required when backend is 's3'"
  | _ => []

def validateEvidence (cfg : EvidenceConfig) : List FieldError :=
  if !cfg.enabled then []
  else
    oneOf ["sqlite", "postgres", "s3"] cfg.backend "evidence.backend" "backend is required when evidence is enabled"
      ("invalid backend " ++ lib.quote cfg.backend ++ ": must be 'sqlite', 'postgres', or 's3'") ++
    validateEvidenceBackend lib cfg ++
    refuse (cfg.retention.days < 0) "evidence.retention.days" "retention days must be non-negative" ++
    refuse (3650 < cfg.retention.days) "evidence.retention.days"
      "retention days exceeds reasonable limit (3650 days / 10 years)"

/-! ## Limits -/

def validateBudgetLimits (path : String) (limits : BudgetLimits) : List FieldError :=
  refuse (limits.hourly < 0) (path ++ ".hourly") "hourly budget must be non-negative" ++
  refuse (limits.daily < 0) (path ++ ".daily") "daily budget must be non-negative" ++
  refuse (limits.monthly < 0) (path ++ ".monthly") "monthly budget must be non-negative" ++
  refuse (0 < limits.hourly && 0 < limits.daily && limits.daily < limits.hourly) (path ++ ".hourly")
    "hourly budget cannot exceed daily budget" ++
  refuse (0 < limits.daily && 0 < limits.monthly && limits.monthly < limits.daily) (path ++ ".daily")
    "daily budget cannot exceed monthly budget"

def validateRateLimits (path : String) (limits : RateLimits) : List FieldError :=
  refuse (limits.requestsPerSecond < 0) (path ++ ".requests_per_second")
    "requests per second must be non-negative" ++
  refuse (limits.requestsPerMinute < 0) (path ++ ".requests_per_minute")
    "requests per minute must be non-negative" ++
  refuse (limits.requestsPerHour < 0) (path ++ ".requests_per_hour") "requests per hour must be non-negative" ++
  refuse (limits.tokensPerMinute < 0) (path ++ ".tokens_per_minute") "tokens per minute must be non-negative" ++
  refuse (limits.tokensPerHour < 0) (path ++ ".tokens_per_hour") "tokens per hour must be non-negative" ++
  refuse (limits.maxConcurrent < 0) (path ++ ".max_concurrent") "max concurrent must be non-negative" ++
  refuse (100000 < limits.requestsPerSecond) (path ++ ".requests_per_second")
    "requests per second exceeds reasonable limit (100,000)" ++
  refuse (10000000 < limits.tokensPerMinute) (path ++ ".tokens_per_minute")
    "tokens per minute exceeds reasonable limit (10,000,000)" ++
  refuse (10000 < limits.maxConcurrent) (path ++ ".max_concurrent")
    "max concurrent exceeds reasonable limit (10,000)"

/-- `checkCircularDowngrade`: the error, if any, and the visited set it leaves. A model is taken out of the set again
when nothing was found from it, and stays in it after an error. -/
def checkCircularDowngrade (downgrades : List (String × String)) (model : String) (visited : List String) :
    Option String × List String :=
  if _ : model ∈ visited then (some ("circular downgrade detected for model " ++ lib.quote model), visited)
  else
    match _ : downgrades.lookup model with
    | some next =>
      match checkCircularDowngrade downgrades next (model :: visited) with
      | (some err, visited) => (some err, visited)
      | (none, visited) => (none, visited.filter (· ≠ model))
    | none => (none, (model :: visited).filter (· ≠ model))
termination_by (downgrades.filter fun entry => !visited.contains entry.1).length
decreasing_by exact Table.length_unmarked_lt ‹_› (Table.mem_of_lookup ‹_›)

/-- The loop over the models: one visited set for all of them, and only the first error counts. -/
def circularDowngrade (downgrades : List (String × String)) : List String → List String → Option String
  | [], _ => none
  | model :: models, visited =>
    match checkCircularDowngrade lib downgrades model visited with
    | (some err, _) => some err
    | (none, visited) => circularDowngrade downgrades models visited

def validateEnforcement (cfg : EnforcementConfig) : List FieldError :=
  refuse (cfg.action ≠ "" && unlisted ["block", "queue", "downgrade", "alert"] cfg.action)
    "limits.enforcement.action"
    ("invalid action " ++ lib.quote cfg.action ++ ": must be 'block', 'queue', 'downgrade', or 'alert'") ++
  refuse (cfg.queueDepth < 0) "limits.enforcement.queue_depth" "queue depth must be non-negative" ++
  refuse (100000 < cfg.queueDepth) "limits.enforcement.queue_depth"
    "queue depth exceeds reasonable limit (100,000)" ++
  refuse (cfg.queueTimeout < 0) "limits.enforcement.queue_timeout" "queue timeout must be positive" ++
  match circularDowngrade lib cfg.modelDowngrades (cfg.modelDowngrades.map Prod.fst) [] with
  | some err => [⟨"limits.enforcement.model_downgrades", err⟩]
  | none => []

def validateLimitsStorage (cfg : LimitsStorageConfig) : List FieldError :=
  oneOf ["memory", "sqlite"] cfg.backend "limits.storage.backend" "backend is required"
    ("invalid backend " ++ lib.quote cfg.backend ++ ": must be 'memory' or 'sqlite'") ++
  match cfg.backend with
  | "sqlite" =>
    refuse (cfg.sqlite.path = "") "limits.storage.sqlite.path" "SQLite path is required when backend is 'sqlite'" ++
    refuse (cfg.sqlite.snapshotInterval < 0) "limits.storage.sqlite.snapshot_interval"
      "snapshot interval must be positive"
  | "memory" =>
    refuse (cfg.memory.maxEntries < 0) "limits.storage.memory.max_entries" "max entries must be non-negative" ++
    refuse (cfg.memory.cleanupInterval < 0) "limits.storage.memory.cleanup_interval"
      "cleanup interval must be positive"
  | _ => []

def validateEach {α : Type} (check : String → α → List FieldError) (path : String) (entries : List (String × α)) :
    List FieldError :=
  entries.flatMap fun entry => check (path ++ "." ++ entry.1) entry.2

def validateLimits (cfg : LimitsConfig) : List FieldError :=
  (if cfg.budgets.enabled then
    refuse (cfg.budgets.alertThreshold < 0 || 1 < cfg.budgets.alertThreshold) "limits.budgets.alert_threshold"
      "alert threshold must be between 0.0 and 1.0" ++
    validateEach validateBudgetLimits "limits.budgets.by_api_key" cfg.budgets.byAPIKey ++
    validateEach validateBudgetLimits "limits.budgets.by_user" cfg.budgets.byUser ++
    validateEach validateBudgetLimits "limits.budgets.by_team" cfg.budgets.byTeam
  else []) ++
  (if cfg.rateLimits.enabled then
    validateEach validateRateLimits "limits.rate_limits.by_api_key" cfg.rateLimits.byAPIKey ++
    validateEach validateRateLimits "limits.rate_limits.by_user" cfg.rateLimits.byUser ++
    validateEach validateRateLimits "limits.rate_limits.by_team" cfg.rateLimits.byTeam
  else []) ++
  validateEnforcement lib cfg.enforcement ++ validateLimitsStorage lib cfg.storage

/-! ## Telemetry and security -/

def relative (path : String) : Bool := path ≠ "" && path.toList.head? ≠ some '/'

def validateHealth (cfg : HealthConfig) : List FieldError :=
  refuse (cfg.livenessPath = "") "telemetry.health.liveness_path"
    "liveness path is required when health checks are enabled" ++
  refuse (cfg.readinessPath = "") "telemetry.health.readiness_path"
    "readiness path is required when health checks are enabled" ++
  refuse (cfg.versionPath = "") "telemetry.health.version_path"
    "version path is required when health checks are enabled" ++
  refuse (relative cfg.livenessPath) "telemetry.health.liveness_path" "liveness path must start with /" ++
  refuse (relative cfg.readinessPath) "telemetry.health.readiness_path" "readiness path must start with /" ++
  refuse (relative cfg.versionPath) "telemetry.health.version_path" "version path must start with /" ++
  refuse (cfg.checkTimeout < 0) "telemetry.health.check_timeout" "check timeout must be positive" ++
  refuse (60 * Duration.second < cfg.checkTimeout) "telemetry.health.check_timeout"
    "check timeout exceeds reasonable limit (60s)" ++
  refuse (cfg.minHealthyProviders < 0) "telemetry.health.min_healthy_providers"
    "min healthy providers must be non-negative"

def validateTelemetry (cfg : TelemetryConfig) : List FieldError :=
  oneOf ["debug", "info", "warn", "error"] cfg.logging.level "telemetry.logging.level" "logging level is required"
    ("invalid logging level " ++ lib.quote cfg.logging.level ++ ": must be 'debug', 'info', 'warn', or 'error'") ++
  oneOf ["json", "text"] cfg.logging.format "telemetry.logging.format" "logging format is required"
    ("invalid logging format " ++ lib.quote cfg.logging.format ++ ": must be 'json' or 'text'") ++
  refuse (cfg.metrics.enabled && cfg.metrics.path = "") "telemetry.metrics.path"
    "metrics path is required when metrics are enabled" ++
  refuse (cfg.tracing.enabled && cfg.tracing.endpoint = "") "telemetry.tracing.endpoint"
    "tracing endpoint is required when tracing is enabled" ++
  refuse (cfg.tracing.sampleRatio < 0 || 1 < cfg.tracing.sampleRatio) "telemetry.tracing.sample_ratio"
    "sample ratio must be between 0.0 and 1.0" ++
  if cfg.health.enabled then validateHealth cfg.health else []

def validateSecurity (cfg : SecurityConfig) : List FieldError :=
  (if cfg.tls.enabled then
    refuse (cfg.tls.certFile = "") "security.tls.cert_file" "TLS certificate file is required when TLS is enabled" ++
    refuse (cfg.tls.keyFile = "") "security.tls.key_file" "TLS key file is required when TLS is enabled"
  else []) ++
  if cfg.tls.mtls.enabled then
    refuse (cfg.tls.mtls.clientCAFile = "") "security.tls.mtls.client_ca_file"
      "mTLS client CA file is required when mTLS is enabled" ++
    refuse (!cfg.tls.enabled) "security.tls.mtls.enabled"
      "mTLS requires TLS to be enabled (security.tls.enabled must be true)"
  else []

/-- `Validate`: the errors of every section together; the configuration is valid when there are none. -/
def validate (cfg : Config) : List FieldError :=
  validateProxy cfg.proxy ++ validateProviders lib cfg.providers ++ validatePolicy lib cfg.policy ++
    validateEvidence lib cfg.evidence ++ validateLimits lib cfg.limits ++ validateTelemetry lib cfg.telemetry ++
    validateSecurity cfg.security

end

end Jupiter.Config
