/-
`pkg/config`, `defaults.go`: the default values, and `ApplyDefaults`, which sets them in every field that is at its zero
value.

The sections of the configuration are defaulted one by one; no default depends on another section.
-/
import Jupiter.Config.Types

namespace Jupiter.Config

open Jupiter.Go

def defaultProviderTimeout : Duration := 60 * Duration.second
def defaultProviderMaxRetries : Int := 3

def orDefault {α : Type} [DecidableEq α] (zero default value : α) : α := if value = zero then default else value

/-- The default for CORS being enabled is taken when no other field of it is set. -/
def applyCORSDefaults (cors : CORSConfig) : CORSConfig :=
  let hasAnyConfig := !cors.allowedOrigins.isEmpty || !cors.allowedMethods.isEmpty || !cors.allowedHeaders.isEmpty ||
    !cors.exposedHeaders.isEmpty || decide (0 < cors.maxAge)
  { enabled := cors.enabled || !hasAnyConfig
    allowedOrigins := orDefault [] ["*"] cors.allowedOrigins
    allowedMethods := orDefault [] ["GET", "POST", "PUT", "DELETE", "OPTIONS"] cors.allowedMethods
    allowedHeaders := orDefault [] ["Authorization", "Content-Type", "X-Request-ID", "X-User-ID"] cors.allowedHeaders
    exposedHeaders := orDefault [] ["X-Request-ID"] cors.exposedHeaders
    maxAge := orDefault 0 3600 cors.maxAge }

def applyProxyDefaults (cfg : ProxyConfig) : ProxyConfig where
  listenAddress := orDefault "" "127.0.0.1:8080" cfg.listenAddress
  readTimeout := orDefault 0 (30 * Duration.second) cfg.readTimeout
  writeTimeout := orDefault 0 (30 * Duration.second) cfg.writeTimeout
  idleTimeout := orDefault 0 (120 * Duration.second) cfg.idleTimeout
  shutdownTimeout := orDefault 0 (30 * Duration.second) cfg.shutdownTimeout
  maxHeaderBytes := orDefault 0 1048576 cfg.maxHeaderBytes
  cors := applyCORSDefaults cfg.cors

def applyProviderDefaults (provider : ProviderConfig) : ProviderConfig :=
  { provider with
    timeout := orDefault 0 defaultProviderTimeout provider.timeout
    maxRetries := orDefault 0 defaultProviderMaxRetries provider.maxRetries }

/-- The two validation flags are left alone: `applyPolicyValidationDefaults` does nothing. -/
def applyPolicyDefaults (cfg : PolicyConfig) : PolicyConfig :=
  { cfg with
    mode := orDefault "" "file" cfg.mode
    filePath := orDefault "" "./policies.yaml" cfg.filePath
    gitBranch := orDefault "" "main" cfg.gitBranch
    gitPath := orDefault "" "policies.yaml" cfg.gitPath
    watch := orDefault false false cfg.watch }

/-- Flags that default to true cannot be switched off: their zero value is the other one. -/
def applyEvidenceDefaults (cfg : EvidenceConfig) : EvidenceConfig :=
  { cfg with
    backend := orDefault "" "sqlite" cfg.backend
    sqlite :=
      { path := orDefault "" "data/evidence.db" cfg.sqlite.path
        maxOpenConns := orDefault 0 10 cfg.sqlite.maxOpenConns
        maxIdleConns := orDefault 0 5 cfg.sqlite.maxIdleConns
        walMode := orDefault false true cfg.sqlite.walMode
        busyTimeout := orDefault 0 (5 * Duration.second) cfg.sqlite.busyTimeout }
    recorder :=
      { asyncBuffer := orDefault 0 1000 cfg.recorder.asyncBuffer
        writeTimeout := orDefault 0 (5 * Duration.second) cfg.recorder.writeTimeout
        hashRequest := orDefault false true cfg.recorder.hashRequest
        hashResponse := orDefault false true cfg.recorder.hashResponse
        redactAPIKeys := orDefault false true cfg.recorder.redactAPIKeys
        maxFieldLength := orDefault 0 500 cfg.recorder.maxFieldLength }
    retention :=
      { days := orDefault 0 90 cfg.retention.days
        pruneSchedule := orDefault "" "0 3 * * *" cfg.retention.pruneSchedule
        archiveBeforeDelete := orDefault false false cfg.retention.archiveBeforeDelete
        archivePath := orDefault "" "data/archives/" cfg.retention.archivePath
        maxRecords := orDefault 0 0 cfg.retention.maxRecords }
    query :=
      { defaultLimit := orDefault 0 100 cfg.query.defaultLimit
        maxLimit := orDefault 0 10000 cfg.query.maxLimit
        timeout := orDefault 0 (30 * Duration.second) cfg.query.timeout }
    exports :=
      { jsonPretty := orDefault false true cfg.exports.jsonPretty
        csvIncludeHeader := orDefault false true cfg.exports.csvIncludeHeader
        maxExportSize := orDefault 0 1000000 cfg.exports.maxExportSize }
    postgres :=
      { cfg.postgres with
        port := orDefault 0 5432 cfg.postgres.port
        sslMode := orDefault "" "require" cfg.postgres.sslMode } }

def applyTelemetryDefaults (cfg : TelemetryConfig) : TelemetryConfig :=
  { cfg with
    logging :=
      { level := orDefault "" "info" cfg.logging.level
        format := orDefault "" "json" cfg.logging.format }
    metrics := { cfg.metrics with path := orDefault "" "/metrics" cfg.metrics.path }
    tracing := { cfg.tracing with sampleRatio := orDefault 0 1 cfg.tracing.sampleRatio } }

/-! ## Processing and limits -/

/-- Characters per token. -/
def defaultTokensModels : List (String × ℚ) :=
  [("gpt-4", 4), ("gpt-3.5-turbo", 4), ("claude-3-opus", 7 / 2), ("claude-3-sonnet", 7 / 2),
    ("claude-3-haiku", 7 / 2), ("default", 4)]

/-- Dollars per thousand tokens. -/
def defaultCostsPricing : List (String × List (String × ModelPricingConfig)) :=
  [("openai",
      [("gpt-4", { prompt := 3 / 100, completion := 6 / 100 }),
        ("gpt-4-turbo", { prompt := 1 / 100, completion := 3 / 100 }),
        ("gpt-3.5-turbo", { prompt := 5 / 10000, completion := 15 / 10000 })]),
    ("anthropic",
      [("claude-3-opus", { prompt := 15 / 1000, completion := 75 / 1000 }),
        ("claude-3-sonnet", { prompt := 3 / 1000, completion := 15 / 1000 }),
        ("claude-3-haiku", { prompt := 25 / 100000, completion := 125 / 100000 })]),
    ("default", [("default", { prompt := 1 / 1000, completion := 2 / 1000 })])]

def defaultContextWindows : List (String × Int) :=
  [("gpt-4", 8192), ("gpt-4-turbo", 128000), ("gpt-3.5-turbo", 4096), ("claude-3-opus", 200000),
    ("claude-3-sonnet", 200000), ("claude-3-haiku", 200000), ("default", 4096)]

def applyProcessingDefaults (cfg : ProcessingConfig) : ProcessingConfig where
  tokens :=
    { estimator := orDefault "" "simple" cfg.tokens.estimator
      cacheSize := orDefault 0 100 cfg.tokens.cacheSize
      models := some (cfg.tokens.models.getD defaultTokensModels) }
  costs := { pricing := some (cfg.costs.pricing.getD defaultCostsPricing) }
  content :=
    { pii := { types := orDefault [] ["email", "phone", "ssn", "credit_card", "ip_address"] cfg.content.pii.types }
      sensitive :=
        { severityThreshold := orDefault "" "medium" cfg.content.sensitive.severityThreshold
          categories :=
            orDefault [] ["profanity", "violence", "hate_speech", "adult_content"] cfg.content.sensitive.categories }
      injection :=
        { confidenceThreshold := orDefault 0 (7 / 10) cfg.content.injection.confidenceThreshold
          patterns :=
            orDefault [] ["ignore previous instructions", "disregard system prompt", "you are now",
              "new instructions", "forget everything"] cfg.content.injection.patterns } }
  conversation :=
    { warnThreshold := orDefault 0 (8 / 10) cfg.conversation.warnThreshold
      maxContextWindow := some (cfg.conversation.maxContextWindow.getD defaultContextWindows) }

def applyLimitsDefaults (cfg : LimitsConfig) : LimitsConfig :=
  { cfg with
    budgets := { cfg.budgets with alertThreshold := orDefault 0 (8 / 10) cfg.budgets.alertThreshold }
    enforcement :=
      { cfg.enforcement with
        action := orDefault "" "block" cfg.enforcement.action
        queueDepth := orDefault 0 100 cfg.enforcement.queueDepth
        queueTimeout := orDefault 0 (30 * Duration.second) cfg.enforcement.queueTimeout }
    storage :=
      { backend := orDefault "" "memory" cfg.storage.backend
        sqlite :=
          { path := orDefault "" "/var/lib/mercator/limits.db" cfg.storage.sqlite.path
            snapshotInterval := orDefault 0 (5 * Duration.minute) cfg.storage.sqlite.snapshotInterval }
        memory :=
          { maxEntries := orDefault 0 100000 cfg.storage.memory.maxEntries
            cleanupInterval := orDefault 0 Duration.minute cfg.storage.memory.cleanupInterval } } }

def applyDefaults (cfg : Config) : Config where
  proxy := applyProxyDefaults cfg.proxy
  providers := cfg.providers.map fun entry => (entry.1, applyProviderDefaults entry.2)
  policy := applyPolicyDefaults cfg.policy
  evidence := applyEvidenceDefaults cfg.evidence
  processing := applyProcessingDefaults cfg.processing
  limits := applyLimitsDefaults cfg.limits
  telemetry := applyTelemetryDefaults cfg.telemetry
  security := cfg.security

/-! ## Defaulting twice -/

@[simp] theorem orDefault_orDefault {α : Type} [DecidableEq α] (zero default value : α) :
    orDefault zero default (orDefault zero default value) = orDefault zero default value := by
  unfold orDefault
  split
  · split <;> rfl
  · rfl

theorem applyCORSDefaults_idempotent (cors : CORSConfig) :
    applyCORSDefaults (applyCORSDefaults cors) = applyCORSDefaults cors := by
  have horigins : orDefault [] ["*"] cors.allowedOrigins ≠ [] := by
    unfold orDefault
    split
    · exact List.cons_ne_nil _ _
    · assumption
  -- the first pass leaves an allowed origin, so the second one finds CORS configured
  simp only [applyCORSDefaults, orDefault_orDefault, CORSConfig.mk.injEq, and_true]
  rw [List.isEmpty_eq_false_iff.2 horigins]
  simp

/-- "This function is idempotent and safe to call multiple times." -/
theorem applyDefaults_idempotent (cfg : Config) : applyDefaults (applyDefaults cfg) = applyDefaults cfg := by
  simp [applyDefaults, applyProxyDefaults, applyCORSDefaults_idempotent, applyProviderDefaults, applyPolicyDefaults,
    applyEvidenceDefaults, applyTelemetryDefaults, applyProcessingDefaults, applyLimitsDefaults]

end Jupiter.Config
