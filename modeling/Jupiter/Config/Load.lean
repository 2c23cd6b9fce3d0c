/-
`pkg/config`, `load.go`: a configuration is loaded from a file and completed by environment variables.

The documented sequence is: parse the file, apply the defaults, apply the environment, validate. The code validates the
file with its defaults first.

Reading and parsing the file is taken as done.
-/
import Jupiter.Config.Defaults
import Jupiter.Config.Validate

namespace Jupiter.Config

open Jupiter.Go Jupiter.Lib

section

variable (lib : Stdlib) (env : String → String)

/-! ## Variables -/

/-- What a variable sets: nothing when it is not there or does not parse. -/
def setting {α : Type} (parse : String → Option α) (name : String) : Option α :=
  if env name = "" then none else parse (env name)

def override {α : Type} (parse : String → Option α) (name : String) (value : α) : α :=
  (setting env parse name).getD value

structure ProviderVars where
  baseURL : Option String
  apiKey : Option String
  timeout : Option Duration
  maxRetries : Option Int

def providerVars (providerName : String) : ProviderVars :=
  let stem := "MERCATOR_PROVIDERS_" ++ providerName.toUpper ++ "_"
  { baseURL := setting env some (stem ++ "BASE_URL")
    apiKey := setting env some (stem ++ "API_KEY")
    timeout := setting env lib.parseDuration (stem ++ "TIMEOUT")
    maxRetries := setting env lib.atoi (stem ++ "MAX_RETRIES") }

namespace ProviderVars

def modified (vars : ProviderVars) : Bool :=
  vars.baseURL.isSome || vars.apiKey.isSome || vars.timeout.isSome || vars.maxRetries.isSome

def fill (vars : ProviderVars) (provider : ProviderConfig) : ProviderConfig where
  baseURL := vars.baseURL.getD provider.baseURL
  apiKey := vars.apiKey.getD provider.apiKey
  timeout := vars.timeout.getD provider.timeout
  maxRetries := vars.maxRetries.getD provider.maxRetries

end ProviderVars

/-- `applyProviderEnvOverrides`, for an environment that makes new providers out of `new`. -/
def overrideProvider (new : ProviderConfig) (providers : List (String × ProviderConfig)) (providerName : String) :
    List (String × ProviderConfig) :=
  let vars := providerVars lib env providerName
  if vars.modified || (providers.lookup providerName).isSome then
    Table.upsert providerName (fun provider => vars.fill (provider.getD new)) providers
  else providers

def applyProviderEnvOverrides (providers : List (String × ProviderConfig)) (providerName : String) :
    List (String × ProviderConfig) :=
  overrideProvider lib env {} providers providerName

def envProviders : List String := ["openai", "anthropic"]

def overrideProxy (cfg : ProxyConfig) : ProxyConfig :=
  { cfg with
    listenAddress := override env some "MERCATOR_PROXY_LISTEN_ADDRESS" cfg.listenAddress
    readTimeout := override env lib.parseDuration "MERCATOR_PROXY_READ_TIMEOUT" cfg.readTimeout
    writeTimeout := override env lib.parseDuration "MERCATOR_PROXY_WRITE_TIMEOUT" cfg.writeTimeout
    idleTimeout := override env lib.parseDuration "MERCATOR_PROXY_IDLE_TIMEOUT" cfg.idleTimeout
    maxHeaderBytes := override env lib.atoi "MERCATOR_PROXY_MAX_HEADER_BYTES" cfg.maxHeaderBytes }

def overridePolicy (cfg : PolicyConfig) : PolicyConfig where
  mode := override env some "MERCATOR_POLICY_MODE" cfg.mode
  filePath := override env some "MERCATOR_POLICY_FILE_PATH" cfg.filePath
  gitRepo := override env some "MERCATOR_POLICY_GIT_REPO" cfg.gitRepo
  gitBranch := override env some "MERCATOR_POLICY_GIT_BRANCH" cfg.gitBranch
  gitPath := override env some "MERCATOR_POLICY_GIT_PATH" cfg.gitPath
  watch := override env lib.parseBool "MERCATOR_POLICY_WATCH" cfg.watch
  validation :=
    { enabled := override env lib.parseBool "MERCATOR_POLICY_VALIDATION_ENABLED" cfg.validation.enabled
      strict := override env lib.parseBool "MERCATOR_POLICY_VALIDATION_STRICT" cfg.validation.strict }

def overrideEvidence (cfg : EvidenceConfig) : EvidenceConfig :=
  { cfg with
    enabled := override env lib.parseBool "MERCATOR_EVIDENCE_ENABLED" cfg.enabled
    backend := override env some "MERCATOR_EVIDENCE_BACKEND" cfg.backend
    sqlite := { cfg.sqlite with path := override env some "MERCATOR_EVIDENCE_SQLITE_PATH" cfg.sqlite.path }
    postgres :=
      { host := override env some "MERCATOR_EVIDENCE_POSTGRES_HOST" cfg.postgres.host
        port := override env lib.atoi "MERCATOR_EVIDENCE_POSTGRES_PORT" cfg.postgres.port
        database := override env some "MERCATOR_EVIDENCE_POSTGRES_DATABASE" cfg.postgres.database
        user := override env some "MERCATOR_EVIDENCE_POSTGRES_USER" cfg.postgres.user
        password := override env some "MERCATOR_EVIDENCE_POSTGRES_PASSWORD" cfg.postgres.password
        sslMode := override env some "MERCATOR_EVIDENCE_POSTGRES_SSL_MODE" cfg.postgres.sslMode }
    s3 :=
      { bucket := override env some "MERCATOR_EVIDENCE_S3_BUCKET" cfg.s3.bucket
        region := override env some "MERCATOR_EVIDENCE_S3_REGION" cfg.s3.region
        keyPrefix := override env some "MERCATOR_EVIDENCE_S3_PREFIX" cfg.s3.keyPrefix
        endpoint := override env some "MERCATOR_EVIDENCE_S3_ENDPOINT" cfg.s3.endpoint }
    retention :=
      { cfg.retention with days := override env lib.atoi "MERCATOR_EVIDENCE_RETENTION_DAYS" cfg.retention.days }
    signingKeyPath := override env some "MERCATOR_EVIDENCE_SIGNING_KEY_PATH" cfg.signingKeyPath }

def overrideTelemetry (cfg : TelemetryConfig) : TelemetryConfig :=
  { cfg with
    logging :=
      { level := override env some "MERCATOR_TELEMETRY_LOGGING_LEVEL" cfg.logging.level
        format := override env some "MERCATOR_TELEMETRY_LOGGING_FORMAT" cfg.logging.format }
    metrics :=
      { enabled := override env lib.parseBool "MERCATOR_TELEMETRY_METRICS_ENABLED" cfg.metrics.enabled
        path := override env some "MERCATOR_TELEMETRY_METRICS_PATH" cfg.metrics.path }
    tracing :=
      { enabled := override env lib.parseBool "MERCATOR_TELEMETRY_TRACING_ENABLED" cfg.tracing.enabled
        endpoint := override env some "MERCATOR_TELEMETRY_TRACING_ENDPOINT" cfg.tracing.endpoint
        sampleRatio := override env lib.parseFloat "MERCATOR_TELEMETRY_TRACING_SAMPLE_RATIO" cfg.tracing.sampleRatio } }

def overrideSecurity (cfg : SecurityConfig) : SecurityConfig where
  tls :=
    { enabled := override env lib.parseBool "MERCATOR_SECURITY_TLS_ENABLED" cfg.tls.enabled
      certFile := override env some "MERCATOR_SECURITY_TLS_CERT_FILE" cfg.tls.certFile
      keyFile := override env some "MERCATOR_SECURITY_TLS_KEY_FILE" cfg.tls.keyFile
      mtls :=
        { enabled := override env lib.parseBool "MERCATOR_SECURITY_MTLS_ENABLED" cfg.tls.mtls.enabled
          clientCAFile := override env some "MERCATOR_SECURITY_MTLS_CA_FILE" cfg.tls.mtls.clientCAFile } }

def applyEnvOverrides (cfg : Config) : Config :=
  { cfg with
    proxy := overrideProxy lib env cfg.proxy
    providers := envProviders.foldl (applyProviderEnvOverrides lib env) cfg.providers
    policy := overridePolicy lib env cfg.policy
    evidence := overrideEvidence lib env cfg.evidence
    telemetry := overrideTelemetry lib env cfg.telemetry
    security := overrideSecurity lib env cfg.security }

/-! ## Loading -/

/-- Every default passes its own check: a file that only lists providers is valid when they are. -/
theorem validate_applyDefaults (providers : List (String × ProviderConfig)) :
    validate lib (applyDefaults { providers := providers }) =
      validateProviders lib (applyDefaults { providers := providers }).providers := by
  have hproxy : validateProxy (applyProxyDefaults {}) = [] := rfl
  have hpolicy : validatePolicy lib (applyPolicyDefaults {}) = [] := rfl
  have hevidence : validateEvidence lib (applyEvidenceDefaults {}) = [] := rfl
  have hlimits : validateLimits lib (applyLimitsDefaults {}) = [] := rfl
  have htelemetry : validateTelemetry lib (applyTelemetryDefaults {}) = [] := rfl
  have hsecurity : validateSecurity {} = [] := rfl
  simp only [validate, applyDefaults, hproxy, hpolicy, hevidence, hlimits, htelemetry, hsecurity, List.nil_append,
    List.append_nil]

inductive Source where
  | unreadable (err : String)
  | malformed (err : String)
  | parsed (file : Config)

def loadConfig (path : String) : Source → Except String Config
  | .unreadable err => .error ("failed to read configuration file " ++ lib.quote path ++ ": " ++ err)
  | .malformed err => .error ("failed to parse configuration file " ++ lib.quote path ++ ": " ++ err)
  | .parsed file =>
    match validate lib (applyDefaults file) with
    | [] => .ok (applyDefaults file)
    | errs => .error ("configuration validation failed: " ++ validationError errs)

def loadConfigWithEnvOverrides (path : String) (source : Source) : Except String Config :=
  match loadConfig lib path source with
  | .error err => .error err
  | .ok cfg =>
    let cfg := applyEnvOverrides lib env cfg
    match validate lib cfg with
    | [] => .ok cfg
    | errs => .error ("configuration validation failed after environment overrides: " ++ validationError errs)

theorem loadConfig_eq_ok {path : String} {source : Source} {cfg : Config} :
    loadConfig lib path source = .ok cfg ↔
      ∃ file, source = .parsed file ∧ validate lib (applyDefaults file) = [] ∧ cfg = applyDefaults file := by
  rcases source with err | err | file
  · simp [loadConfig]
  · simp [loadConfig]
  · rcases hvalid : validate lib (applyDefaults file) with _ | ⟨e, errs⟩
    · simp [loadConfig, hvalid, @eq_comm _ cfg]
    · simp [loadConfig, hvalid]

theorem loadConfigWithEnvOverrides_eq_ok {path : String} {source : Source} {cfg : Config} :
    loadConfigWithEnvOverrides lib env path source = .ok cfg ↔
      ∃ file, source = .parsed file ∧ validate lib (applyDefaults file) = [] ∧
        validate lib (applyEnvOverrides lib env (applyDefaults file)) = [] ∧
        cfg = applyEnvOverrides lib env (applyDefaults file) := by
  unfold loadConfigWithEnvOverrides
  rcases hload : loadConfig lib path source with err | c
  · refine ⟨nofun, ?_⟩
    rintro ⟨file, hsource, hfile, -⟩
    rw [(loadConfig_eq_ok lib).2 ⟨file, hsource, hfile, rfl⟩] at hload
    cases hload
  · obtain ⟨file, rfl, hfile, rfl⟩ := (loadConfig_eq_ok lib).1 hload
    rcases hall : validate lib (applyEnvOverrides lib env (applyDefaults file)) with _ | ⟨e, errs⟩
    · simp [hfile, hall, @eq_comm _ cfg]
    · simp [hall]

/-! ## The documented configuration -/

/-- An entry for a provider the environment configures, empty where the file has none. -/
def declare (providers : List (String × ProviderConfig)) (providerName : String) : List (String × ProviderConfig) :=
  if (providerVars lib env providerName).modified then Table.upsert providerName (fun p => p.getD {}) providers
  else providers

/-- The documented sequence, for the providers of the file and of the environment. -/
def documented (file : Config) : Config :=
  applyEnvOverrides lib env
    (applyDefaults { file with providers := envProviders.foldl (declare lib env) file.providers })

/-- The timeout and the retry count of a provider are set by its variables, if it is one whose variables are read, else
by the file, else by the defaults. -/
def Layered (file : Config) (name : String) (p : ProviderConfig) : Prop :=
  let vars : Option ProviderVars := if name ∈ envProviders then some (providerVars lib env name) else none
  let listed := (file.providers.lookup name).getD {}
  p.timeout = (vars.bind ProviderVars.timeout).getD (orDefault 0 defaultProviderTimeout listed.timeout) ∧
    p.maxRetries = (vars.bind ProviderVars.maxRetries).getD
      (orDefault 0 defaultProviderMaxRetries listed.maxRetries)

/-- A provider that only the environment configures gets its timeout and its retries from there. -/
def Complete (file : Config) : Prop :=
  ∀ name ∈ envProviders, file.providers.lookup name = none → (providerVars lib env name).modified →
    (providerVars lib env name).timeout.isSome ∧ (providerVars lib env name).maxRetries.isSome

/-! ### Overrides of a new provider -/

variable {lib env}
variable {new : ProviderConfig} {providers : List (String × ProviderConfig)} {name : String} {names : List String}

theorem get_overrideProvider_self :
    (overrideProvider lib env new providers name).lookup name =
      if (providerVars lib env name).modified || (providers.lookup name).isSome then
        some ((providerVars lib env name).fill ((providers.lookup name).getD new))
      else none := by
  unfold overrideProvider
  dsimp only
  split
  · rw [Table.lookup_upsert_self]
  · rename_i h
    simp only [Bool.or_eq_true, not_or, Option.not_isSome_iff_eq_none] at h
    exact h.2

theorem get_overrideProvider_ne {other : String} (h : name ≠ other) :
    (overrideProvider lib env new providers other).lookup name = providers.lookup name := by
  unfold overrideProvider
  dsimp only
  split
  · exact Table.lookup_upsert_ne h _ _
  · rfl

theorem get_foldl_overrideProvider_of_notMem (h : name ∉ names) :
    (names.foldl (overrideProvider lib env new) providers).lookup name = providers.lookup name := by
  induction names generalizing providers with
  | nil => rfl
  | cons other names ih =>
    obtain ⟨hne, hmem⟩ := not_or.1 (mt List.mem_cons.2 h)
    rw [List.foldl_cons, ih hmem, get_overrideProvider_ne hne]

theorem get_foldl_overrideProvider_of_mem (hnames : names.Nodup) (h : name ∈ names) :
    (names.foldl (overrideProvider lib env new) providers).lookup name =
      (overrideProvider lib env new providers name).lookup name := by
  induction names generalizing providers with
  | nil => cases h
  | cons other names ih =>
    obtain ⟨hother, hnames⟩ := List.nodup_cons.1 hnames
    rw [List.foldl_cons]
    rcases List.mem_cons.1 h with rfl | hmem
    · exact get_foldl_overrideProvider_of_notMem hother
    · have hne : name ≠ other := fun he => hother (he ▸ hmem)
      rw [ih hnames hmem, get_overrideProvider_self, get_overrideProvider_self, get_overrideProvider_ne hne]

/-! ### Declaring first is starting from the defaults -/

def declareDefault (lib : Stdlib) (env : String → String) (providers : List (String × ProviderConfig))
    (providerName : String) : List (String × ProviderConfig) :=
  if (providerVars lib env providerName).modified then
    Table.upsert providerName (fun p => p.getD (applyProviderDefaults {})) providers
  else providers

theorem lookup_map_defaults (name : String) (providers : List (String × ProviderConfig)) :
    (providers.map fun entry => (entry.1, applyProviderDefaults entry.2)).lookup name =
      (providers.lookup name).map applyProviderDefaults :=
  Table.lookup_map fun _ _ => Iff.rfl

theorem map_declare (providers : List (String × ProviderConfig)) (name : String) :
    (declare lib env providers name).map (fun entry => (entry.1, applyProviderDefaults entry.2)) =
      declareDefault lib env (providers.map fun entry => (entry.1, applyProviderDefaults entry.2)) name := by
  unfold declare declareDefault
  split
  · exact (Table.upsert_map (h := fun entry => (entry.1, applyProviderDefaults entry.2)) rfl (fun _ _ => Iff.rfl)
      fun _ _ => rfl).symm
  · rfl

theorem overrideProvider_declareDefault :
    overrideProvider lib env {} (declareDefault lib env providers name) name =
      overrideProvider lib env (applyProviderDefaults {}) providers name := by
  unfold overrideProvider declareDefault
  dsimp only
  by_cases hm : (providerVars lib env name).modified
  · rw [if_pos hm, hm, Bool.true_or, Bool.true_or, if_pos rfl, if_pos rfl, Table.upsert_upsert]
    rfl
  · rw [if_neg hm, Bool.not_eq_true _ |>.mp hm, Bool.false_or]
    split
    · rename_i hget
      obtain ⟨p, hp⟩ := Option.isSome_iff_exists.1 hget
      refine Table.upsert_congr ?_
      rw [hp]
      rfl
    · rfl

theorem overrideProvider_declareDefault_comm {other : String} (hne : name ≠ other)
    (h : (providers.lookup name).isSome = true ∨ (providerVars lib env name).modified = false) :
    overrideProvider lib env new (declareDefault lib env providers other) name =
      declareDefault lib env (overrideProvider lib env new providers name) other := by
  unfold overrideProvider declareDefault
  dsimp only
  split
  · rw [Table.lookup_upsert_ne hne]
    split
    · rename_i hread
      refine Table.upsert_comm hne ?_
      rcases h with h | h
      · exact h
      · rwa [h, Bool.false_or] at hread
    · rfl
  · rfl

theorem overrideProvider_foldl_declareDefault (hname : name ∉ names)
    (h : (providers.lookup name).isSome = true ∨ (providerVars lib env name).modified = false) :
    overrideProvider lib env new (names.foldl (declareDefault lib env) providers) name =
      names.foldl (declareDefault lib env) (overrideProvider lib env new providers name) := by
  induction names generalizing providers with
  | nil => rfl
  | cons other names ih =>
    obtain ⟨hne, hmem⟩ := not_or.1 (mt List.mem_cons.2 hname)
    have hget : (declareDefault lib env providers other).lookup name = providers.lookup name := by
      unfold declareDefault
      split
      · exact Table.lookup_upsert_ne hne _ _
      · rfl
    rw [List.foldl_cons, List.foldl_cons, ih hmem (by rw [hget]; exact h), overrideProvider_declareDefault_comm hne h]

theorem foldl_overrideProvider_declareDefault (hnames : names.Nodup) :
    names.foldl (overrideProvider lib env {}) (names.foldl (declareDefault lib env) providers) =
      names.foldl (overrideProvider lib env (applyProviderDefaults {})) providers := by
  induction names generalizing providers with
  | nil => rfl
  | cons name names ih =>
    obtain ⟨hname, hnames⟩ := List.nodup_cons.1 hnames
    have hdeclared : ((declareDefault lib env providers name).lookup name).isSome = true ∨
        (providerVars lib env name).modified = false := by
      unfold declareDefault
      split
      · rw [Table.lookup_upsert_self]
        exact .inl rfl
      · rename_i hm
        exact .inr (Bool.not_eq_true _ |>.mp hm)
    rw [List.foldl_cons, List.foldl_cons, List.foldl_cons, overrideProvider_foldl_declareDefault hname hdeclared,
      overrideProvider_declareDefault, ih hnames]

theorem documented_providers (file : Config) :
    (documented lib env file).providers =
      envProviders.foldl (overrideProvider lib env (applyProviderDefaults {})) (applyDefaults file).providers := by
  have hdefaults : (envProviders.foldl (declare lib env) file.providers).map
      (fun entry => (entry.1, applyProviderDefaults entry.2)) =
        envProviders.foldl (declareDefault lib env) (applyDefaults file).providers :=
    (List.foldl_hom _ fun providers name => (map_declare providers name).symm).symm
  rw [← foldl_overrideProvider_declareDefault (by decide), ← hdefaults]
  rfl

theorem documented_eq (file : Config) :
    documented lib env file =
      { applyEnvOverrides lib env (applyDefaults file) with
        providers := envProviders.foldl (overrideProvider lib env (applyProviderDefaults {}))
          (applyDefaults file).providers } := by
  rw [← documented_providers]
  rfl

theorem layered_of_documented {file : Config} {p : ProviderConfig}
    (h : (documented lib env file).providers.lookup name = some p) : Layered lib env file name p := by
  unfold Layered
  have hfile : (applyDefaults file).providers.lookup name =
      (file.providers.lookup name).map applyProviderDefaults := lookup_map_defaults name file.providers
  rw [documented_providers] at h
  by_cases hname : name ∈ envProviders
  · rw [get_foldl_overrideProvider_of_mem (by decide) hname, get_overrideProvider_self, hfile] at h
    split at h
    · cases h
      rw [if_pos hname, Option.getD_map]
      exact ⟨rfl, rfl⟩
    · cases h
  · rw [get_foldl_overrideProvider_of_notMem hname, hfile] at h
    obtain ⟨q, hq, rfl⟩ := Option.map_eq_some_iff.1 h
    rw [if_neg hname, hq]
    exact ⟨rfl, rfl⟩

/-! ### Both are valid or neither is -/

/-- Providers that differ at most by a timeout or a retry count that is zero in one and the default in the other. -/
structure Alike (p q : ProviderConfig) : Prop where
  baseURL : p.baseURL = q.baseURL
  apiKey : p.apiKey = q.apiKey
  timeout : p.timeout = q.timeout ∨ p.timeout = 0 ∧ q.timeout = defaultProviderTimeout
  maxRetries : p.maxRetries = q.maxRetries ∨ p.maxRetries = 0 ∧ q.maxRetries = defaultProviderMaxRetries

namespace Alike

variable {p q : ProviderConfig}

theorem refl (p : ProviderConfig) : Alike p p := ⟨rfl, rfl, .inl rfl, .inl rfl⟩

theorem created : Alike {} (applyProviderDefaults {}) := ⟨rfl, rfl, .inr ⟨rfl, rfl⟩, .inr ⟨rfl, rfl⟩⟩

theorem fill (h : Alike p q) (vars : ProviderVars) : Alike (vars.fill p) (vars.fill q) := by
  obtain ⟨baseURL, apiKey, timeout, maxRetries⟩ := vars
  refine ⟨?_, ?_, ?_, ?_⟩
  · simp [ProviderVars.fill, h.baseURL]
  · simp [ProviderVars.fill, h.apiKey]
  · cases timeout with
    | none => exact h.timeout
    | some => exact .inl rfl
  · cases maxRetries with
    | none => exact h.maxRetries
    | some => exact .inl rfl

theorem validateProvider_eq (h : Alike p q) (name : String) :
    validateProvider lib name p = validateProvider lib name q := by
  have htimeout : decide (p.timeout < 0) = decide (q.timeout < 0) := by
    rcases h.timeout with h | ⟨hp, hq⟩
    · rw [h]
    · rw [hp, hq]
      rfl
  have hretries : decide (p.maxRetries < 0) = decide (q.maxRetries < 0) ∧
      decide (10 < p.maxRetries) = decide (10 < q.maxRetries) := by
    rcases h.maxRetries with h | ⟨hp, hq⟩
    · rw [h]
      exact ⟨rfl, rfl⟩
    · rw [hp, hq]
      exact ⟨rfl, rfl⟩
  unfold validateProvider
  rw [h.baseURL, htimeout, hretries.1, hretries.2]

end Alike

abbrev AllAlike : List (String × ProviderConfig) → List (String × ProviderConfig) → Prop :=
  List.Forall₂ fun x y => x.1 = y.1 ∧ Alike x.2 y.2

theorem AllAlike.override_step {left right : List (String × ProviderConfig)}
    (h : AllAlike left right) (name : String) :
    AllAlike (overrideProvider lib env {} left name)
      (overrideProvider lib env (applyProviderDefaults {}) right name) := by
  have hfound : (left.lookup name).isSome = (right.lookup name).isSome := by
    induction h with
    | nil => rfl
    | cons hxy _ ih =>
      rw [Table.lookup_cons_ite, Table.lookup_cons_ite, ← hxy.1]
      split
      · rfl
      · exact ih
  unfold overrideProvider
  dsimp only
  rw [hfound]
  split
  · exact Table.forall₂_upsert (Alike.created.fill _) (fun _ _ hab => hab.fill _) h
  · exact h

theorem AllAlike.override_all {left right : List (String × ProviderConfig)}
    (h : AllAlike left right) :
    AllAlike (names.foldl (overrideProvider lib env {}) left)
      (names.foldl (overrideProvider lib env (applyProviderDefaults {})) right) := by
  induction names generalizing left right with
  | nil => exact h
  | cons name names ih => exact ih (h.override_step name)

theorem AllAlike.validateProviders_eq {left right : List (String × ProviderConfig)}
    (h : AllAlike left right) :
    validateProviders lib left = validateProviders lib right := by
  have herrs : left.flatMap (fun entry => validateProvider lib entry.1 entry.2) =
      right.flatMap fun entry => validateProvider lib entry.1 entry.2 := by
    induction h with
    | nil => rfl
    | cons hxy _ ih => rw [List.flatMap_cons, List.flatMap_cons, ih, hxy.1, hxy.2.validateProvider_eq]
  have hempty : left.isEmpty = right.isEmpty := by cases h <;> rfl
  unfold validateProviders
  rw [hempty, herrs]

theorem validate_documented (file : Config) :
    validate lib (documented lib env file) = validate lib (applyEnvOverrides lib env (applyDefaults file)) := by
  have hsame : AllAlike (applyDefaults file).providers (applyDefaults file).providers :=
    List.forall₂_same.2 fun x _ => ⟨rfl, Alike.refl x.2⟩
  have hproviders := @AllAlike.validateProviders_eq lib _ _
    (@AllAlike.override_all lib env envProviders _ _ hsame)
  rw [documented_eq]
  unfold validate
  dsimp only
  rw [← hproviders]
  rfl

/-! ### When they are the same -/

theorem fill_new_eq_iff {vars : ProviderVars} :
    vars.fill {} = vars.fill (applyProviderDefaults {}) ↔ vars.timeout.isSome ∧ vars.maxRetries.isSome := by
  obtain ⟨baseURL, apiKey, timeout, maxRetries⟩ := vars
  cases timeout <;> cases maxRetries <;>
    simp [ProviderVars.fill, applyProviderDefaults, orDefault, defaultProviderTimeout, defaultProviderMaxRetries,
      Duration.second]

theorem get_eq_none_of_overrideProvider {other : String}
    (h : (overrideProvider lib env new providers other).lookup name = none) : providers.lookup name = none := by
  by_cases hne : name = other
  · subst hne
    rw [get_overrideProvider_self] at h
    split at h
    · cases h
    · rename_i hfound
      simp only [Bool.or_eq_true, not_or, Option.not_isSome_iff_eq_none] at hfound
      exact hfound.2
  · rwa [get_overrideProvider_ne hne] at h

theorem foldl_overrideProvider_eq_iff (hnames : names.Nodup) :
    names.foldl (overrideProvider lib env {}) providers =
        names.foldl (overrideProvider lib env (applyProviderDefaults {})) providers ↔
      ∀ name ∈ names, providers.lookup name = none → (providerVars lib env name).modified →
        (providerVars lib env name).timeout.isSome ∧ (providerVars lib env name).maxRetries.isSome := by
  constructor
  · intro heq name hname hnone hmod
    have hget := congrArg (List.lookup name) heq
    rw [get_foldl_overrideProvider_of_mem hnames hname, get_foldl_overrideProvider_of_mem hnames hname,
      get_overrideProvider_self, get_overrideProvider_self, hnone, hmod, Bool.true_or, if_pos rfl, if_pos rfl] at hget
    exact fill_new_eq_iff.1 (Option.some.inj hget)
  · intro h
    clear hnames
    induction names generalizing providers with
    | nil => rfl
    | cons name names ih =>
      have hstep : overrideProvider lib env {} providers name =
          overrideProvider lib env (applyProviderDefaults {}) providers name := by
        unfold overrideProvider
        dsimp only
        split
        · rename_i hread
          refine Table.upsert_congr ?_
          rcases hget : providers.lookup name with _ | p
          · rw [hget, Option.isSome_none, Bool.or_false] at hread
            exact fill_new_eq_iff.2 (h name (List.mem_cons_self ..) hget hread)
          · rfl
        · rfl
      rw [List.foldl_cons, List.foldl_cons, hstep]
      exact ih fun other hother hnone =>
        h other (List.mem_cons_of_mem _ hother) (get_eq_none_of_overrideProvider hnone)

theorem documented_eq_iff (file : Config) :
    applyEnvOverrides lib env (applyDefaults file) = documented lib env file ↔ Complete lib env file := by
  have hnone : ∀ name, (applyDefaults file).providers.lookup name = none ↔ file.providers.lookup name = none := by
    intro name
    rw [applyDefaults, lookup_map_defaults, Option.map_eq_none_iff]
  have hproviders := @foldl_overrideProvider_eq_iff lib env (applyDefaults file).providers envProviders (by decide)
  simp only [hnone] at hproviders
  unfold Complete
  rw [← hproviders, documented_eq]
  refine ⟨congrArg Config.providers, fun h => ?_⟩
  rw [← h]
  rfl

/-! ### The order of defaults and environment -/

theorem setting_text_ne (name : String) : setting env some name ≠ some "" := by
  unfold setting
  split
  · nofun
  · rename_i h
    exact fun he => h (Option.some.inj he)

theorem orDefault_self {α : Type} [DecidableEq α] (zero value : α) : orDefault zero zero value = value := by
  unfold orDefault
  split
  · exact Eq.symm ‹_›
  · rfl

theorem orDefault_getD {α : Type} [DecidableEq α] {zero default value : α} {set : Option α} (h : set ≠ some zero) :
    orDefault zero default (set.getD value) = set.getD (orDefault zero default value) := by
  cases set with
  | none => rfl
  | some a => exact if_neg fun ha => h (congrArg some ha)

theorem orDefault_override {α : Type} [DecidableEq α] {parse : String → Option α} {name : String}
    {zero default value : α} (h : setting env parse name ≠ some zero) :
    orDefault zero default (override env parse name value) = override env parse name (orDefault zero default value) :=
  orDefault_getD h

theorem orDefault_override_text {name default value : String} :
    orDefault "" default (override env some name value) = override env some name (orDefault "" default value) :=
  orDefault_override (setting_text_ne name)

/-- A zero from the environment stands, while a zero in the file is a default asked for. Where the environment sets
no number to zero, the documented configuration is also the one that applies the defaults last. -/
theorem documented_eq_defaults_last (hduration : ∀ name, setting env lib.parseDuration name ≠ some 0)
    (hint : ∀ name, setting env lib.atoi name ≠ some 0) (hfloat : ∀ name, setting env lib.parseFloat name ≠ some 0)
    (file : Config) : documented lib env file = applyDefaults (applyEnvOverrides lib env file) := by
  have hfill : ∀ name p, applyProviderDefaults ((providerVars lib env name).fill p) =
      (providerVars lib env name).fill (applyProviderDefaults p) := by
    intro name p
    simp only [applyProviderDefaults, ProviderVars.fill, ProviderConfig.mk.injEq, true_and]
    exact ⟨orDefault_getD (hduration _), orDefault_getD (hint _)⟩
  have hproviders : (envProviders.foldl (applyProviderEnvOverrides lib env) file.providers).map
      (fun entry => (entry.1, applyProviderDefaults entry.2)) = (documented lib env file).providers := by
    rw [documented_providers]
    refine (List.foldl_hom _ fun providers name => ?_).symm
    unfold applyProviderEnvOverrides overrideProvider
    dsimp only
    rw [lookup_map_defaults, Option.isSome_map]
    split
    · exact Table.upsert_map (h := fun entry => (entry.1, applyProviderDefaults entry.2)) (by rw [hfill]; rfl)
        (fun _ _ => Iff.rfl) fun p _ => by rw [hfill]; rfl
    · rfl
  rw [documented_eq, ← documented_providers, ← hproviders]
  simp only [applyDefaults, applyEnvOverrides, applyProxyDefaults, overrideProxy, applyPolicyDefaults, overridePolicy,
    applyEvidenceDefaults, overrideEvidence, applyTelemetryDefaults, overrideTelemetry,
    orDefault_override_text, orDefault_override (hduration _), orDefault_override (hint _),
    orDefault_override (hfloat _), orDefault_self]

/-! ## The documented sequence -/

/-- For every library, environment, file and result of parsing it: each provider of the documented configuration has the
timeout and the retry count of the environment, else of the file, else the default; and the code loads the documented
configuration, when it is valid, exactly when the file with the defaults is then valid by itself and the environment
completes every provider it creates. -/
theorem loadConfigWithEnvOverrides_documented_iff (lib : Stdlib) (env : String → String) (path : String)
    (source : Source) :
    (∀ file name p, (documented lib env file).providers.lookup name = some p → Layered lib env file name p) ∧
    ((∀ cfg, loadConfigWithEnvOverrides lib env path source = .ok cfg ↔
        ∃ file, source = .parsed file ∧ validate lib (documented lib env file) = [] ∧
          cfg = documented lib env file) ↔
      ∀ file, source = .parsed file → validate lib (documented lib env file) = [] →
        validate lib (applyDefaults file) = [] ∧ Complete lib env file) := by
  refine ⟨fun file name p h => layered_of_documented h, ?_⟩
  constructor
  · intro h file hsource hvalid
    obtain ⟨file', hsource', hfile, -, heq⟩ :=
      (loadConfigWithEnvOverrides_eq_ok lib env).1 ((h _).2 ⟨file, hsource, hvalid, rfl⟩)
    rw [hsource] at hsource'
    cases hsource'
    exact ⟨hfile, (documented_eq_iff file).1 heq.symm⟩
  · intro h cfg
    rw [loadConfigWithEnvOverrides_eq_ok]
    constructor
    · rintro ⟨file, hsource, -, hvalid, rfl⟩
      rw [← validate_documented] at hvalid
      exact ⟨file, hsource, hvalid, (documented_eq_iff file).2 (h file hsource hvalid).2⟩
    · rintro ⟨file, hsource, hvalid, rfl⟩
      obtain ⟨hfile, hcomplete⟩ := h file hsource hvalid
      rw [validate_documented] at hvalid
      exact ⟨file, hsource, hfile, hvalid, ((documented_eq_iff file).2 hcomplete).symm⟩

end

/-- An environment that sets the base URL of one provider. -/
def anthropicURL (name : String) : String :=
  if name = "MERCATOR_PROVIDERS_ANTHROPIC_BASE_URL" then "https://api.anthropic.com/v1" else ""

def openaiOnly : Config where
  providers := [("openai", { baseURL := "https://api.openai.com/v1" })]

/-- A file without providers, which the environment completes, is refused. Next to a provider of the file, the one of
the environment is accepted without a timeout and retries. -/
theorem environment_completes_nothing :
    (validate plain (documented plain anthropicURL {}) = [] ∧
      (loadConfigWithEnvOverrides plain anthropicURL "config.yaml" (.parsed {})).toOption.isNone) ∧
    (validate plain (documented plain anthropicURL openaiOnly) = [] ∧
      (documented plain anthropicURL openaiOnly).providers.lookup "anthropic" =
        some { baseURL := "https://api.anthropic.com/v1", timeout := 60 * Duration.second, maxRetries := 3 } ∧
      (loadConfigWithEnvOverrides plain anthropicURL "config.yaml" (.parsed openaiOnly)).toOption.map
          (fun cfg => cfg.providers.lookup "anthropic") =
        some (some { baseURL := "https://api.anthropic.com/v1", timeout := 0, maxRetries := 0 })) := by
  decide +kernel

theorem documented_openai_eq_defaults_last :
    documented plain anthropicURL openaiOnly = applyDefaults (applyEnvOverrides plain anthropicURL openaiOnly) :=
  documented_eq_defaults_last (fun _ => by simp [setting, plain]) (fun _ => by simp [setting, plain])
    (fun _ => by simp [setting, plain]) openaiOnly

/-- A configuration that was loaded is loaded as it is from a file that parses to it. -/
theorem loadConfig_reload (lib : Stdlib) (path path' : String) (source : Source) (cfg : Config)
    (h : loadConfig lib path source = .ok cfg) : loadConfig lib path' (.parsed cfg) = .ok cfg := by
  obtain ⟨file, -, hvalid, rfl⟩ := (loadConfig_eq_ok lib).1 h
  have hsame := applyDefaults_idempotent file
  exact (loadConfig_eq_ok lib).2 ⟨_, rfl, hsame.symm ▸ hvalid, hsame.symm⟩

theorem loadConfig_reload_openai :
    ∃ cfg, loadConfig plain "config.yaml" (.parsed openaiOnly) = .ok cfg ∧
      loadConfig plain "copy.yaml" (.parsed cfg) = .ok cfg :=
  ⟨_, rfl, loadConfig_reload plain "config.yaml" "copy.yaml" (.parsed openaiOnly) _ rfl⟩

end Jupiter.Config
