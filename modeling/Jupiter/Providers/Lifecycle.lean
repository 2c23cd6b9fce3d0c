/-
`pkg/providerfactory`: building providers, and the manager that holds them.

A provider is known by the number of providers built before it. Closing one closes a channel, so that a second `Close`
of it panics: the calls return `none` then. `created` and `closes` are not in the source. They record how many
providers have been built, and every call of `Close`.
-/
import Jupiter.Lib.Machine
import Jupiter.Lib.Table

namespace Jupiter.Providers

open Jupiter.Lib

/-! ## Building a provider -/

/-- `providers.ProviderConfig`, without the durations, which are handed on. -/
structure ProviderConfig where
  name : String := ""
  type : String := ""
  baseURL : String := ""
  apiKey : String := ""
  maxRetries : Int := 0
  maxIdleConns : Int := 0
  maxIdleConnsPerHost : Int := 0

inductive ProviderError
  /-- A `ConfigError`. -/
  | config (provider field message : String)
  /-- A `ConfigError` for the field `type`: `unsupported provider type: %q (supported: openai, anthropic, generic)`. -/
  | unsupportedType (provider providerType : String)
  /-- `failed to create provider %q: %w`. -/
  | create (provider : String) (err : ProviderError)
  /-- `failed to add provider %q: %w`. -/
  | add (provider : String) (err : ProviderError)
  /-- `provider %q not found`. -/
  | notFound (provider : String)
  /-- `failed to load %d provider(s)`. -/
  | load (failed : Nat)

namespace ProviderConfig

def withDefaults (config : ProviderConfig) (retries idle idlePerHost : Int) : ProviderConfig :=
  { config with
    maxRetries := if config.maxRetries = 0 then retries else config.maxRetries
    maxIdleConns := if config.maxIdleConns = 0 then idle else config.maxIdleConns
    maxIdleConnsPerHost := if config.maxIdleConnsPerHost = 0 then idlePerHost else config.maxIdleConnsPerHost }

/-- `NewProvider` of the adapters that need an API key: the configuration of the provider built. -/
def newKeyedProvider (adapter defaultURL service : String) (config : ProviderConfig) :
    Except ProviderError ProviderConfig :=
  if config.name = "" then .error (.config adapter "name" "provider name is required")
  else if config.apiKey = "" then
    .error (.config config.name "api_key" ("API key is required for " ++ service))
  else
    .ok ({ config with baseURL := if config.baseURL = "" then defaultURL else config.baseURL }.withDefaults 3 100 10)

def newOpenAI : ProviderConfig → Except ProviderError ProviderConfig :=
  newKeyedProvider "openai" "https://api.openai.com/v1" "OpenAI"

def newAnthropic : ProviderConfig → Except ProviderError ProviderConfig :=
  newKeyedProvider "anthropic" "https://api.anthropic.com" "Anthropic"

def newGeneric (config : ProviderConfig) : Except ProviderError ProviderConfig :=
  if config.name = "" then .error (.config "generic" "name" "provider name is required")
  else if config.baseURL = "" then
    .error (.config config.name "base_url" "base URL is required for generic provider")
  else
    newOpenAI
      ({ config with apiKey := if config.apiKey = "" then "not-required" else config.apiKey }.withDefaults 1 10 5)

def inferProviderType (name : String) : String :=
  if name = "openai" then "openai" else if name = "anthropic" then "anthropic" else "generic"

def providerType (config : ProviderConfig) : String :=
  if config.type = "" then inferProviderType config.name else config.type

/-- `NewProvider`, and `NewProviderWithHealthCheck`, whose errors are the same. -/
def newProvider (config : ProviderConfig) : Except ProviderError ProviderConfig :=
  let typed := { config with type := config.providerType }
  if config.providerType = "openai" then (newOpenAI typed).mapError (.create config.name)
  else if config.providerType = "anthropic" then (newAnthropic typed).mapError (.create config.name)
  else if config.providerType = "generic" then (newGeneric typed).mapError (.create config.name)
  else .error (.unsupportedType config.name config.providerType)

/-- A known type, a name, and the key or the address that the type needs. -/
def Buildable (config : ProviderConfig) : Prop :=
  config.name ≠ "" ∧ ((config.providerType = "openai" ∨ config.providerType = "anthropic") ∧ config.apiKey ≠ "" ∨
    config.providerType = "generic" ∧ config.baseURL ≠ "")

theorem newKeyedProvider_ok {adapter url service : String} {config : ProviderConfig} :
    (∃ built, newKeyedProvider adapter url service config = .ok built) ↔ config.name ≠ "" ∧ config.apiKey ≠ "" := by
  unfold newKeyedProvider
  split
  · simp_all
  · split <;> simp_all

theorem newGeneric_ok {config : ProviderConfig} :
    (∃ built, newGeneric config = .ok built) ↔ config.name ≠ "" ∧ config.baseURL ≠ "" := by
  unfold newGeneric
  split
  · simp_all
  · split
    · simp_all
    · refine newKeyedProvider_ok.trans ?_
      have hkey : (if config.apiKey = "" then "not-required" else config.apiKey) ≠ "" := by
        split
        · decide +kernel
        · assumption
      simp_all [withDefaults]

theorem mapError_ok {r : Except ProviderError ProviderConfig} {f : ProviderError → ProviderError} :
    (∃ built, r.mapError f = .ok built) ↔ ∃ built, r = .ok built := by
  cases r <;> simp [Except.mapError]

theorem newProvider_ok (config : ProviderConfig) : (∃ built, newProvider config = .ok built) ↔ config.Buildable := by
  unfold newProvider Buildable
  dsimp only
  split
  · rename_i htype
    rw [mapError_ok]
    refine newKeyedProvider_ok.trans ?_
    simp [htype]
  · split
    · rename_i htype
      rw [mapError_ok]
      refine newKeyedProvider_ok.trans ?_
      simp [htype]
    · split
      · rename_i htype
        rw [mapError_ok, newGeneric_ok]
        simp [htype]
      · simp_all

end ProviderConfig

open ProviderConfig

/-! ## The manager -/

structure Provider where
  id : Nat
  config : ProviderConfig

structure Manager where
  providers : List (String × Provider) := []
  created : Nat := 0
  closes : List Nat := []

namespace Manager

/-- `Close` of a provider, and its removal from the map. -/
def drop (m : Manager) (name : String) (p : Provider) : Option Manager :=
  if m.closes.contains p.id then none
  else some { m with providers := Table.erase name m.providers, closes := p.id :: m.closes }

/-- A provider that is there is closed before the new one is built. -/
def clear (m : Manager) (name : String) : Option Manager :=
  match m.providers.lookup name with
  | some existing => m.drop name existing
  | none => some m

def store (m : Manager) (name : String) (config : ProviderConfig) : Manager :=
  { m with providers := Table.upsert name (fun _ => ⟨m.created, config⟩) m.providers, created := m.created + 1 }

def addProvider (m : Manager) (config : ProviderConfig) : Option (Except ProviderError Unit × Manager) :=
  (m.clear config.name).map fun m =>
    match newProvider config with
    | .error err => (.error (.add config.name err), m)
    | .ok built => (.ok (), m.store config.name built)

def removeProvider (m : Manager) (name : String) : Option (Except ProviderError Unit × Manager) :=
  match m.providers.lookup name with
  | none => some (.error (.notFound name), m)
  | some provider => (m.drop name provider).map fun m => (.ok (), m)

def loadEach : List ProviderConfig → Nat → Manager → Option (Nat × Manager)
  | [], errors, m => some (errors, m)
  | config :: configs, errors, m =>
    (m.addProvider config).bind fun
      | (.error _, m) => loadEach configs (errors + 1) m
      | (.ok _, m) => loadEach configs errors m

def loadFromConfig (m : Manager) (configs : List ProviderConfig) : Option (Except ProviderError Unit × Manager) :=
  (loadEach configs 0 m).map fun (errors, m) => (if errors > 0 then .error (.load errors) else .ok (), m)

inductive Call
  | addProvider (config : ProviderConfig)
  | removeProvider (name : String)
  | loadFromConfig (configs : List ProviderConfig)

def add (m : Manager) (config : ProviderConfig) : Option Manager := (m.addProvider config).map Prod.snd

def step (m : Manager) : Call → Option Manager
  | .addProvider config => m.add config
  | .removeProvider name => (m.removeProvider name).map Prod.snd
  | .loadFromConfig configs => (m.loadFromConfig configs).map Prod.snd

/-! ## What is closed -/

def ids (m : Manager) : List Nat := m.providers.map (·.2.id)

/-- Every provider that was built is in the map or was closed, and not both. -/
structure Accounted (m : Manager) : Prop where
  keys : (Table.keys m.providers).Nodup
  ledger : (m.closes ++ m.ids).Perm (List.range m.created)

variable {m : Manager} {name : String} {p : Provider} {config : ProviderConfig}

theorem accounted_empty : Accounted {} := ⟨List.nodup_nil, .refl _⟩

theorem Accounted.closedOnce (h : m.Accounted) {id : Nat} (hid : id < m.created) (hleft : id ∉ m.ids) :
    m.closes.count id = 1 := by
  have hcount := h.ledger.count_eq id
  rw [List.count_append, List.count_eq_zero.2 hleft,
    List.count_eq_one_of_mem List.nodup_range (List.mem_range.2 hid)] at hcount
  exact hcount

theorem Accounted.drop (h : m.Accounted) (hp : m.providers.lookup name = some p) :
    ∃ m', m.drop name p = some m' ∧ m'.Accounted ∧ m'.providers.lookup name = none ∧ p.id ∈ m'.closes := by
  have hmem := Table.mem_of_lookup hp
  have hopen : ¬ m.closes.contains p.id = true := by
    rw [List.contains_iff_mem]
    intro hclosed
    have hnodup := h.ledger.nodup_iff.2 List.nodup_range
    exact (List.nodup_append.1 hnodup).2.2 p.id hclosed p.id (List.mem_map.2 ⟨_, hmem, rfl⟩) rfl
  refine ⟨_, if_neg hopen, ⟨h.keys.sublist (List.filter_sublist.map _), ?_⟩, Table.lookup_erase_self ..,
    List.mem_cons_self⟩
  refine List.Perm.trans ?_ h.ledger
  have hids := (Table.cons_erase_perm h.keys hmem).map fun x => x.2.id
  exact List.perm_middle.symm.trans (hids.append_left m.closes)

theorem Accounted.store (h : m.Accounted) (hfree : m.providers.lookup name = none) (config : ProviderConfig) :
    (m.store name config).Accounted := by
  refine ⟨Table.nodup_upsert h.keys, ?_⟩
  have hids : (m.store name config).ids = m.ids ++ [m.created] := by
    rw [ids, Manager.store, Table.upsert_of_lookup_eq_none hfree, List.map_append]
    rfl
  rw [hids, ← List.append_assoc]
  show (m.closes ++ m.ids ++ [m.created]).Perm (List.range (m.created + 1))
  rw [List.range_succ]
  exact h.ledger.append_right _

theorem Accounted.clear (h : m.Accounted) (name : String) :
    ∃ m', m.clear name = some m' ∧ m'.Accounted ∧ m'.providers.lookup name = none ∧
      (m.providers.lookup name = none → m' = m) ∧ ∀ p, m.providers.lookup name = some p → p.id ∈ m'.closes := by
  unfold Manager.clear
  cases hp : m.providers.lookup name with
  | none => exact ⟨m, rfl, h, hp, fun _ => rfl, fun _ hp => by cases hp⟩
  | some p =>
    obtain ⟨m', hdrop, hacc, hnone, hclosed⟩ := h.drop hp
    exact ⟨m', hdrop, hacc, hnone, fun h => (by cases h), fun q hq => by cases hq; exact hclosed⟩

theorem Accounted.add (h : m.Accounted) (config : ProviderConfig) : ∃ m', m.add config = some m' ∧ m'.Accounted := by
  obtain ⟨m', hclear, hacc, hfree, -⟩ := h.clear config.name
  unfold Manager.add addProvider
  rw [hclear, Option.map_some, Option.map_some]
  cases newProvider config with
  | error err => exact ⟨m', rfl, hacc⟩
  | ok built => exact ⟨_, rfl, hacc.store hfree built⟩

theorem loadEach_eq_run : ∀ (configs : List ProviderConfig) (errors : Nat) (m : Manager),
    (loadEach configs errors m).map Prod.snd = run add m configs
  | [], _, _ => rfl
  | config :: configs, errors, m => by
    rw [run_cons, loadEach, Manager.add]
    cases hadd : m.addProvider config with
    | none => rfl
    | some r =>
      obtain ⟨r, m'⟩ := r
      cases r <;> exact loadEach_eq_run configs _ m'

theorem step_loadFromConfig (m : Manager) (configs : List ProviderConfig) :
    m.step (.loadFromConfig configs) = run add m configs := by
  rw [← loadEach_eq_run configs 0, step, loadFromConfig, Option.map_map]
  rfl

theorem Accounted.step (h : m.Accounted) (call : Call) : ∃ m', m.step call = some m' ∧ m'.Accounted := by
  cases call with
  | addProvider config => exact h.add config
  | removeProvider name =>
    show ∃ m', (m.removeProvider name).map Prod.snd = some m' ∧ _
    cases hp : m.providers.lookup name with
    | none => exact ⟨m, by simp [removeProvider, hp], h⟩
    | some p =>
      obtain ⟨m', hdrop, hacc, -⟩ := h.drop hp
      exact ⟨m', by simp [removeProvider, hp, hdrop], hacc⟩
  | loadFromConfig configs =>
    rw [step_loadFromConfig]
    exact exists_run h (fun m config hm => hm.add config) configs

/-! ## Failed updates -/

/-- If `AddProvider` returns an error, the map is what it was, and the provider under the name is not closed. -/
def KeepsOld (m : Manager) (config : ProviderConfig) : Prop :=
  ∀ err m', m.addProvider config = some (.error err, m') →
    m'.providers = m.providers ∧ ∀ p, m.providers.lookup config.name = some p → p.id ∉ m'.closes

/-- The provider can be built, or there is none of its name to be replaced. -/
def Harmless (m : Manager) (config : ProviderConfig) : Prop :=
  config.Buildable ∨ m.providers.lookup config.name = none

/-- A condition on `AddProvider` is one on every call, `LoadFromConfig` being a run of it. -/
def Call.Adds (ok : Manager → ProviderConfig → Prop) (m : Manager) : Call → Prop
  | .addProvider config => ok m config
  | .removeProvider _ => True
  | .loadFromConfig configs => Meets add ok m configs

theorem Accounted.keepsOld_iff (h : m.Accounted) (config : ProviderConfig) : m.KeepsOld config ↔ m.Harmless config := by
  obtain ⟨m', hclear, -, -, hsame, hclosed⟩ := h.clear config.name
  unfold KeepsOld Harmless
  rw [← newProvider_ok, addProvider, hclear, Option.map_some]
  cases hnew : newProvider config with
  | ok built => exact iff_of_true (fun err m'' heq => by cases heq) (.inl ⟨built, rfl⟩)
  | error err =>
    constructor
    · intro hkeeps
      refine .inr (Option.eq_none_iff_forall_not_mem.2 fun p hp => ?_)
      exact (hkeeps _ m' rfl).2 p hp (hclosed p hp)
    · rintro (⟨built, hbuilt⟩ | hnone) err' m'' heq
      · cases hbuilt
      · cases heq
        rw [hsame hnone]
        refine ⟨rfl, fun p hp => ?_⟩
        rw [hnone] at hp
        cases hp

/-- No sequence of calls panics, every provider that left the map was closed exactly once, and every failed update keeps
the old provider exactly when every update that cannot be built is for a name without a provider. -/
theorem failed_updates_keep_old_iff (calls : List Call) :
    ∃ m, run step {} calls = some m ∧ (∀ id < m.created, id ∉ m.ids → m.closes.count id = 1) ∧
      (Meets step (Call.Adds KeepsOld) {} calls ↔ Meets step (Call.Adds Harmless) {} calls) := by
  obtain ⟨m, hrun, hacc⟩ := exists_run accounted_empty (fun m call hm => hm.step call) calls
  refine ⟨m, hrun, fun id => hacc.closedOnce, meets_congr accounted_empty (fun m call hm _ => hm.step call) ?_ calls⟩
  intro m call hm
  cases call with
  | addProvider config => exact hm.keepsOld_iff config
  | removeProvider name => exact Iff.rfl
  | loadFromConfig configs =>
    exact meets_congr hm (fun m config hm _ => hm.add config) (fun m config hm => hm.keepsOld_iff config) configs

/-- An update without an API key takes the provider away and closes it. -/
theorem failed_update_closes_old :
    ∃ m m' err p, addProvider {} { name := "openai", apiKey := "key" } = some (.ok (), m) ∧
      m.providers = [("openai", p)] ∧ m.addProvider { name := "openai" } = some (.error err, m') ∧
      m'.providers = [] ∧ m'.closes = [p.id] := by
  refine ⟨_, _, _, _, rfl, rfl, rfl, rfl, rfl⟩

/-! ## Closing the manager -/

/-- `Manager.Close`, the map being read in the order given. -/
def close : List (String × Provider) → Manager → Option Manager
  | [], m => some { m with providers := [] }
  | x :: range, m =>
    if m.closes.contains x.2.id then none else close range { m with closes := x.2.id :: m.closes }

theorem close_eq (range : List (String × Provider)) (m : Manager)
    (h : (m.closes ++ range.map (·.2.id)).Nodup) :
    close range m = some { m with providers := [], closes := (range.map (·.2.id)).reverse ++ m.closes } := by
  induction range generalizing m with
  | nil => rfl
  | cons x range ih =>
    have hnodup : (x.2.id :: (m.closes ++ range.map (·.2.id))).Nodup := List.perm_middle.nodup_iff.1 h
    have hopen := fun hclosed => (List.nodup_cons.1 hnodup).1 (List.mem_append_left _ hclosed)
    rw [close, if_neg (by simpa using hopen), ih { m with closes := x.2.id :: m.closes } hnodup]
    simp

/-- Whatever the calls before it and the order of the map, `Close` does not panic, and after it every provider that was
ever built has been closed exactly once. -/
theorem close_closes_all (calls : List Call) :
    ∃ m, run step {} calls = some m ∧ ∀ range, range.Perm m.providers →
      ∃ m', close range m = some m' ∧ m'.providers = [] ∧ ∀ id < m'.created, m'.closes.count id = 1 := by
  obtain ⟨m, hrun, hacc⟩ := exists_run accounted_empty (fun m call hm => hm.step call) calls
  refine ⟨m, hrun, fun range hperm => ?_⟩
  have hids : (range.map (·.2.id)).Perm m.ids := hperm.map _
  have hledger := (hids.append_left m.closes).trans hacc.ledger
  have hclosed : Accounted { m with providers := [], closes := (range.map (·.2.id)).reverse ++ m.closes } := by
    refine ⟨List.nodup_nil, .trans ?_ hledger⟩
    rw [ids, List.map_nil, List.append_nil]
    exact ((List.reverse_perm _).append_right m.closes).trans List.perm_append_comm
  exact ⟨_, close_eq range m (hledger.nodup_iff.2 List.nodup_range), rfl,
    fun id hid => hclosed.closedOnce hid List.not_mem_nil⟩

end Manager

end Jupiter.Providers
