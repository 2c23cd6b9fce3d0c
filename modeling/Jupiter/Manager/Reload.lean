/-
`LoadPolicies` and `ReloadPolicies` of `pkg/policy/manager/manager.go`: a list of policies takes effect as a whole or
not at all.

What the loader returns and what the validator says of each policy are inputs of a call. Both calls hold the manager's
lock, so a run is a sequence of calls.
-/
import Jupiter.Manager.Registry

namespace Jupiter.Manager

open Jupiter.Go

structure ValidationError where
  policyID : String
  message : String
  deriving DecidableEq

/-- The error of a call. A list of one validation error is returned as that error. -/
inductive ManagerError where
  | load (message : String)
  | validation (errors : List ValidationError)
  | registry (e : RegistryError)
  deriving DecidableEq

structure ValidationConfig where
  enabled : Bool
  strict : Bool

def validateAll (strict : Bool) (validate : Policy → Option String) :
    List Policy → List ValidationError → List ValidationError
  | [], errors => errors
  | policy :: policies, errors =>
    match validate policy with
    | none => validateAll strict validate policies errors
    | some message =>
      let errors := errors ++ [{ policyID := policy.name, message }]
      if strict then errors else validateAll strict validate policies errors

/-- `validatePolicies`, up to the warnings it logs. -/
def validatePolicies (config : ValidationConfig) (validate : Policy → Option String) (policies : List Policy) :
    Option ManagerError :=
  if config.enabled then
    match validateAll config.strict validate policies [] with
    | [] => none
    | errors => some (.validation errors)
  else none

/-- The state of `DefaultPolicyManager` that loading changes. -/
structure PolicyManager where
  registry : PolicyRegistry
  lastLoadTime : Time := 0
  lastLoadError : Option ManagerError := none
  lastGoodPolicies : List Policy := []

def newPolicyManager (now : Time) : PolicyManager := { registry := { loadTime := now } }

/-- What a call finds: the outcome of `loadPoliciesFromSource`, where a nil list is `none`, and the verdict of the
validator on each policy. -/
structure Source where
  loaded : Except String (Option (List Policy))
  validate : Policy → Option String

namespace PolicyManager

section Calls

variable (sha256 : Digest) (config : ValidationConfig)

/-- The common part of `LoadPolicies` and `ReloadPolicies`; `restore` says whether the last good policies are given
back to a registry that refused the new ones. -/
def update (restore : Bool) (m : PolicyManager) (now : Time) (source : Source) :
    Option ManagerError × PolicyManager :=
  match source.loaded with
  | .error message => (some (.load message), { m with lastLoadError := some (.load message) })
  | .ok policies =>
    match validatePolicies config source.validate (policies.getD []) with
    | some e => (some e, { m with lastLoadError := some e })
    | none =>
      match m.registry.replace sha256 now policies with
      | (some e, registry) =>
        let registry := if restore ∧ 0 < m.lastGoodPolicies.length then
            (registry.replace sha256 now (some m.lastGoodPolicies)).2
          else registry
        (some (.registry e), { m with registry, lastLoadError := some (.registry e) })
      | (none, registry) =>
        (none, { registry, lastLoadTime := now, lastLoadError := none, lastGoodPolicies := policies.getD [] })

def loadPolicies (m : PolicyManager) (now : Time) (source : Source) : Option ManagerError × PolicyManager :=
  m.update sha256 config false now source

def reloadPolicies (m : PolicyManager) (now : Time) (source : Source) : Option ManagerError × PolicyManager :=
  m.update sha256 config true now source

end Calls

end PolicyManager

/-! ## What is accepted -/

theorem validateAll_eq_nil {strict : Bool} {validate : Policy → Option String} (policies : List Policy)
    {errors : List ValidationError} :
    validateAll strict validate policies errors = [] ↔ errors = [] ∧ ∀ policy ∈ policies, validate policy = none := by
  induction policies generalizing errors with
  | nil => simp [validateAll]
  | cons policy policies ih =>
    simp only [validateAll]
    cases hv : validate policy with
    | none => simp [ih, hv]
    | some message =>
      cases strict with
      | true => simp [hv]
      | false => simp [ih, hv]

theorem validatePolicies_eq_none {config : ValidationConfig} {validate : Policy → Option String}
    {policies : List Policy} :
    validatePolicies config validate policies = none ↔
      (config.enabled = true → ∀ policy ∈ policies, validate policy = none) := by
  unfold validatePolicies
  cases config.enabled with
  | false => simp
  | true =>
    have hnil := @validateAll_eq_nil config.strict validate policies []
    simp only [if_true, true_implies]
    constructor
    · intro h
      split at h
      · next hempty => exact (hnil.1 hempty).2
      · cases h
    · intro h
      rw [hnil.2 ⟨rfl, h⟩]

/-- The policies of a source that pass every check between the file system and the registry. -/
def Source.accepted (config : ValidationConfig) (source : Source) : Option (List Policy) :=
  match source.loaded with
  | .ok (some policies) =>
    if validatePolicies config source.validate policies = none ∧ ¬ ∃ policy ∈ policies, policy.name = "" then
      some policies
    else none
  | _ => none

theorem Source.accepted_eq_some {config : ValidationConfig} {source : Source} {policies : List Policy} :
    source.accepted config = some policies ↔
      source.loaded = .ok (some policies) ∧ validatePolicies config source.validate policies = none ∧
        ¬ ∃ policy ∈ policies, policy.name = "" := by
  unfold Source.accepted
  split
  · next loaded hloaded =>
    rw [hloaded]
    constructor
    · intro h
      split at h
      · next hpass => cases h; exact ⟨rfl, hpass⟩
      · cases h
    · rintro ⟨heq, hpass⟩
      cases heq
      exact if_pos hpass
  · next hother => exact ⟨nofun, fun h => (hother _ h.1).elim⟩

/-! ## Runs -/

inductive LoadCall where
  | load (now : Time) (source : Source)
  | reload (now : Time) (source : Source)

def LoadCall.source : LoadCall → Source
  | .load _ source => source
  | .reload _ source => source

namespace PolicyManager

variable (sha256 : Digest) (config : ValidationConfig)

def call (m : PolicyManager) : LoadCall → Option ManagerError × PolicyManager
  | .load now source => m.loadPolicies sha256 config now source
  | .reload now source => m.reloadPolicies sha256 config now source

def calls (m : PolicyManager) (cs : List LoadCall) : PolicyManager :=
  cs.foldl (fun m c => (m.call sha256 config c).2) m

/-- The list of the last call of a run that returned no error; `policies` if there was none. -/
def mostRecent : PolicyManager → List LoadCall → List Policy → List Policy
  | _, [], policies => policies
  | m, c :: cs, policies =>
    match m.call sha256 config c, c.source.loaded with
    | (none, m'), .ok (some loaded) => mostRecent m' cs loaded
    | (_, m'), _ => mostRecent m' cs policies

/-! ## All or nothing -/

structure Holds (m : PolicyManager) (policies : List Policy) : Prop where
  good : m.lastGoodPolicies = policies
  map : m.registry.policies = PolicyRegistry.ofList policies
  version : policies ≠ [] → m.registry.version = PolicyRegistry.versionOf sha256 (PolicyRegistry.ofList policies)
  named : ¬ ∃ policy ∈ policies, policy.name = ""

def SamePolicies (m m' : PolicyManager) : Prop :=
  m'.registry.policies = m.registry.policies ∧ m'.registry.version = m.registry.version

variable {sha256 config}

theorem Holds.restore {m : PolicyManager} {policies : List Policy} (h : Holds sha256 m policies) (now : Time)
    (hne : 0 < m.lastGoodPolicies.length) :
    (m.registry.replace sha256 now (some m.lastGoodPolicies)).2.policies = m.registry.policies ∧
      (m.registry.replace sha256 now (some m.lastGoodPolicies)).2.version = m.registry.version := by
  rw [h.good] at hne ⊢
  simp only [PolicyRegistry.replace, if_neg h.named]
  exact ⟨h.map.symm, (h.version (List.length_pos_iff.1 hne)).symm⟩

theorem update_of_accepted {source : Source} {policies : List Policy}
    (haccepted : source.accepted config = some policies) (m : PolicyManager) (restore : Bool) (now : Time) :
    (m.update sha256 config restore now source).1 = none ∧
      Holds sha256 (m.update sha256 config restore now source).2 policies := by
  obtain ⟨hloaded, hvalid, hname⟩ := Source.accepted_eq_some.1 haccepted
  have hreplaced : m.registry.replace sha256 now (some policies) =
      (none, { policies := PolicyRegistry.ofList policies
               version := PolicyRegistry.versionOf sha256 (PolicyRegistry.ofList policies), loadTime := now }) := by
    simp only [PolicyRegistry.replace, if_neg hname]
  simp only [PolicyManager.update, hloaded, Option.getD_some, hvalid, hreplaced]
  exact ⟨trivial, rfl, rfl, fun _ => rfl, hname⟩

theorem accepted_of_update {m : PolicyManager} {restore : Bool} {now : Time} {source : Source}
    (h : (m.update sha256 config restore now source).1 = none) : ∃ policies, source.accepted config = some policies := by
  unfold PolicyManager.update at h
  split at h
  · cases h
  · next loaded hloaded =>
    split at h
    · cases h
    · next hvalid =>
      cases loaded with
      | none => cases h
      | some policies =>
        by_cases hname : ∃ policy ∈ policies, policy.name = ""
        · simp only [PolicyRegistry.replace, if_pos hname] at h
          cases h
        · exact ⟨policies, Source.accepted_eq_some.2 ⟨hloaded, hvalid, hname⟩⟩

theorem Holds.update_of_refused {m : PolicyManager} {policies : List Policy} (h : Holds sha256 m policies)
    {source : Source} (hrefused : source.accepted config = none) (restore : Bool) (now : Time) :
    (∃ e, (m.update sha256 config restore now source).1 = some e) ∧
      SamePolicies m (m.update sha256 config restore now source).2 ∧
      Holds sha256 (m.update sha256 config restore now source).2 policies := by
  have hkeep : ∀ registry e, registry.policies = m.registry.policies → registry.version = m.registry.version →
      SamePolicies m { m with registry, lastLoadError := e } ∧
        Holds sha256 { m with registry, lastLoadError := e } policies :=
    fun registry e hp hv => ⟨⟨hp, hv⟩, ⟨h.good, hp.trans h.map, fun hne => hv.trans (h.version hne), h.named⟩⟩
  unfold PolicyManager.update
  split
  · exact ⟨⟨_, rfl⟩, hkeep m.registry _ rfl rfl⟩
  · next loaded hloaded =>
    split
    · exact ⟨⟨_, rfl⟩, hkeep m.registry _ rfl rfl⟩
    · next hvalid =>
      -- what is left to refuse is a nil list or a policy without a name, and the registry does so before it changes
      have hunchanged : ∃ e, m.registry.replace sha256 now loaded = (some e, m.registry) := by
        cases loaded with
        | none => exact ⟨_, rfl⟩
        | some policies' =>
          have hname : ∃ policy ∈ policies', policy.name = "" := by
            by_contra hname
            rw [Source.accepted_eq_some.2 ⟨hloaded, hvalid, hname⟩] at hrefused
            cases hrefused
          exact ⟨_, by simp only [PolicyRegistry.replace, if_pos hname]; rfl⟩
      obtain ⟨e, he⟩ := hunchanged
      rw [he]
      refine ⟨⟨_, rfl⟩, ?_⟩
      dsimp only
      split
      · next hr => exact hkeep _ _ (h.restore now hr.2).1 (h.restore now hr.2).2
      · exact hkeep _ _ rfl rfl

/-- A call fails and leaves policies and version alone, or it puts the loaded list in force. -/
theorem Holds.call {m : PolicyManager} {policies : List Policy} (h : Holds sha256 m policies) (c : LoadCall) :
    ((∃ e, (m.call sha256 config c).1 = some e) ∧ SamePolicies m (m.call sha256 config c).2 ∧
        Holds sha256 (m.call sha256 config c).2 policies) ∨
      ∃ loaded, c.source.loaded = .ok (some loaded) ∧ (m.call sha256 config c).1 = none ∧
        Holds sha256 (m.call sha256 config c).2 loaded := by
  cases haccepted : c.source.accepted config with
  | none =>
    left
    cases c with
    | load now source => exact h.update_of_refused haccepted false now
    | reload now source => exact h.update_of_refused haccepted true now
  | some loaded =>
    refine .inr ⟨loaded, (Source.accepted_eq_some.1 haccepted).1, ?_⟩
    cases c with
    | load now source => exact update_of_accepted haccepted m false now
    | reload now source => exact update_of_accepted haccepted m true now

theorem Holds.calls {m : PolicyManager} {policies : List Policy} (h : Holds sha256 m policies) (cs : List LoadCall) :
    Holds sha256 (m.calls sha256 config cs) (mostRecent sha256 config m cs policies) := by
  induction cs generalizing m policies with
  | nil => exact h
  | cons c cs ih =>
    rw [mostRecent]
    show Holds sha256 ((m.call sha256 config c).2.calls sha256 config cs) _
    rcases h.call c with ⟨⟨e, he⟩, -, hold⟩ | ⟨loaded, hloaded, hnone, hnew⟩
    · generalize m.call sha256 config c = result at he hold ⊢
      obtain ⟨r, m'⟩ := result
      cases he
      exact ih hold
    · generalize m.call sha256 config c = result at hnone hnew ⊢
      obtain ⟨r, m'⟩ := result
      cases hnone
      rw [hloaded]
      exact ih hnew

theorem newPolicyManager_holds (now : Time) : Holds sha256 (newPolicyManager now) [] :=
  ⟨rfl, rfl, fun hne => absurd rfl hne, by simp⟩

/-- After any run, a call that fails leaves the policies and the version as they were, and after every call a name
is mapped to the last policy of that name in the list loaded most recently. -/
theorem reload_atomic (sha256 : Digest) (config : ValidationConfig) (now : Time) (cs : List LoadCall) (c : LoadCall) :
    ((((newPolicyManager now).calls sha256 config cs).call sha256 config c).1.isSome →
      SamePolicies ((newPolicyManager now).calls sha256 config cs)
        (((newPolicyManager now).calls sha256 config cs).call sha256 config c).2) ∧
    ∀ name, ((newPolicyManager now).calls sha256 config (cs ++ [c])).registry.get name =
      PolicyRegistry.lastNamed name (mostRecent sha256 config (newPolicyManager now) (cs ++ [c]) []) := by
  constructor
  · intro hfailed
    rcases ((newPolicyManager_holds now).calls cs).call c with ⟨-, hsame, -⟩ | ⟨_, _, hnone, _⟩
    · exact hsame
    · rw [hnone] at hfailed
      cases hfailed
  · intro name
    have hholds : Holds sha256 ((newPolicyManager now).calls sha256 config (cs ++ [c])) _ :=
      (newPolicyManager_holds now).calls (cs ++ [c])
    rw [PolicyRegistry.get, hholds.map, PolicyRegistry.lookup_ofList]

def onePolicy (name : String) (verdict : Option String) : Source where
  loaded := .ok (some [{ name }])
  validate _ := verdict

theorem reload_atomic_refused :
    ((((newPolicyManager 0).calls id ⟨true, true⟩ [.load 1 (onePolicy "first" none)]).call id ⟨true, true⟩
        (.reload 2 (onePolicy "second" (some "invalid")))).1.isSome) ∧
      SamePolicies ((newPolicyManager 0).calls id ⟨true, true⟩ [.load 1 (onePolicy "first" none)])
        (((newPolicyManager 0).calls id ⟨true, true⟩ [.load 1 (onePolicy "first" none)]).call id ⟨true, true⟩
          (.reload 2 (onePolicy "second" (some "invalid")))).2 :=
  ⟨by decide, (reload_atomic id ⟨true, true⟩ 0 [.load 1 (onePolicy "first" none)]
    (.reload 2 (onePolicy "second" (some "invalid")))).1 (by decide)⟩

end PolicyManager

end Jupiter.Manager
