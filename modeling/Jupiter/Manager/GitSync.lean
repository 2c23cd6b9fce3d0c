/-
`ForceSync` and `RollbackToCommit` of `pkg/policy/manager/manager.go`: the repository moves first and the registry
follows.

The manager is one in git mode, so the check each method begins with passes. What the loader finds in a working tree
depends on the commit alone, but reading it may fail at any call.
-/
import Jupiter.Git.Repository
import Jupiter.Lib.Machine
import Jupiter.Manager.Reload

namespace Jupiter.Manager

open Jupiter.Go Jupiter.Lib Jupiter.Git

/-- A `DefaultPolicyManager` in git mode. -/
structure GitManager where
  gitRepo : Repository
  policies : PolicyManager

/-- What happens while the working tree is read: the time, and a failure of the file system. -/
structure Reading where
  now : Time
  readError : Option String := none

/-- The error of a git method: a text, or a text around the error of a reload. -/
inductive GitError where
  | plain (message : String)
  | wrap (before : String) (cause : ManagerError) (after : String)

/-- What `loadPoliciesFromSource` finds in the working tree of a commit. -/
def readSource (tree : SHA → Source) (sha : SHA) (reading : Reading) : Source :=
  match reading.readError with
  | some e => { tree sha with loaded := .error e }
  | none => tree sha

namespace GitManager

section Methods

variable (sha256 : Digest) (config : ValidationConfig) (tree : SHA → Source)

def reloadPolicies (m : GitManager) (reading : Reading) : Option ManagerError × GitManager :=
  let result := m.policies.reloadPolicies sha256 config reading.now (readSource tree m.gitRepo.head reading)
  (result.1, { m with policies := result.2 })

def rollbackToCommit (m : GitManager) (checkout : CheckoutEnv) (reading : Reading) (commitSHA : SHA) :
    Option GitError × GitManager :=
  match m.gitRepo.rollback checkout commitSHA with
  | (some e, gitRepo) => (some (.plain ("failed to rollback git repository: " ++ e)), { m with gitRepo })
  | (none, gitRepo) =>
    match reloadPolicies sha256 config tree { m with gitRepo } reading with
    | (some e, m') => (some (.wrap "failed to load policies after rollback: " e ""), m')
    | (none, m') => (none, m')

def forceSync (m : GitManager) (env : PullEnv) (reading : Reading) (checkout : CheckoutEnv) :
    Option GitError × GitManager :=
  match m.gitRepo.pull env with
  | (.error e, gitRepo) => (some (.plain ("failed to pull changes: " ++ e)), { m with gitRepo })
  | (.ok result, gitRepo) =>
    if result.hadChanges then
      match reloadPolicies sha256 config tree { m with gitRepo } reading with
      | (none, m') => (none, m')
      | (some e, m') =>
        match m'.gitRepo.rollback checkout result.fromSHA with
        | (some re, gitRepo) =>
          (some (.wrap "failed to reload policies: " e (" (rollback also failed: " ++ re ++ ")")), { m' with gitRepo })
        | (none, gitRepo) => (some (.wrap "failed to reload policies: " e ""), { m' with gitRepo })
    else (none, { m with gitRepo })

end Methods

/-! ## Runs -/

inductive SyncCall where
  | forceSync (env : PullEnv) (reading : Reading) (checkout : CheckoutEnv)
  | rollbackToCommit (checkout : CheckoutEnv) (reading : Reading) (commitSHA : SHA)

variable (sha256 : Digest) (config : ValidationConfig) (tree : SHA → Source)

def call (m : GitManager) : SyncCall → Option GitError × GitManager
  | .forceSync env reading checkout => m.forceSync sha256 config tree env reading checkout
  | .rollbackToCommit checkout reading commitSHA => m.rollbackToCommit sha256 config tree checkout reading commitSHA

def step (m : GitManager) (c : SyncCall) : Option GitManager := some (m.call sha256 config tree c).2

/-! ## HEAD and the policies in force -/

def policySet (sha : SHA) : Option (String → Option Policy) :=
  match (tree sha).loaded with
  | .ok (some policies) => some fun name => PolicyRegistry.lastNamed name policies
  | _ => none

def active (m : GitManager) : String → Option Policy := m.policies.registry.get

def Agrees (m : GitManager) : Prop := policySet tree m.gitRepo.head = some m.active

/-- The registry holds what was last loaded, as every run of loads leaves it. -/
def Sound (m : GitManager) : Prop := ∃ policies, m.policies.Holds sha256 policies

/-- When a call keeps the agreement. A rollback needs a commit whose policies are accepted; a sync that moves HEAD
needs to learn what changed and, if the new policies are refused, to get back. Neither matters when both commits
have the same policies. -/
def KeepsAgreement (m : GitManager) : SyncCall → Prop
  | .rollbackToCommit checkout reading commitSHA =>
    checkout.succeeds = true → ((readSource tree commitSHA reading).accepted config).isSome ∨
      policySet tree commitSHA = policySet tree m.gitRepo.head
  | .forceSync env reading checkout =>
    policySet tree (env.target m.gitRepo.head) = policySet tree m.gitRepo.head ∨
      (env.reported m.gitRepo.head (env.target m.gitRepo.head)).isSome ∧
        (((readSource tree (env.target m.gitRepo.head) reading).accepted config).isSome ∨ checkout.succeeds = true)

variable {sha256 config tree}

theorem policySet_of_accepted {sha : SHA} {reading : Reading} {policies : List Policy}
    (h : (readSource tree sha reading).accepted config = some policies) :
    policySet tree sha = some fun name => PolicyRegistry.lastNamed name policies := by
  have hloaded := (Source.accepted_eq_some.1 h).1
  unfold readSource at hloaded
  unfold policySet
  cases hread : reading.readError with
  | some e => rw [hread] at hloaded; cases hloaded
  | none => rw [hread] at hloaded; rw [hloaded]

theorem reloadPolicies_of_accepted {m : GitManager} {reading : Reading}
    (h : ((readSource tree m.gitRepo.head reading).accepted config).isSome) :
    ∃ m', m.reloadPolicies sha256 config tree reading = (none, m') ∧ m'.gitRepo = m.gitRepo ∧ Agrees tree m' ∧
      Sound sha256 m' := by
  obtain ⟨policies, haccepted⟩ := Option.isSome_iff_exists.1 h
  obtain ⟨hnone, hholds⟩ : (m.policies.reloadPolicies sha256 config reading.now _).1 = none ∧
      PolicyManager.Holds sha256 (m.policies.reloadPolicies sha256 config reading.now _).2 policies :=
    PolicyManager.update_of_accepted haccepted m.policies true reading.now
  refine ⟨_, Prod.ext hnone rfl, rfl, ?_, policies, hholds⟩
  show policySet tree m.gitRepo.head = _
  rw [policySet_of_accepted haccepted]
  refine congrArg some (funext fun name => ?_)
  exact ((congrArg (List.lookup name) hholds.map).trans (PolicyRegistry.lookup_ofList policies name)).symm

theorem Sound.reloadPolicies_of_refused {m : GitManager} (hm : Sound sha256 m) {reading : Reading}
    (h : ¬ ((readSource tree m.gitRepo.head reading).accepted config).isSome) :
    ∃ e m', m.reloadPolicies sha256 config tree reading = (some e, m') ∧ m'.gitRepo = m.gitRepo ∧
      m'.active = m.active ∧ Sound sha256 m' := by
  obtain ⟨policies, hholds⟩ := hm
  have hrefused : (readSource tree m.gitRepo.head reading).accepted config = none := by simpa using h
  obtain ⟨⟨e, he⟩, hsame, hholds'⟩ := hholds.update_of_refused hrefused true reading.now
  exact ⟨e, _, Prod.ext he rfl, rfl, funext fun name => congrArg (List.lookup name) hsame.1, policies, hholds'⟩

/-! ## Where a sync leaves the manager -/

variable (config tree) in
/-- The sync pulls a new commit, learns what changed, and the commit is accepted. -/
def Takes (m : GitManager) (env : PullEnv) (reading : Reading) : Prop :=
  env.target m.gitRepo.head ≠ m.gitRepo.head ∧
    (env.reported m.gitRepo.head (env.target m.gitRepo.head)).isSome ∧
    ((readSource tree (env.target m.gitRepo.head) reading).accepted config).isSome

theorem forceSync_of_takes {m : GitManager} {env : PullEnv} {reading : Reading} (h : m.Takes config tree env reading)
    (checkout : CheckoutEnv) :
    (m.forceSync sha256 config tree env reading checkout).2.gitRepo.head = env.target m.gitRepo.head ∧
      Agrees tree (m.forceSync sha256 config tree env reading checkout).2 ∧
      Sound sha256 (m.forceSync sha256 config tree env reading checkout).2 := by
  obtain ⟨hmoved, hreported, haccepted⟩ := h
  obtain ⟨files, hfiles⟩ := Option.isSome_iff_exists.1 hreported
  have hpull := pull_of_target_ne hmoved
  have hhead := pull_head env m.gitRepo
  rw [hfiles] at hpull
  unfold GitManager.forceSync
  generalize m.gitRepo.pull env = pulled at hpull hhead ⊢
  obtain ⟨result, gitRepo⟩ := pulled
  cases hpull
  dsimp only at hhead ⊢
  rw [← hhead] at haccepted
  obtain ⟨m', heq, hrepo, hagrees, hsound⟩ :=
    reloadPolicies_of_accepted (m := { m with gitRepo }) haccepted
  rw [if_pos rfl, heq]
  exact ⟨(congrArg Repository.head hrepo).trans hhead, hagrees, hsound⟩

theorem Sound.forceSync_of_not_takes {m : GitManager} (hm : Sound sha256 m) {env : PullEnv} {reading : Reading}
    (h : ¬ m.Takes config tree env reading) (checkout : CheckoutEnv) :
    (m.forceSync sha256 config tree env reading checkout).2.gitRepo.head =
        (if (env.reported m.gitRepo.head (env.target m.gitRepo.head)).isSome ∧ checkout.succeeds = true then
          m.gitRepo.head
        else env.target m.gitRepo.head) ∧
      (m.forceSync sha256 config tree env reading checkout).2.active = m.active ∧
      Sound sha256 (m.forceSync sha256 config tree env reading checkout).2 := by
  have hhead := pull_head env m.gitRepo
  unfold GitManager.forceSync
  by_cases hmoved : env.target m.gitRepo.head = m.gitRepo.head
  · -- nothing was pulled: an error or a report of no change, and no reload either way
    have hpull : ∀ result, (m.gitRepo.pull env).1 = .ok result → result.hadChanges = false :=
      fun _ => pull_of_target_eq hmoved
    rw [hmoved, ite_self]
    rw [hmoved] at hhead
    generalize m.gitRepo.pull env = pulled at hpull hhead ⊢
    obtain ⟨e | result, gitRepo⟩ := pulled
    · exact ⟨hhead, rfl, hm⟩
    · simp only [hpull result rfl, Bool.false_eq_true, if_false]
      exact ⟨hhead, rfl, hm⟩
  · have hpull := pull_of_target_ne hmoved
    cases hreported : env.reported m.gitRepo.head (env.target m.gitRepo.head) with
    | none =>
      -- HEAD has moved, but the error keeps `ForceSync` from reloading
      rw [hreported] at hpull
      obtain ⟨e, he⟩ := hpull
      generalize m.gitRepo.pull env = pulled at he hhead ⊢
      obtain ⟨result, gitRepo⟩ := pulled
      cases he
      exact ⟨by simpa using hhead, rfl, hm⟩
    | some files =>
      have hrefused : ¬ ((readSource tree (env.target m.gitRepo.head) reading).accepted config).isSome :=
        fun haccepted => h ⟨hmoved, by rw [hreported]; rfl, haccepted⟩
      rw [hreported] at hpull
      generalize m.gitRepo.pull env = pulled at hpull hhead ⊢
      obtain ⟨result, gitRepo⟩ := pulled
      cases hpull
      dsimp only at hhead ⊢
      rw [← hhead] at hrefused
      obtain ⟨e, m', heq, hrepo, hactive, hsound⟩ :=
        Sound.reloadPolicies_of_refused (m := { m with gitRepo }) hm hrefused
      rw [if_pos rfl, heq]
      cases hcheckout : checkout.succeeds with
      | true =>
        dsimp only
        rw [rollback_of_succeeds hcheckout]
        exact ⟨rfl, hactive, hsound⟩
      | false =>
        obtain ⟨re, hre⟩ := rollback_of_not_succeeds hcheckout m'.gitRepo m.gitRepo.head
        dsimp only
        rw [hre]
        exact ⟨by simpa using (congrArg Repository.head hrepo).trans hhead, hactive, hsound⟩

/-! ## One call -/

theorem Agrees.iff_of_active_eq {m m' : GitManager} (hagrees : Agrees tree m) (hactive : m'.active = m.active) :
    Agrees tree m' ↔ policySet tree m'.gitRepo.head = policySet tree m.gitRepo.head := by
  unfold Agrees at hagrees ⊢
  rw [hactive, hagrees]

theorem Sound.rollbackToCommit {m : GitManager} (hm : Sound sha256 m) (hagrees : Agrees tree m)
    (checkout : CheckoutEnv) (reading : Reading) (commitSHA : SHA) :
    (Agrees tree (m.rollbackToCommit sha256 config tree checkout reading commitSHA).2 ↔
        KeepsAgreement config tree m (.rollbackToCommit checkout reading commitSHA)) ∧
      Sound sha256 (m.rollbackToCommit sha256 config tree checkout reading commitSHA).2 := by
  unfold GitManager.rollbackToCommit KeepsAgreement
  cases hcheckout : checkout.succeeds with
  | false =>
    obtain ⟨e, he⟩ := rollback_of_not_succeeds hcheckout m.gitRepo commitSHA
    rw [he]
    exact ⟨iff_of_true hagrees fun h => (Bool.false_ne_true (hcheckout.symm.trans h)).elim, hm⟩
  | true =>
    rw [rollback_of_succeeds hcheckout]
    dsimp only
    -- HEAD has moved and is not moved back, whatever becomes of the reload
    by_cases haccepted : ((readSource tree commitSHA reading).accepted config).isSome
    · obtain ⟨m', heq, -, hagrees', hsound⟩ := reloadPolicies_of_accepted
        (m := { m with gitRepo := { m.gitRepo with head := commitSHA } }) haccepted
      rw [heq]
      exact ⟨iff_of_true hagrees' fun _ => .inl haccepted, hsound⟩
    · obtain ⟨e, m', heq, hrepo, hactive, hsound⟩ := Sound.reloadPolicies_of_refused
        (m := { m with gitRepo := { m.gitRepo with head := commitSHA } }) hm haccepted
      rw [heq]
      refine ⟨?_, hsound⟩
      show Agrees tree m' ↔ _
      rw [hagrees.iff_of_active_eq hactive, hrepo]
      exact ⟨fun h _ => .inr h, fun h => (h hcheckout).resolve_left haccepted⟩

theorem Sound.forceSync {m : GitManager} (hm : Sound sha256 m) (hagrees : Agrees tree m) (env : PullEnv)
    (reading : Reading) (checkout : CheckoutEnv) :
    (Agrees tree (m.forceSync sha256 config tree env reading checkout).2 ↔
        KeepsAgreement config tree m (.forceSync env reading checkout)) ∧
      Sound sha256 (m.forceSync sha256 config tree env reading checkout).2 := by
  unfold KeepsAgreement
  by_cases htakes : m.Takes config tree env reading
  · obtain ⟨-, hagrees', hsound⟩ := forceSync_of_takes htakes checkout
    exact ⟨iff_of_true hagrees' (.inr ⟨htakes.2.1, .inl htakes.2.2⟩), hsound⟩
  · obtain ⟨hhead, hactive, hsound⟩ := hm.forceSync_of_not_takes htakes checkout
    refine ⟨?_, hsound⟩
    rw [hagrees.iff_of_active_eq hactive, hhead]
    split
    · next h => exact iff_of_true rfl (.inr ⟨h.1, .inr h.2⟩)
    · next h =>
      constructor
      · exact .inl
      · rintro (hsame | ⟨hreported, haccepted | hcheckout⟩)
        · exact hsame
        · -- a commit that is accepted and yet not taken is the one HEAD was at
          by_contra hne
          exact htakes ⟨fun heq => hne (by rw [heq]), hreported, haccepted⟩
        · exact absurd ⟨hreported, hcheckout⟩ h

theorem Sound.call {m : GitManager} (hm : Sound sha256 m) (hagrees : Agrees tree m) (c : SyncCall) :
    (Agrees tree (m.call sha256 config tree c).2 ↔ KeepsAgreement config tree m c) ∧
      Sound sha256 (m.call sha256 config tree c).2 := by
  cases c with
  | forceSync env reading checkout => exact hm.forceSync hagrees env reading checkout
  | rollbackToCommit checkout reading commitSHA => exact hm.rollbackToCommit hagrees checkout reading commitSHA

/-- One call keeps HEAD and the policies in force together exactly when it meets the condition, and so does a run
whose calls all meet it. -/
theorem head_agrees_iff (sha256 : Digest) (config : ValidationConfig) (tree : SHA → Source) (m : GitManager)
    (hm : Sound sha256 m) (hagrees : Agrees tree m) :
    (∀ c, Agrees tree (m.call sha256 config tree c).2 ↔ KeepsAgreement config tree m c) ∧
      ∀ cs m', Meets (step sha256 config tree) (KeepsAgreement config tree) m cs →
        run (step sha256 config tree) m cs = some m' → Agrees tree m' := by
  refine ⟨fun c => (hm.call hagrees c).1, fun cs m' hmeets hrun => ?_⟩
  have hstep : ∀ m c m', Sound sha256 m ∧ Agrees tree m → KeepsAgreement config tree m c →
      step sha256 config tree m c = some m' → Sound sha256 m' ∧ Agrees tree m' := by
    rintro m c m' ⟨hm, hagrees⟩ hok ⟨⟩
    exact ⟨(hm.call hagrees c).2, (hm.call hagrees c).1.2 hok⟩
  exact (run_invariant_of_meets hstep cs m m' ⟨hm, hagrees⟩ hmeets hrun).2

def onePolicyEach (refused : SHA) (sha : SHA) : Source where
  loaded := .ok (some [{ name := sha }])
  validate policy := if policy.name = refused then some "invalid" else none

def loadedAt (tree : SHA → Source) (head : SHA) : GitManager :=
  (reloadPolicies id ⟨true, true⟩ tree ⟨{ head }, newPolicyManager 0⟩ { now := 0 }).2

theorem loadedAt_agrees {tree : SHA → Source} {head : SHA} (h : ((tree head).accepted ⟨true, true⟩).isSome) :
    Sound id (loadedAt tree head) ∧ Agrees tree (loadedAt tree head) := by
  have hload : ∃ m', reloadPolicies id ⟨true, true⟩ tree ⟨{ head }, newPolicyManager 0⟩ { now := 0 } = (none, m') ∧ _ ∧
      Agrees tree m' ∧ Sound id m' := reloadPolicies_of_accepted h
  obtain ⟨m', heq, -, hagrees, hsound⟩ := hload
  rw [loadedAt, heq]
  exact ⟨hsound, hagrees⟩

/-- The rollback is refused, HEAD stays at the invalid commit, and the policy of the commit before stays in force. -/
theorem rollback_to_invalid_commit :
    Agrees (onePolicyEach "bad") (loadedAt (onePolicyEach "bad") "good") ∧
      ((loadedAt (onePolicyEach "bad") "good").call id ⟨true, true⟩ (onePolicyEach "bad")
          (.rollbackToCommit {} { now := 1 } "bad")).1.isSome ∧
      ((loadedAt (onePolicyEach "bad") "good").call id ⟨true, true⟩ (onePolicyEach "bad")
          (.rollbackToCommit {} { now := 1 } "bad")).2.gitRepo.head = "bad" ∧
      ¬ Agrees (onePolicyEach "bad") ((loadedAt (onePolicyEach "bad") "good").call id ⟨true, true⟩ (onePolicyEach "bad")
          (.rollbackToCommit {} { now := 1 } "bad")).2 := by
  refine ⟨(loadedAt_agrees (by decide)).2, by decide, by decide, fun hagrees => ?_⟩
  have hgood := congrArg (fun set => (set.getD fun _ => none) "good" |>.isSome) hagrees
  revert hgood
  decide

theorem head_agrees_valid_commit :
    Agrees (onePolicyEach "bad") ((loadedAt (onePolicyEach "bad") "good").call id ⟨true, true⟩ (onePolicyEach "bad")
      (.rollbackToCommit {} { now := 1 } "better")).2 :=
  ((head_agrees_iff id ⟨true, true⟩ (onePolicyEach "bad") (loadedAt (onePolicyEach "bad") "good")
    (loadedAt_agrees (by decide)).1 (loadedAt_agrees (by decide)).2).1 _).2 fun _ => .inl (by decide)

end GitManager

end Jupiter.Manager
