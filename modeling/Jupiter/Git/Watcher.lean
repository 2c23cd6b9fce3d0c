/-
`pkg/policy/git/watcher.go` beside `ForceSync`: polls, debounced reloads and manual syncs that share a repository and a
registry.

The calls run in goroutines of their own. The repository's lock is held for one pull or one checkout, the watcher's for
one access to `lastCommitSHA` and the manager's for one reload, none for a whole call. A reload reads the worktree
without the repository's lock, so HEAD can move while it reads. A step of the model is one pull, one checkout, one
access, or the beginning or the end of a reload.
-/
import Jupiter.Manager.GitSync

namespace Jupiter.Git

open Jupiter.Go Jupiter.Lib Jupiter.Manager

structure WatcherMetrics where
  pollCount : Nat := 0
  successfulReloads : Nat := 0
  failedReloads : Nat := 0
  skippedPolls : Nat := 0

/-- The watcher; its timer is pending while it holds the commit the reload is for. -/
structure Watcher where
  lastCommitSHA : SHA
  debounceTimer : Option SHA := none
  metrics : WatcherMetrics := {}

def isPolicyFile (file : Path) : Bool := file.ext = ".mpl" ∨ file.ext = ".yaml" ∨ file.ext = ".yml"

def hasPolicyFileChanges (files : List Path) : Bool := files.any isPolicyFile

abbrev PolicySet := String → Option Policy

/-- The reloads of the calls. The policies in force when a reload failed, and the commit a rollback went to, are
remembered for the statements about runs. -/
inductive Purpose where
  /-- `performReload` for a commit. -/
  | perform (newSHA : SHA)
  /-- `rollbackToPrevious` after its `Rollback`. -/
  | restore (sha : SHA) (before : PolicySet)
  /-- `ForceSync` after a `Pull` with changes. -/
  | sync (result : PullResult)

/-- What is left of a call. -/
inductive Task where
  /-- `checkForChanges` after a `Pull` with changes. -/
  | handle (result : PullResult)
  /-- `performReload` after a reload that succeeded. -/
  | record (newSHA : SHA)
  /-- `performReload` after a reload that failed. -/
  | recover (before : PolicySet)
  /-- `rollbackToPrevious` when it is called. -/
  | rollback (sha : SHA) (before : PolicySet)
  /-- A reload that has not begun. -/
  | reload (purpose : Purpose)
  /-- A reload that reads the worktree, since it had been rewritten so many times. -/
  | reading (purpose : Purpose) (since : Nat)
  /-- `ForceSync` after a reload that failed. -/
  | unsync (fromSHA : SHA)

/-- The policies in force before and after a failed reload. -/
structure Failure where
  before : PolicySet
  after : PolicySet

/-- The manager and its watcher, which share the repository, with the number of times the worktree was rewritten, the
calls in progress and the failed reloads so far. -/
structure System where
  manager : GitManager
  watcher : Watcher
  rewrites : Nat := 0
  tasks : List Task := []
  failures : List Failure := []

def start (manager : GitManager) : System where
  manager := manager
  watcher := { lastCommitSHA := manager.gitRepo.head }

inductive Label where
  /-- A poll begins. -/
  | checkForChanges (env : PullEnv)
  /-- The timer fires. -/
  | performReload
  /-- A manual sync begins. -/
  | forceSync (env : PullEnv)
  /-- A call goes on. `mixed` is what a reload has read if the worktree was rewritten meanwhile. -/
  | resume (i : Nat) (reading : Reading) (checkout : CheckoutEnv) (mixed : Source := ⟨.ok none, fun _ => none⟩)

namespace System

section Steps

variable (sha256 : Digest) (config : ValidationConfig) (tree : SHA → Source)

def push (s : System) (t : Task) : System := { s with tasks := s.tasks ++ [t] }

/-- The worktree is that of HEAD, so it is rewritten when HEAD moves. -/
def setRepo (s : System) (gitRepo : Repository) : System :=
  { s with
    manager := { s.manager with gitRepo }
    rewrites := if gitRepo.head = s.manager.gitRepo.head then s.rewrites else s.rewrites + 1 }

def pull (s : System) (env : PullEnv) (next : PullResult → Task) : System :=
  match s.manager.gitRepo.pull env with
  | (.error _, gitRepo) => s.setRepo gitRepo
  | (.ok result, gitRepo) => if result.hadChanges then (s.setRepo gitRepo).push (next result) else s.setRepo gitRepo

/-- What a reload finds that began when the worktree had been rewritten `since` times. -/
def worktree (s : System) (since : Nat) (mixed : Source) : SHA → Source :=
  if since = s.rewrites then tree else fun _ => mixed

/-- What comes after a reload. -/
def reloaded (s : System) : Purpose → Option ManagerError × GitManager → System
  | .perform newSHA, (none, manager) => { s with manager }.push (.record newSHA)
  | .perform _, (some _, manager) =>
    { s with manager, watcher.metrics.failedReloads := s.watcher.metrics.failedReloads + 1 }.push
      (.recover s.manager.active)
  | .restore _ before, (_, manager) => { s with manager, failures := ⟨before, manager.active⟩ :: s.failures }
  | .sync _, (none, manager) => { s with manager }
  | .sync result, (some _, manager) => { s with manager }.push (.unsync result.fromSHA)

/-- The next step of a task that has been taken off the list. -/
def resume (s : System) (reading : Reading) (checkout : CheckoutEnv) (mixed : Source) : Task → System
  | .handle result =>
    if hasPolicyFileChanges result.changedFiles then
      -- a timer that is still pending is stopped and replaced
      { s with watcher.debounceTimer := some result.toSHA }
    else
      { s with
        watcher.lastCommitSHA := result.toSHA
        watcher.metrics.skippedPolls := s.watcher.metrics.skippedPolls + 1 }
  | .record newSHA =>
    { s with
      watcher.lastCommitSHA := newSHA
      watcher.metrics.successfulReloads := s.watcher.metrics.successfulReloads + 1 }
  | .recover before => s.push (.rollback s.watcher.lastCommitSHA before)
  | .rollback sha before =>
    match s.manager.gitRepo.rollback checkout sha with
    | (some _, gitRepo) => { s.setRepo gitRepo with failures := ⟨before, s.manager.active⟩ :: s.failures }
    | (none, gitRepo) => (s.setRepo gitRepo).push (.reload (.restore sha before))
  | .reload purpose => s.push (.reading purpose s.rewrites)
  | .reading purpose since =>
    s.reloaded purpose (s.manager.reloadPolicies sha256 config (s.worktree tree since mixed) reading)
  | .unsync fromSHA => s.setRepo (s.manager.gitRepo.rollback checkout fromSHA).2

def step (s : System) : Label → Option System
  | .checkForChanges env =>
    some ({ s with watcher.metrics.pollCount := s.watcher.metrics.pollCount + 1 }.pull env .handle)
  | .performReload =>
    s.watcher.debounceTimer.map fun newSHA =>
      { s with watcher.debounceTimer := none }.push (.reload (.perform newSHA))
  | .forceSync env => some (s.pull env (.reload <| .sync ·))
  | .resume i reading checkout mixed =>
    s.tasks[i]?.map fun t =>
      { s with tasks := s.tasks.eraseIdx i }.resume sha256 config tree reading checkout mixed t

variable {sha256 config tree}

theorem run_push_resume (s : System) (t : Task) (reading : Reading) (checkout : CheckoutEnv) (mixed : Source)
    (ls : List Label) :
    run (step sha256 config tree) (s.push t) (.resume s.tasks.length reading checkout mixed :: ls) =
      run (step sha256 config tree) (s.resume sha256 config tree reading checkout mixed t) ls := by
  have hstep : (s.push t).step sha256 config tree (.resume s.tasks.length reading checkout mixed) =
      some (s.resume sha256 config tree reading checkout mixed t) := by
    simp [System.step, push, List.eraseIdx_append_of_length_le]
  rw [run_cons, hstep]
  rfl

theorem pull_of_reported {s : System} {env : PullEnv} {files : List Path}
    (hmoved : env.target s.manager.gitRepo.head ≠ s.manager.gitRepo.head)
    (hreported : env.reported s.manager.gitRepo.head (env.target s.manager.gitRepo.head) = some files)
    (next : PullResult → Task) :
    ∃ gitRepo, s.pull env next = (s.setRepo gitRepo).push (next
      { fromSHA := s.manager.gitRepo.head, toSHA := env.target s.manager.gitRepo.head, changedFiles := files
        hadChanges := true }) := by
  have hpull := pull_of_target_ne hmoved
  rw [hreported] at hpull
  unfold System.pull
  generalize s.manager.gitRepo.pull env = pulled at hpull ⊢
  obtain ⟨result, gitRepo⟩ := pulled
  cases hpull
  exact ⟨_, rfl⟩

end Steps

end System

/-! ## Conditions on the steps -/

/-- The reload relies on the policies in force when it began. -/
def Purpose.restores : Purpose → Bool
  | .restore _ _ => true
  | .perform _ | .sync _ => false

def Task.ofReload : Task → Bool
  | .record _ | .recover _ | .rollback _ _ => true
  | .reload purpose | .reading purpose _ => purpose.restores
  | .handle _ | .unsync _ => false

namespace System

open GitManager

variable (sha256 : Digest) (config : ValidationConfig) (tree : SHA → Source)

def Accepted (s : System) (since : Nat) (mixed : Source) (reading : Reading) : Prop :=
  ((readSource (s.worktree tree since mixed) s.manager.gitRepo.head reading).accepted config).isSome

def ReloadKeeps (s : System) : Purpose → Prop
  -- no other `performReload` is past its reload, and HEAD has the policies of the commit this one is for
  | .perform newSHA =>
    (∀ t ∈ s.tasks, t.ofReload = false) ∧ policySet tree newSHA = policySet tree s.manager.gitRepo.head
  -- nobody has moved HEAD since the rollback
  | .restore sha _ => s.manager.gitRepo.head = sha
  -- a manual sync, which does not record its commit, brings no other policies
  | .sync _ => policySet tree s.manager.gitRepo.head = some s.manager.active

def TaskKeeps (s : System) (reading : Reading) (mixed : Source) : Task → Prop
  -- a commit without policy files is only recorded when its policies are the ones in force
  | .handle result =>
    hasPolicyFileChanges result.changedFiles = false → policySet tree result.toSHA = some s.manager.active
  -- `lastCommitSHA` is not read between a reload and the record of it
  | .recover _ => ∀ newSHA, .record newSHA ∉ s.tasks
  -- the worktree was not rewritten while a reload that succeeds read it
  | .reading purpose since =>
    s.Accepted config tree since mixed reading → since = s.rewrites ∧ s.ReloadKeeps tree purpose
  | .record _ | .rollback _ _ | .reload _ | .unsync _ => True

def Keeps (s : System) : Label → Prop
  | .checkForChanges _ | .performReload | .forceSync _ => True
  | .resume i reading _ mixed => ∀ t, s.tasks[i]? = some t →
      { s with tasks := s.tasks.eraseIdx i }.TaskKeeps config tree reading mixed t

/-! ## The invariant -/

/-- What a task relies on, given the policies in force. -/
def TaskOk (active : PolicySet) : Task → Prop
  | .record newSHA => policySet tree newSHA = some active
  | .recover before => before = active
  | .rollback sha before | .reload (.restore sha before) | .reading (.restore sha before) _ =>
    before = active ∧ policySet tree sha = some active
  | _ => True

/-- `lastCommitSHA` names a commit that has the policies in force, unless a successful reload has still to be
recorded. -/
structure InStep (s : System) : Prop where
  sound : Sound sha256 s.manager
  tasks : ∀ t ∈ s.tasks, TaskOk tree s.manager.active t
  last : (∀ newSHA, .record newSHA ∉ s.tasks) → policySet tree s.watcher.lastCommitSHA = some s.manager.active
  failures : ∀ f ∈ s.failures, f.after = f.before

variable {sha256 config tree}

theorem taskOk_of_not_ofReload {active : PolicySet} {t : Task} (h : t.ofReload = false) : TaskOk tree active t := by
  cases t with
  | handle _ | unsync _ => trivial
  | record _ | recover _ | rollback _ _ => cases h
  | reload purpose | reading purpose _ =>
    cases purpose with
    | restore _ _ => cases h
    | perform _ | sync _ => trivial

namespace InStep

variable {s : System}

theorem push (h : InStep sha256 tree s) {t : Task} (ht : TaskOk tree s.manager.active t) :
    InStep sha256 tree (s.push t) where
  sound := h.sound
  tasks u hu := by
    rcases List.mem_append.1 hu with hu | hu
    · exact h.tasks u hu
    · rw [List.mem_singleton.1 hu]
      exact ht
  last hno := h.last fun newSHA hmem => hno newSHA (List.mem_append_left _ hmem)
  failures := h.failures

theorem erase (h : InStep sha256 tree s) {i : Nat} {t : Task} (ht : s.tasks[i]? = some t)
    (hrecord : ∀ newSHA, t ≠ .record newSHA) : InStep sha256 tree { s with tasks := s.tasks.eraseIdx i } where
  sound := h.sound
  tasks u hu := h.tasks u (List.mem_of_mem_eraseIdx hu)
  last hno := by
    refine h.last fun newSHA hmem => ?_
    obtain ⟨j, hj⟩ := List.getElem?_of_mem hmem
    by_cases hij : j = i
    · subst hij
      rw [ht] at hj
      exact hrecord newSHA (Option.some.inj hj)
    · exact hno newSHA (List.mem_eraseIdx_iff_getElem?.2 ⟨j, hij, hj⟩)
  failures := h.failures

theorem setManager (h : InStep sha256 tree s) (manager : GitManager) (hsound : Sound sha256 manager)
    (hactive : manager.active = s.manager.active) : InStep sha256 tree { s with manager } where
  sound := hsound
  tasks t ht := hactive ▸ h.tasks t ht
  last hno := hactive ▸ h.last hno
  failures := h.failures

theorem setRepo (h : InStep sha256 tree s) (gitRepo : Repository) : InStep sha256 tree (s.setRepo gitRepo) :=
  ⟨h.sound, h.tasks, h.last, h.failures⟩

theorem setWatcher (h : InStep sha256 tree s) (watcher : Watcher)
    (hlast : watcher.lastCommitSHA = s.watcher.lastCommitSHA) : InStep sha256 tree { s with watcher } where
  sound := h.sound
  tasks := h.tasks
  last hno := (congrArg (policySet tree) hlast).trans (h.last hno)
  failures := h.failures

theorem addFailure (h : InStep sha256 tree s) {before after : PolicySet} (hsame : after = before) :
    InStep sha256 tree { s with failures := ⟨before, after⟩ :: s.failures } where
  sound := h.sound
  tasks := h.tasks
  last := h.last
  failures f hf := by
    rcases List.mem_cons.1 hf with rfl | hf
    · exact hsame
    · exact h.failures f hf

/-! ## One step -/

theorem pull (h : InStep sha256 tree s) (env : PullEnv) {next : PullResult → Task}
    (hnext : ∀ result, TaskOk tree s.manager.active (next result)) : InStep sha256 tree (s.pull env next) := by
  unfold System.pull
  split
  · exact h.setRepo _
  · split
    · exact (h.setRepo _).push (hnext _)
    · exact h.setRepo _

theorem reloaded_of_accepted (h : InStep sha256 tree s) {purpose : Purpose} {manager : GitManager}
    (hkeeps : s.ReloadKeeps tree purpose) (hok : ∀ since, TaskOk tree s.manager.active (.reading purpose since))
    (hsound : Sound sha256 manager) (hagrees : policySet tree s.manager.gitRepo.head = some manager.active) :
    InStep sha256 tree (s.reloaded purpose (none, manager)) := by
  cases purpose with
  | perform newSHA =>
    obtain ⟨halone, hsame⟩ := hkeeps
    refine { sound := hsound, tasks := ?_, last := ?_, failures := h.failures }
    · intro t ht
      rcases List.mem_append.1 ht with ht | ht
      · exact taskOk_of_not_ofReload (halone t ht)
      · rw [List.mem_singleton.1 ht]
        exact hsame.trans hagrees
    · exact fun hno => (hno newSHA (List.mem_append_right _ List.mem_cons_self)).elim
  | restore sha before =>
    -- HEAD is at the commit rolled back to, which has the policies in force
    obtain ⟨hbefore, hset⟩ := hok 0
    have hhead : s.manager.gitRepo.head = sha := hkeeps
    have hactive : manager.active = s.manager.active := Option.some.inj (hagrees.symm.trans (hhead ▸ hset))
    exact (h.setManager manager hsound hactive).addFailure (hactive.trans hbefore.symm)
  | sync result => exact h.setManager manager hsound (Option.some.inj (hagrees.symm.trans hkeeps))

theorem reloaded_of_refused (h : InStep sha256 tree s) {purpose : Purpose} {e : ManagerError} {manager : GitManager}
    (hok : ∀ since, TaskOk tree s.manager.active (.reading purpose since)) (hsound : Sound sha256 manager)
    (hactive : manager.active = s.manager.active) : InStep sha256 tree (s.reloaded purpose (some e, manager)) := by
  have hset := h.setManager manager hsound hactive
  cases purpose with
  | perform newSHA =>
    have hcounted : InStep sha256 tree
        { s with manager, watcher.metrics.failedReloads := s.watcher.metrics.failedReloads + 1 } :=
      hset.setWatcher _ rfl
    exact hcounted.push (t := .recover s.manager.active) hactive.symm
  | restore sha before => exact hset.addFailure (hactive.trans (hok 0).1.symm)
  | sync result => exact hset.push (t := .unsync result.fromSHA) trivial

theorem resume (h : InStep sha256 tree s) {reading : Reading} (checkout : CheckoutEnv) {mixed : Source} {t : Task}
    (ht : TaskOk tree s.manager.active t) (hkeeps : s.TaskKeeps config tree reading mixed t) :
    InStep sha256 tree (s.resume sha256 config tree reading checkout mixed t) := by
  cases t with
  | handle result =>
    unfold System.resume
    dsimp only
    split
    · exact h.setWatcher _ rfl
    · next hno =>
      exact { sound := h.sound, tasks := h.tasks, last := fun _ => hkeeps (Bool.eq_false_iff.2 hno),
              failures := h.failures }
  | record newSHA => exact { sound := h.sound, tasks := h.tasks, last := fun _ => ht, failures := h.failures }
  | recover before => exact h.push ⟨ht, h.last hkeeps⟩
  | rollback sha before =>
    unfold System.resume
    dsimp only
    cases hcheckout : checkout.succeeds with
    | true =>
      rw [rollback_of_succeeds hcheckout]
      exact (h.setRepo _).push (t := .reload (.restore sha before)) ht
    | false =>
      obtain ⟨e, he⟩ := rollback_of_not_succeeds hcheckout s.manager.gitRepo sha
      rw [he]
      exact (h.setRepo _).addFailure ht.1.symm
  | reload purpose => exact h.push (by cases purpose <;> exact ht)
  | reading purpose since =>
    have hok : ∀ since, TaskOk tree s.manager.active (.reading purpose since) := fun _ => by
      cases purpose <;> exact ht
    unfold System.resume
    dsimp only
    by_cases haccepted : s.Accepted config tree since mixed reading
    · -- the worktree is still the one the reading began with, so what was read is the tree of HEAD
      obtain ⟨hsince, hpurpose⟩ := hkeeps haccepted
      have htree : s.worktree tree since mixed = tree := if_pos hsince
      unfold Accepted at haccepted
      rw [htree] at haccepted ⊢
      obtain ⟨m', heq, hrepo, hagrees, hsound⟩ := reloadPolicies_of_accepted haccepted
      rw [heq]
      exact h.reloaded_of_accepted hpurpose hok hsound (hrepo ▸ hagrees)
    · obtain ⟨e, m', heq, -, hactive, hsound⟩ := h.sound.reloadPolicies_of_refused haccepted
      rw [heq]
      exact h.reloaded_of_refused hok hsound hactive
  | unsync fromSHA => exact h.setRepo _

theorem step (h : InStep sha256 tree s) {l : Label} {s' : System} (hkeeps : s.Keeps config tree l)
    (hstep : s.step sha256 config tree l = some s') : InStep sha256 tree s' := by
  cases l with
  | checkForChanges env =>
    cases hstep
    have hcounted : InStep sha256 tree { s with watcher.metrics.pollCount := s.watcher.metrics.pollCount + 1 } :=
      h.setWatcher _ rfl
    exact hcounted.pull env fun _ => trivial
  | forceSync env =>
    cases hstep
    exact h.pull env fun _ => trivial
  | performReload =>
    obtain ⟨newSHA, -, rfl⟩ := Option.map_eq_some_iff.1 hstep
    have hfired : InStep sha256 tree { s with watcher.debounceTimer := none } := h.setWatcher _ rfl
    exact hfired.push (t := .reload (.perform newSHA)) trivial
  | resume i reading checkout mixed =>
    obtain ⟨t, ht, rfl⟩ := Option.map_eq_some_iff.1 hstep
    have hok := h.tasks t (List.mem_of_getElem? ht)
    by_cases hrecord : ∃ newSHA, t = .record newSHA
    · obtain ⟨newSHA, rfl⟩ := hrecord
      exact { sound := h.sound, tasks := fun u hu => h.tasks u (List.mem_of_mem_eraseIdx hu), last := fun _ => hok,
              failures := h.failures }
    · exact (h.erase ht fun newSHA heq => hrecord ⟨newSHA, heq⟩).resume checkout hok (hkeeps t ht)

end InStep

theorem start_inStep {manager : GitManager} (hsound : Sound sha256 manager) (hagrees : Agrees tree manager) :
    InStep sha256 tree (start manager) where
  sound := hsound
  tasks := nofun
  last _ := hagrees
  failures := nofun

/-- In every run whose steps meet the conditions, each failed reload and its rollback end with the policies it began
with, and `lastCommitSHA` names a commit that has the policies in force whenever no successful reload has still to
be recorded. -/
theorem bad_commit_harmless (sha256 : Digest) (config : ValidationConfig) (tree : SHA → Source) (manager : GitManager)
    (hsound : Sound sha256 manager) (hagrees : Agrees tree manager) (ls : List Label) (s : System)
    (hmeets : Meets (step sha256 config tree) (Keeps config tree) (start manager) ls)
    (hrun : run (step sha256 config tree) (start manager) ls = some s) :
    (∀ f ∈ s.failures, f.after = f.before) ∧
      ((∀ newSHA, .record newSHA ∉ s.tasks) → policySet tree s.watcher.lastCommitSHA = some s.manager.active) := by
  have hstep : ∀ s l s', InStep sha256 tree s → Keeps config tree s l → step sha256 config tree s l = some s' →
      InStep sha256 tree s' := fun s l s' h hkeeps heq => h.step hkeeps heq
  have h := run_invariant_of_meets hstep ls (start manager) s (start_inStep hsound hagrees) hmeets hrun
  exact ⟨h.failures, h.last⟩

def pullOf (sha : SHA) (file : Path) : PullEnv where
  pulled := .ok (some sha)
  objects := { diff := fun _ _ => .ok [{ old := some file, new := some file }] }

/-- A sync brings a valid commit, which the watcher does not record. The next one is invalid, and its rollback goes
back behind the sync. -/
theorem rollback_behind_sync :
    ∃ s f, run (step id ⟨true, true⟩ (onePolicyEach "bad")) (start (loadedAt (onePolicyEach "bad") "good"))
        ([.forceSync (pullOf "better" ["main.yaml"]), .resume 0 { now := 1 } {}, .resume 0 { now := 1 } {},
          .checkForChanges (pullOf "bad" ["main.yaml"]), .resume 0 { now := 2 } {}, .performReload] ++
          List.replicate 6 (.resume 0 { now := 3 } {})) = some s ∧
      s.failures = [f] ∧ (f.before "better").isSome ∧ f.before "good" = none ∧ (f.after "good").isSome ∧
      f.after "better" = none :=
  ⟨_, _, rfl, rfl, by decide, rfl, by decide, rfl⟩

def badPoll : List Label :=
  [.checkForChanges (pullOf "bad" ["main.yaml"]), .resume 0 { now := 1 } {}, .performReload, .resume 0 { now := 2 } {},
    .resume 0 { now := 2 } {}, .resume 0 { now := 2 } {}, .resume 0 { now := 2 } {}, .resume 0 { now := 2 } {},
    .resume 0 { now := 2 } {}]

theorem bad_commit_harmless_one_poll :
    ∃ s, run (step id ⟨true, true⟩ (onePolicyEach "bad")) (start (loadedAt (onePolicyEach "bad") "good")) badPoll =
        some s ∧
      s.failures.length = 1 ∧ ∀ f ∈ s.failures, f.after = f.before := by
  suffices hmeets : Meets (step id ⟨true, true⟩ (onePolicyEach "bad")) (Keeps ⟨true, true⟩ (onePolicyEach "bad"))
      (start (loadedAt (onePolicyEach "bad") "good")) badPoll from
    ⟨_, rfl, rfl, (bad_commit_harmless id ⟨true, true⟩ (onePolicyEach "bad") (loadedAt (onePolicyEach "bad") "good")
      (loadedAt_agrees (by decide)).1 (loadedAt_agrees (by decide)).2 badPoll _ hmeets rfl).1⟩
  refine meets_cons trivial rfl (meets_cons ?_ rfl (meets_cons trivial rfl (meets_cons ?_ rfl (meets_cons ?_ rfl
    (meets_cons ?_ rfl (meets_cons ?_ rfl (meets_cons ?_ rfl (meets_cons ?_ rfl trivial))))))))
  · rintro t ⟨⟩ hno
    exact absurd hno (by decide)
  · rintro t ⟨⟩
    trivial
  · rintro t ⟨⟩ haccepted
    exact absurd haccepted (by unfold Accepted; decide)
  · rintro t ⟨⟩ newSHA hmem
    cases hmem
  · rintro t ⟨⟩
    trivial
  · rintro t ⟨⟩
    trivial
  · rintro t ⟨⟩ _
    exact ⟨rfl, rfl⟩

end System

end Jupiter.Git
