/-
`pkg/policy/git/repository.go`: pulling, rolling back, and the files that changed between two commits.

What go-git answers is an input of each call. A pull and a checkout move HEAD to the commit asked for or fail and
leave it where it is; every other question may fail at any time, also after HEAD has moved. A repository here is one
that `Clone` has opened, so the checks for a nil one are left out.
-/
import Jupiter.Manager.Path

namespace Jupiter.Git

open Jupiter.Manager

abbrev SHA := String

/-- A change of a tree diff, with the old and the new path; an empty name is `none`. -/
structure Change where
  old : Option Path
  new : Option Path

/-- What go-git says of commits and their trees. -/
structure Objects where
  commitError : SHA → Option String := fun _ => none
  treeError : SHA → Option String := fun _ => none
  diff : SHA → SHA → Except String (List Change)

/-- `if err != nil { return fmt.Errorf("context: %w", err) }`. -/
def failing {α : Type} (context : String) (err : Option String) (rest : Except String α) : Except String α :=
  match err with
  | some e => .error (context ++ e)
  | none => rest

/-! ## Changed files -/

/-- The one path that is kept of a change: the new one, or the old one of a deleted file. -/
def Change.file (change : Change) : Option Path := change.new <|> change.old

def getChangedFilesInternal (objects : Objects) (fromSHA toSHA : SHA) : Except String (List Path) :=
  failing "failed to get from commit: " (objects.commitError fromSHA) <|
  failing "failed to get to commit: " (objects.commitError toSHA) <|
  failing "failed to get from tree: " (objects.treeError fromSHA) <|
  failing "failed to get to tree: " (objects.treeError toSHA) <|
  match objects.diff fromSHA toSHA with
  | .error e => .error ("failed to diff trees: " ++ e)
  | .ok changes => .ok (changes.filterMap Change.file)

/-! ## Pull and Rollback -/

structure RepositoryMetrics where
  lastCommitSHA : SHA := ""
  failedPulls : Nat := 0
  successfulPulls : Nat := 0

/-- An open repository. The working tree is that of the commit HEAD points to. -/
structure Repository where
  head : SHA
  metrics : RepositoryMetrics := {}

structure PullResult where
  fromSHA : SHA
  toSHA : SHA
  changedFiles : List Path := []
  hadChanges : Bool

/-- The answers during one `Pull`; `pulled` holds the commit HEAD moved to, `none` if it is up to date. -/
structure PullEnv where
  headError : Option String := none
  worktreeError : Option String := none
  authError : Option String := none
  pulled : Except String (Option SHA) := .ok none
  newHeadError : Option String := none
  objects : Objects

/-- The questions of `Pull` before it changes anything. -/
def PullEnv.prepared (env : PullEnv) : Except String Unit :=
  failing "failed to get HEAD: " env.headError <|
  failing "failed to get worktree: " env.worktreeError <|
  failing "failed to get auth: " env.authError <| .ok ()

def Repository.pull (env : PullEnv) (r : Repository) : Except String PullResult × Repository :=
  match env.prepared with
  | .error e => (.error e, r)
  | .ok () =>
    match env.pulled with
    | .error e => (.error ("failed to pull: " ++ e), { r with metrics.failedPulls := r.metrics.failedPulls + 1 })
    | .ok moved =>
      let r' := { r with head := moved.getD r.head, metrics.successfulPulls := r.metrics.successfulPulls + 1 }
      match env.newHeadError with
      | some e => (.error ("failed to get new HEAD: " ++ e), r')
      | none =>
        let result : PullResult := { fromSHA := r.head, toSHA := r'.head, hadChanges := r.head ≠ r'.head }
        if result.hadChanges then
          match getChangedFilesInternal env.objects r.head r'.head with
          | .error e => (.error ("failed to get changed files: " ++ e), r')
          | .ok files => (.ok { result with changedFiles := files }, { r' with metrics.lastCommitSHA := r'.head })
        else (.ok result, r')

structure CheckoutEnv where
  commitError : Option String := none
  worktreeError : Option String := none
  checkoutError : Option String := none

def CheckoutEnv.checkout (env : CheckoutEnv) (targetSHA : SHA) : Except String Unit :=
  failing "target commit not found: " env.commitError <|
  failing "failed to get worktree: " env.worktreeError <|
  failing ("failed to checkout commit " ++ targetSHA ++ ": ") env.checkoutError <| .ok ()

def Repository.rollback (env : CheckoutEnv) (r : Repository) (targetSHA : SHA) : Option String × Repository :=
  match env.checkout targetSHA with
  | .error e => (some e, r)
  | .ok () => (none, { r with head := targetSHA })

/-! ## Where they leave HEAD -/

def PullEnv.target (env : PullEnv) (head : SHA) : SHA :=
  match env.prepared, env.pulled with
  | .ok (), .ok (some sha) => sha
  | _, _ => head

/-- The new HEAD can be read and the changes up to it can be computed. -/
def PullEnv.reported (env : PullEnv) (fromSHA toSHA : SHA) : Option (List Path) :=
  match env.newHeadError, getChangedFilesInternal env.objects fromSHA toSHA with
  | none, .ok files => some files
  | _, _ => none

theorem pull_head (env : PullEnv) (r : Repository) : (r.pull env).2.head = env.target r.head := by
  unfold Repository.pull PullEnv.target
  cases env.prepared with
  | error e => rfl
  | ok _ =>
    rcases env.pulled with e | _ | sha <;> dsimp only [Option.getD]
    · cases env.newHeadError with
      | some e => rfl
      | none => simp
    · cases env.newHeadError with
      | some e => rfl
      | none =>
        dsimp only
        split
        · cases getChangedFilesInternal env.objects r.head sha <;> rfl
        · rfl

theorem pull_of_target_eq {env : PullEnv} {r : Repository} (h : env.target r.head = r.head) {result : PullResult}
    (hok : (r.pull env).1 = .ok result) : result.hadChanges = false := by
  unfold Repository.pull at hok
  unfold PullEnv.target at h
  cases hp : env.prepared with
  | error e => rw [hp] at hok; cases hok
  | ok _ =>
    rw [hp] at hok h
    have hstay : ∀ moved, env.pulled = .ok moved → moved.getD r.head = r.head := by
      intro moved hm
      rw [hm] at h
      cases moved with
      | none => rfl
      | some sha => exact h
    cases hm : env.pulled with
    | error e => rw [hm] at hok; cases hok
    | ok moved =>
      rw [hm] at hok
      dsimp only at hok
      cases hn : env.newHeadError with
      | some e => rw [hn] at hok; cases hok
      | none =>
        rw [hn] at hok
        simp only [hstay moved hm, ne_eq, not_true_eq_false, decide_false, Bool.false_eq_true, if_false] at hok
        cases hok
        rfl

/-- A `Pull` that moves HEAD succeeds exactly when it can report the changes. -/
theorem pull_of_target_ne {env : PullEnv} {r : Repository} (h : env.target r.head ≠ r.head) :
    match env.reported r.head (env.target r.head) with
    | some files => (r.pull env).1 =
        .ok { fromSHA := r.head, toSHA := env.target r.head, changedFiles := files, hadChanges := true }
    | none => ∃ e, (r.pull env).1 = .error e := by
  unfold PullEnv.target at h ⊢
  unfold Repository.pull PullEnv.reported
  cases hp : env.prepared with
  | error e => rw [hp] at h; exact absurd rfl h
  | ok _ =>
    rw [hp] at h
    rcases hm : env.pulled with e | _ | sha
    · rw [hm] at h; exact absurd rfl h
    · rw [hm] at h; exact absurd rfl h
    · rw [hm] at h
      have hne : r.head ≠ sha := fun heq => h heq.symm
      cases env.newHeadError with
      | some e => exact ⟨_, rfl⟩
      | none =>
        simp only [Option.getD_some, ne_eq, hne, not_false_eq_true, decide_true, if_true]
        cases getChangedFilesInternal env.objects r.head sha with
        | error e => exact ⟨_, rfl⟩
        | ok files => rfl

def CheckoutEnv.succeeds (env : CheckoutEnv) : Bool :=
  env.commitError.isNone && env.worktreeError.isNone && env.checkoutError.isNone

theorem rollback_of_succeeds {env : CheckoutEnv} (h : env.succeeds = true) (r : Repository) (targetSHA : SHA) :
    r.rollback env targetSHA = (none, { r with head := targetSHA }) := by
  simp only [CheckoutEnv.succeeds, Bool.and_eq_true, Option.isNone_iff_eq_none] at h
  obtain ⟨⟨hcommit, hworktree⟩, hcheckout⟩ := h
  simp [Repository.rollback, CheckoutEnv.checkout, failing, hcommit, hworktree, hcheckout]

theorem rollback_of_not_succeeds {env : CheckoutEnv} (h : env.succeeds = false) (r : Repository) (targetSHA : SHA) :
    ∃ e, r.rollback env targetSHA = (some e, r) := by
  unfold Repository.rollback CheckoutEnv.checkout
  unfold CheckoutEnv.succeeds at h
  cases hcommit : env.commitError with
  | some e => exact ⟨_, rfl⟩
  | none =>
    cases hworktree : env.worktreeError with
    | some e => exact ⟨_, rfl⟩
    | none =>
      cases hcheckout : env.checkoutError with
      | some e => exact ⟨_, rfl⟩
      | none =>
        rw [hcommit, hworktree, hcheckout] at h
        cases h

end Jupiter.Git
