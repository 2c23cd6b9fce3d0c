/-
Does every change of a policy reach the loader? `getChangedFilesInternal` keeps one path of each change,
`hasPolicyFileChanges` tests its extension, and the loader selects its files by rules of its own.

Both commits are working trees, with a list of changes that names every path at which they differ.
-/
import Jupiter.Git.Watcher
import Jupiter.Manager.Loader

namespace Jupiter.Git

open Jupiter.Go Jupiter.Lib Jupiter.Manager

inductive Entry where
  | file (content : Content)
  | symlink (target : String)
  deriving DecidableEq

def entryAt (w : Worktree) (path : Path) : Option Entry :=
  match w.root.find path with
  | some (.file content) => some (.file content)
  | some (.symlink target) => some (.symlink target)
  | _ => none

/-- The tree diff names every path that was removed or overwritten as old and every one that was added or
overwritten as new. -/
structure Describes (changes : List Change) (before after : Worktree) : Prop where
  old : ∀ p, entryAt before p ≠ entryAt after p → entryAt before p ≠ none → ∃ c ∈ changes, c.old = some p
  new : ∀ p, entryAt before p ≠ entryAt after p → entryAt after p ≠ none → ∃ c ∈ changes, c.new = some p

def LinkFree (dir : Path) (w : Worktree) : Prop := ∀ node, w.root.find dir = some node → node.linkFree = true

section

variable (toLower : String → String) (config : PolicyLoaderConfig) (dir : Path) (before after : Worktree)

/-- What is loaded from a path differs, or whether anything is. -/
def Altered (p : Path) : Prop := before.loaded toLower config dir p ≠ after.loaded toLower config dir p

instance (p : Path) : Decidable (Altered toLower config dir before after p) := inferInstanceAs (Decidable (_ ≠ _))

/-- The set of files loaded, or the content of one of them, differs. -/
def PoliciesDiffer : Prop := ∃ p, Altered toLower config dir before after p

/-- A change of what is loaded from a path is kept under a path that does not look like a policy: the file was
renamed, or its own path does not, because of capitals in its extension or because it is a link. -/
inductive Escapes : Change → Prop
  | renamedAway {p q : Path} : Altered toLower config dir before after p → isPolicyFile q = false →
      Escapes ⟨some p, some q⟩
  | notNamedSo {c : Change} {p : Path} : c.file = some p → Altered toLower config dir before after p →
      isPolicyFile p = false → Escapes c

/-- What is loaded from a path differs although the commits store the same there. -/
def ThroughLink (p : Path) : Prop := Altered toLower config dir before after p ∧ entryAt before p = entryAt after p

end

variable {toLower : String → String} {config : PolicyLoaderConfig} {dir : Path} {before after : Worktree}
  {changes : List Change}

/-! ## What the loader sees of a change -/

theorem loaded_eq_none {w : Worktree} (hfree : LinkFree dir w) {p : Path}
    (h : ¬ ∃ content, WouldLoad toLower config dir p ∧ w.root.find p = some (.file content)) :
    w.loaded toLower config dir p = none := by
  by_contra hne
  obtain ⟨content, hcontent⟩ := Option.ne_none_iff_exists'.1 hne
  exact h ⟨content, (Worktree.loaded_eq_some hfree).1 hcontent⟩

theorem entryAt_of_linkFree {w : Worktree} (hfree : LinkFree dir w) {p : Path} (hload : WouldLoad toLower config dir p) :
    entryAt w p = (w.loaded toLower config dir p).map .file := by
  unfold entryAt
  rcases hfind : w.root.find p with _ | content | target | entries
  · rw [loaded_eq_none hfree (by simp [hfind])]
    rfl
  · rw [(Worktree.loaded_eq_some hfree).2 ⟨hload, hfind⟩]
    rfl
  · obtain ⟨rel, rfl, -⟩ := hload
    rw [Node.find_append] at hfind
    obtain ⟨node, hnode, hlink⟩ := Option.bind_eq_some_iff.1 hfind
    cases Node.linkFree_find (hfree node hnode) hlink
  · rw [loaded_eq_none hfree (by simp [hfind])]
    rfl

theorem altered_iff (hbefore : LinkFree dir before) (hafter : LinkFree dir after) (p : Path) :
    Altered toLower config dir before after p ↔ WouldLoad toLower config dir p ∧ entryAt before p ≠ entryAt after p := by
  constructor
  · intro hp
    have hload : WouldLoad toLower config dir p := by
      by_contra hno
      have hnone : ∀ {w}, LinkFree dir w → w.loaded toLower config dir p = none :=
        fun hfree => loaded_eq_none hfree fun ⟨_, h, _⟩ => hno h
      exact hp ((hnone hbefore).trans (hnone hafter).symm)
    refine ⟨hload, fun hsame => hp ?_⟩
    rw [entryAt_of_linkFree hbefore hload, entryAt_of_linkFree hafter hload] at hsame
    exact Option.map_injective (fun _ _ h => Entry.file.inj h) hsame
  · rintro ⟨hload, hp⟩ hsame
    apply hp
    rw [entryAt_of_linkFree hbefore hload, entryAt_of_linkFree hafter hload, hsame]

/-! ## What the watcher sees of a change -/

theorem hasPolicyFileChanges_iff : hasPolicyFileChanges (changes.filterMap Change.file) = true ↔
    ∃ c ∈ changes, ∃ p, c.file = some p ∧ isPolicyFile p = true := by
  simp only [hasPolicyFileChanges, List.any_eq_true, List.mem_filterMap]
  constructor
  · rintro ⟨p, ⟨c, hc, hfile⟩, hpolicy⟩
    exact ⟨c, hc, p, hfile, hpolicy⟩
  · rintro ⟨c, hc, p, hfile, hpolicy⟩
    exact ⟨p, ⟨c, hc, hfile⟩, hpolicy⟩

theorem Describes.seen (h : Describes changes before after) {p : Path} (hp : Altered toLower config dir before after p)
    (hdiffer : entryAt before p ≠ entryAt after p) (hnone : ∀ c ∈ changes, ¬ Escapes toLower config dir before after c) :
    ∃ c ∈ changes, ∃ q, c.file = some q ∧ isPolicyFile q = true := by
  -- what is kept of the change is the path itself, or the name it was renamed to
  have hkept : ∃ c ∈ changes, c.file = some p ∨ ∃ q, c = ⟨some p, some q⟩ := by
    by_cases hold : entryAt before p = none
    · obtain ⟨c, hc, hnew⟩ := h.new p hdiffer fun hnew => hdiffer (hold.trans hnew.symm)
      exact ⟨c, hc, .inl (by simp [Change.file, hnew])⟩
    · obtain ⟨⟨_, new⟩, hc, rfl⟩ := h.old p hdiffer hold
      cases new with
      | none => exact ⟨_, hc, .inl rfl⟩
      | some q => exact ⟨_, hc, .inr ⟨q, rfl⟩⟩
  obtain ⟨c, hc, hfile | ⟨q, rfl⟩⟩ := hkept
  · refine ⟨c, hc, p, hfile, ?_⟩
    by_contra hno
    exact hnone c hc (.notNamedSo hfile hp (Bool.eq_false_iff.2 hno))
  · refine ⟨_, hc, q, rfl, ?_⟩
    by_contra hno
    exact hnone _ hc (.renamedAway hp (Bool.eq_false_iff.2 hno))

theorem Escapes.policiesDiffer {c : Change} (h : Escapes toLower config dir before after c) :
    PoliciesDiffer toLower config dir before after := by
  cases h with
  | renamedAway hp => exact ⟨_, hp⟩
  | notNamedSo _ hp => exact ⟨_, hp⟩

theorem checkForChanges_triggers {sha256 : Digest} {validation : ValidationConfig} {tree : SHA → Source} {s : System}
    {env : PullEnv} {files : List Path} (hmoved : env.target s.manager.gitRepo.head ≠ s.manager.gitRepo.head)
    (hreported : env.reported s.manager.gitRepo.head (env.target s.manager.gitRepo.head) = some files)
    (hpolicy : hasPolicyFileChanges files = true) (reading : Reading) (checkout : CheckoutEnv) (mixed : Source) :
    ∃ s', run (System.step sha256 validation tree) s
        [.checkForChanges env, .resume s.tasks.length reading checkout mixed] = some s' ∧
      s'.watcher.debounceTimer = some (env.target s.manager.gitRepo.head) := by
  obtain ⟨gitRepo, hpolled⟩ := System.pull_of_reported
    (s := { s with watcher.metrics.pollCount := s.watcher.metrics.pollCount + 1 }) hmoved hreported .handle
  have hrun := congrArg
    (fun s' => run (System.step sha256 validation tree) s' [.resume s.tasks.length reading checkout mixed]) hpolled
  refine ⟨_, hrun.trans (System.run_push_resume _ _ reading checkout mixed []), ?_⟩
  simp only [System.resume, hpolicy, if_true]

/-- A change of the policies is seen and a reload is triggered exactly when some path kept of the changes looks like a
policy, or no change escapes and nothing changes through a link, which without links nothing does. -/
theorem policy_change_seen_iff (toLower : String → String) (config : PolicyLoaderConfig) (dir : Path)
    (before after : Worktree) (changes : List Change) (hdescribes : Describes changes before after) (sha256 : Digest)
    (validation : ValidationConfig) (tree : SHA → Source) (s : System) (env : PullEnv)
    (hmoved : env.target s.manager.gitRepo.head ≠ s.manager.gitRepo.head)
    (hreported : env.reported s.manager.gitRepo.head (env.target s.manager.gitRepo.head) =
      some (changes.filterMap Change.file)) :
    ((PoliciesDiffer toLower config dir before after →
        hasPolicyFileChanges (changes.filterMap Change.file) = true ∧
        ∀ reading checkout mixed, ∃ s', run (System.step sha256 validation tree) s
            [.checkForChanges env, .resume s.tasks.length reading checkout mixed] = some s' ∧
          s'.watcher.debounceTimer = some (env.target s.manager.gitRepo.head)) ↔
      (∃ c ∈ changes, ∃ p, c.file = some p ∧ isPolicyFile p = true) ∨
        (∀ c ∈ changes, ¬ Escapes toLower config dir before after c) ∧
          ∀ p, ¬ ThroughLink toLower config dir before after p) ∧
    (LinkFree dir before → LinkFree dir after → ∀ p, ¬ ThroughLink toLower config dir before after p ∧
      (Altered toLower config dir before after p ↔
        WouldLoad toLower config dir p ∧ entryAt before p ≠ entryAt after p)) := by
  refine ⟨?_, fun hbefore hafter p =>
    ⟨fun hp => ((altered_iff hbefore hafter p).1 hp.1).2 hp.2, altered_iff hbefore hafter p⟩⟩
  constructor
  · intro hseen
    by_cases hshown : ∃ c ∈ changes, ∃ p, c.file = some p ∧ isPolicyFile p = true
    · exact .inl hshown
    · have hsame : ¬ PoliciesDiffer toLower config dir before after :=
        fun hdiffer => hshown (hasPolicyFileChanges_iff.1 (hseen hdiffer).1)
      exact .inr ⟨fun c _ hescapes => hsame hescapes.policiesDiffer, fun p hp => hsame ⟨p, hp.1⟩⟩
  · rintro hcondition ⟨p, hp⟩
    have hshown : ∃ c ∈ changes, ∃ p, c.file = some p ∧ isPolicyFile p = true := by
      rcases hcondition with hshown | ⟨hnone, hlink⟩
      · exact hshown
      · exact hdescribes.seen hp (fun hsame => hlink p ⟨hp, hsame⟩) hnone
    have hpolicy := hasPolicyFileChanges_iff.2 hshown
    exact ⟨hpolicy, fun reading checkout => checkForChanges_triggers hmoved hreported hpolicy reading checkout⟩

def oneFile (name : String) (content : Content) : Worktree where
  root := .dir (.cons "policies" (.dir (.cons name (.file content) .nil)) .nil)
  follow _ := .error "not a link"
  distinct := by simp [Node.Distinct, Entries.Distinct, Entries.names]

theorem eq_of_entryAt_oneFile {name : String} {content : Content} {p : Path}
    (h : entryAt (oneFile name content) p ≠ none) : p = ["policies", name] := by
  rcases p with _ | ⟨a, _ | ⟨b, _ | ⟨c, rest⟩⟩⟩ <;> simp [entryAt, oneFile, Node.find, Entries.find] at h
  grind

theorem describes_oneFile (name name' : String) (content content' : Content) :
    Describes [⟨some ["policies", name], some ["policies", name']⟩] (oneFile name content) (oneFile name' content') where
  old p _ hp := ⟨_, List.mem_singleton_self _, by rw [eq_of_entryAt_oneFile hp]⟩
  new p _ hp := ⟨_, List.mem_singleton_self _, by rw [eq_of_entryAt_oneFile hp]⟩

def asciiLower (s : String) : String := String.ofList (s.toList.map Char.toLower)

/-- A policy that is renamed to a text file and one whose extension is in capitals: the policies differ, and no path
that is kept looks like a policy. -/
theorem changes_escape :
    (Describes [⟨some ["policies", "main.yaml"], some ["policies", "main.txt"]⟩] (oneFile "main.yaml" [1])
        (oneFile "main.txt" [1]) ∧
      PoliciesDiffer asciiLower {} ["policies"] (oneFile "main.yaml" [1]) (oneFile "main.txt" [1]) ∧
      hasPolicyFileChanges ([⟨some ["policies", "main.yaml"], some ["policies", "main.txt"]⟩].filterMap Change.file) =
        false) ∧
    (Describes [⟨some ["policies", "MAIN.YAML"], some ["policies", "MAIN.YAML"]⟩] (oneFile "MAIN.YAML" [1])
        (oneFile "MAIN.YAML" [2]) ∧
      PoliciesDiffer asciiLower {} ["policies"] (oneFile "MAIN.YAML" [1]) (oneFile "MAIN.YAML" [2]) ∧
      hasPolicyFileChanges ([⟨some ["policies", "MAIN.YAML"], some ["policies", "MAIN.YAML"]⟩].filterMap Change.file) =
        false) :=
  ⟨⟨describes_oneFile _ _ _ _, ⟨["policies", "main.yaml"], by decide⟩, by decide⟩,
    ⟨describes_oneFile _ _ _ _, ⟨["policies", "MAIN.YAML"], by decide⟩, by decide⟩⟩

theorem policy_change_seen_modified :
    ∃ s', run (System.step id ⟨true, true⟩ (GitManager.onePolicyEach "bad"))
        (start (GitManager.loadedAt (GitManager.onePolicyEach "bad") "good"))
        [.checkForChanges (System.pullOf "better" ["policies", "main.yaml"]), .resume 0 { now := 1 } {}] = some s' ∧
      s'.watcher.debounceTimer = some "better" :=
  ((policy_change_seen_iff asciiLower {} ["policies"] (oneFile "main.yaml" [1]) (oneFile "main.yaml" [2])
    [⟨some ["policies", "main.yaml"], some ["policies", "main.yaml"]⟩] (describes_oneFile _ _ _ _) id ⟨true, true⟩
    (GitManager.onePolicyEach "bad") (start (GitManager.loadedAt (GitManager.onePolicyEach "bad") "good"))
    (System.pullOf "better" ["policies", "main.yaml"]) (by decide) rfl).1.2
      (.inl ⟨_, List.mem_singleton_self _, _, rfl, by decide⟩) ⟨["policies", "main.yaml"], by decide⟩).2 { now := 1 } {} _

end Jupiter.Git
