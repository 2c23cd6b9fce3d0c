/-
Which changes the `FileWatcher` of `pkg/policy/manager/watcher.go` sees of those that change what the loader loads.

An event is dropped when its operations contain `Chmod`, whatever else they contain, and when the name of its path has
no allowed extension, though the loader goes by the extension of what a link leads to. Directories are added when
`Watch` starts and never again.

A watch of fsnotify is gone when its directory is removed, renamed or replaced.
-/
import Jupiter.Lib.Machine
import Jupiter.Manager.Symlinks

namespace Jupiter.Manager

open Jupiter.Go Jupiter.Lib

/-- The fields of `FileWatcherConfig` that are looked at. -/
structure FileWatcherConfig where
  extensions : List String := [".yaml", ".yml"]
  skipHidden : Bool := true

/-- An event of fsnotify; `op` is a set of bits. -/
structure FileEvent where
  name : Path
  op : BitVec 32

def FileEvent.chmod : BitVec 32 := 16

section Watcher

variable (toLower : String → String) (config : FileWatcherConfig)

def FileWatcherConfig.hides (name : String) : Bool := config.skipHidden && Strings.startsWith name "."

def shouldProcessEvent (event : FileEvent) : Bool :=
  if event.op &&& FileEvent.chmod = FileEvent.chmod then false
  else if !(config.extensions.any fun validExt => toLower event.name.ext = toLower validExt) then false
  else !config.hides (event.name.getLast?.getD "/")

mutual

def Node.addDirectory (path : Path) : Node → List Path
  | .dir entries => path :: entries.addDirectory path
  | _ => []

def Entries.addDirectory (path : Path) : Entries → List Path
  | .nil => []
  | .cons name node rest =>
    if config.hides name then rest.addDirectory path
    else node.addDirectory (path ++ [name]) ++ rest.addDirectory path

end

end Watcher

def Node.isDir (root : Node) (path : Path) : Bool :=
  match root.find path with
  | some (.dir _) => true
  | _ => false

/-- The tree, and the directories that are watched. -/
structure Watching where
  root : Node
  watched : List Path

/-- A change of the tree, with the directories that another one was put in the place of. -/
structure TreeChange where
  root : Node
  replaced : List Path := []

namespace Watching

def start (config : FileWatcherConfig) (root : Node) (dir : Path) : Watching :=
  ⟨root, ((root.find dir).map (·.addDirectory config dir)).getD []⟩

def next (s : Watching) (c : TreeChange) : Watching :=
  ⟨c.root, s.watched.filter fun p => s.root.isDir p && c.root.isDir p && !c.replaced.contains p⟩

def step (s : Watching) (c : TreeChange) : Option Watching := some (s.next c)

end Watching

/-! ## Events -/

section Events

variable {toLower : String → String} {watcher : FileWatcherConfig} {loader : PolicyLoaderConfig}

theorem mem_policyFiles_of_foldlM {follow : Path → Except String (Path × Content)} :
    ∀ {l : List (Path × Bool)} {st st' : Collected},
      l.foldlM (fun st x => collectFile toLower loader follow x.1 x.2 st) st = .ok st' →
      ∀ p ∈ st'.policyFiles, p ∈ st.policyFiles ∨ p ∈ l.map Prod.fst
  | [], _, _, h, p, hp => by
    cases h
    exact .inl hp
  | (path, isLink) :: l, st, st', h, p, hp => by
    rw [List.foldlM_cons] at h
    cases hfile : collectFile toLower loader follow path isLink st with
    | error e =>
      rw [hfile] at h
      cases h
    | ok st₁ =>
      rw [hfile] at h
      have hadded : p ∈ st₁.policyFiles → p ∈ st.policyFiles ∨ p = path := by
        intro hp
        unfold collectFile at hfile
        repeat' split at hfile
        all_goals cases hfile
        all_goals simp_all
      rw [List.map_cons, List.mem_cons, ← or_assoc]
      exact (mem_policyFiles_of_foldlM h p hp).imp_left hadded

/-- What is loaded from a directory lies below it, with no hidden name on the way. -/
theorem exists_name_of_loaded {w : Worktree} {dir path : Path} {top : Entries} {files : List Path}
    (hdir : w.root.find dir = some (.dir top)) (hfiles : collectPolicyFiles toLower loader w dir = .ok files)
    (hpath : path ∈ files) : ∃ name, path.getLast? = some name ∧ hidden loader name = false := by
  unfold collectPolicyFiles at hfiles
  rw [hdir, Option.map_some, walk_eq_foldlM] at hfiles
  split at hfiles
  · rename_i st hst
    cases hfiles
    have hmem := (mem_policyFiles_of_foldlM (Option.some.inj hst) path hpath).resolve_left List.not_mem_nil
    obtain ⟨⟨p, b⟩, hleaf, rfl⟩ := List.mem_map.1 hmem
    obtain ⟨rel, sub, rfl, hfind, hvisible, -, hnotDir⟩ :=
      (Node.mem_leaves (Node.Distinct.find w.distinct hdir)).1 hleaf
    rcases List.eq_nil_or_concat rel with rfl | ⟨rel, name, rfl⟩
    · cases hfind
      exact absurd rfl (hnotDir top)
    · refine ⟨name, ?_, hvisible name (by simp)⟩
      rw [List.concat_eq_append, ← List.append_assoc, List.getLast?_concat]
  · cases hfiles

theorem shouldProcessEvent_iff (hextensions : watcher.extensions = loader.allowedExtensions)
    (hhidden : watcher.skipHidden = loader.skipHidden) {path : Path} {name : String} (hlast : path.getLast? = some name)
    (hvisible : hidden loader name = false) (op : BitVec 32) :
    shouldProcessEvent toLower watcher ⟨path, op⟩ = true ↔
      op &&& FileEvent.chmod ≠ FileEvent.chmod ∧ hasValidExtension toLower loader path = true := by
  have hshown : watcher.hides name = false := by
    rw [FileWatcherConfig.hides, hhidden]
    exact hvisible
  simp [shouldProcessEvent, hasValidExtension, hextensions, hlast, hshown]

end Events

/-! ## Directories -/

/-- The walk of the loader descends into the directory. -/
def Node.Descends (root : Node) (loader : PolicyLoaderConfig) (dir path : Path) : Prop :=
  ∃ rel, path = dir ++ rel ∧ root.isDir path = true ∧ ∀ name ∈ rel, hidden loader name = false

theorem Node.isDir_iff {root : Node} {path : Path} :
    root.isDir path = true ↔ ∃ entries, root.find path = some (.dir entries) := by
  unfold Node.isDir
  split
  · simp_all
  · simp_all

mutual

theorem Node.mem_addDirectory {watcher : FileWatcherConfig} : ∀ {node : Node} {rel path : Path} {entries : Entries},
    node.find rel = some (.dir entries) → (∀ name ∈ rel, watcher.hides name = false) →
      path ++ rel ∈ node.addDirectory watcher path
  | .dir _, [], path, _, _, _ => by
    rw [List.append_nil, Node.addDirectory]
    exact List.mem_cons_self
  | .dir _, _ :: _, path, _, hfind, hvisible => by
    rw [Node.addDirectory]
    exact List.mem_cons_of_mem _ (Entries.mem_addDirectory hfind hvisible)
  | .file _, [], _, _, hfind, _ | .file _, _ :: _, _, _, hfind, _ => by cases hfind
  | .symlink _, [], _, _, hfind, _ | .symlink _, _ :: _, _, _, hfind, _ => by cases hfind

theorem Entries.mem_addDirectory {watcher : FileWatcherConfig} : ∀ {entries : Entries} {name : String} {rel path : Path}
    {sub : Entries}, entries.find name rel = some (.dir sub) → (∀ n ∈ name :: rel, watcher.hides n = false) →
      path ++ name :: rel ∈ entries.addDirectory watcher path
  | .nil, _, _, _, _, hfind, _ => by cases hfind
  | .cons first node rest, name, rel, path, sub, hfind, hvisible => by
    simp only [Entries.find] at hfind
    rw [Entries.addDirectory]
    split at hfind
    · rename_i heq
      subst heq
      obtain ⟨hfirst, hrel⟩ := List.forall_mem_cons.1 hvisible
      rw [if_neg (by simp [hfirst])]
      exact List.mem_append_left _ (List.append_cons path first rel ▸ Node.mem_addDirectory hfind hrel)
    · have hrest : path ++ name :: rel ∈ rest.addDirectory watcher path := Entries.mem_addDirectory hfind hvisible
      split
      · exact hrest
      · exact List.mem_append_right _ hrest

end

namespace Watching

variable {loader : PolicyLoaderConfig} {dir : Path} {s : Watching}

/-- Every directory that the loader descends into is watched. -/
def AllWatched (loader : PolicyLoaderConfig) (dir : Path) (s : Watching) : Prop :=
  ∀ p, s.root.Descends loader dir p → p ∈ s.watched

/-- Every directory that the loader descends into after the change was there before it. -/
def NoNewDirectory (loader : PolicyLoaderConfig) (dir : Path) (s : Watching) (c : TreeChange) : Prop :=
  ∀ p, c.root.Descends loader dir p → s.root.isDir p = true ∧ p ∉ c.replaced

theorem allWatched_start {watcher : FileWatcherConfig} (hhidden : watcher.skipHidden = loader.skipHidden) {root : Node}
    {top : Entries} (hdir : root.find dir = some (.dir top)) : AllWatched loader dir (start watcher root dir) := by
  rintro p ⟨rel, rfl, hisDir, hvisible⟩
  obtain ⟨entries, hfind⟩ := Node.isDir_iff.1 hisDir
  have hroot : root.find (dir ++ rel) = some (.dir entries) := hfind
  rw [Node.find_append, hdir] at hroot
  rw [start, hdir, Option.map_some, Option.getD_some]
  refine Node.mem_addDirectory hroot fun name hname => ?_
  rw [FileWatcherConfig.hides, hhidden]
  exact hvisible name hname

theorem allWatched_next_iff (h : AllWatched loader dir s) (c : TreeChange) :
    AllWatched loader dir (s.next c) ↔ NoNewDirectory loader dir s c := by
  refine forall_congr' fun p => imp_congr_right fun hp => ?_
  obtain ⟨rel, rfl, hisDir, hvisible⟩ := hp
  have hnow : c.root.isDir (dir ++ rel) = true := hisDir
  simp only [next, List.mem_filter, hnow, Bool.and_true, Bool.and_eq_true, Bool.not_eq_true', List.contains_eq_mem,
    decide_eq_false_iff_not]
  exact ⟨fun h => h.2, fun hold => ⟨h _ ⟨rel, rfl, hold.1, hvisible⟩, hold⟩⟩

end Watching

/-- An event on a path that is loaded from the directory is processed exactly when its operations are without `Chmod`
and the name of the path itself has an allowed extension. Along a run of changes, every directory that the loader
descends into is watched exactly when none of them is new. -/
theorem watcher_sees_changes_iff (toLower : String → String) (watcher : FileWatcherConfig) (loader : PolicyLoaderConfig)
    (hextensions : watcher.extensions = loader.allowedExtensions) (hhidden : watcher.skipHidden = loader.skipHidden)
    (dir : Path) :
    (∀ (w : Worktree) (top : Entries) (files : List Path), w.root.find dir = some (.dir top) →
      collectPolicyFiles toLower loader w dir = .ok files → ∀ path ∈ files, ∀ op,
        (shouldProcessEvent toLower watcher ⟨path, op⟩ = true ↔
          op &&& FileEvent.chmod ≠ FileEvent.chmod ∧ hasValidExtension toLower loader path = true)) ∧
    ∀ (root : Node) (top : Entries), root.find dir = some (.dir top) →
      Watching.AllWatched loader dir (.start watcher root dir) ∧ ∀ changes,
        (Meets Watching.step (fun s c => Watching.AllWatched loader dir (s.next c)) (.start watcher root dir) changes ↔
          Meets Watching.step (Watching.NoNewDirectory loader dir) (.start watcher root dir) changes) := by
  constructor
  · intro w top files hdir hfiles path hpath op
    obtain ⟨name, hlast, hvisible⟩ := exists_name_of_loaded hdir hfiles hpath
    exact shouldProcessEvent_iff hextensions hhidden hlast hvisible op
  · intro root top hdir
    have hstart : Watching.AllWatched loader dir (.start watcher root dir) := Watching.allWatched_start hhidden hdir
    refine ⟨hstart, meets_congr hstart ?_ ?_⟩
    · exact fun s c _ hnext => ⟨s.next c, rfl, hnext⟩
    · exact fun s c hs => Watching.allWatched_next_iff hs c

def watchedTree (new : Entries) : Node :=
  .dir (.cons "policies" (.dir (.cons "a.yaml" (.file []) (.cons "link" (.symlink "../b.yaml") new))) .nil)

def watchedWorktree : Worktree where
  root := watchedTree .nil
  follow _ := .ok (["b.yaml"], [])
  distinct := by simp [watchedTree, Node.Distinct, Entries.Distinct, Entries.names]

/-- A file is written, and a directory is removed. -/
theorem watcher_sees_write : shouldProcessEvent id {} ⟨["policies", "a.yaml"], 2⟩ = true ∧
    Watching.AllWatched {} ["policies"]
      ((Watching.start {} (watchedTree (.cons "old" (.dir .nil) .nil)) ["policies"]).next ⟨watchedTree .nil, []⟩) := by
  have hfiles : collectPolicyFiles id {} watchedWorktree ["policies"] =
      .ok [["policies", "a.yaml"], ["policies", "link"]] := rfl
  obtain ⟨hsees, hdirs⟩ := watcher_sees_changes_iff id {} {} rfl rfl ["policies"]
  refine ⟨(hsees watchedWorktree _ _ rfl hfiles _ List.mem_cons_self 2).2 (by decide), ?_⟩
  refine (((hdirs (watchedTree (.cons "old" (.dir .nil) .nil)) _ rfl).2 [⟨_, []⟩]).2 ⟨?_, fun _ _ => trivial⟩).1
  rintro p ⟨rel, rfl, hisDir, -⟩
  refine ⟨?_, List.not_mem_nil⟩
  rcases rel with _ | ⟨name, rest⟩
  · rfl
  · cases rest <;> by_cases ha : "a.yaml" = name <;> by_cases hl : "link" = name <;>
      simp [Node.isDir, watchedTree, Node.find, Entries.find, ha, hl] at hisDir

/-- A write that also changes the mode, a write through the link, and a new directory. -/
theorem watcher_misses_changes :
    (∃ files, collectPolicyFiles id {} watchedWorktree ["policies"] = .ok files ∧ ["policies", "a.yaml"] ∈ files ∧
      shouldProcessEvent id {} ⟨["policies", "a.yaml"], 18⟩ = false ∧ ["policies", "link"] ∈ files ∧
      shouldProcessEvent id {} ⟨["policies", "link"], 2⟩ = false) ∧
    ¬ Watching.AllWatched {} ["policies"]
      ((Watching.start {} (watchedTree .nil) ["policies"]).next ⟨watchedTree (.cons "new" (.dir .nil) .nil), []⟩) := by
  refine ⟨⟨_, rfl, by decide, by decide, by decide, by decide⟩, fun h => ?_⟩
  exact absurd (h ["policies", "new"] ⟨["new"], rfl, rfl, by decide⟩) (by decide)

end Jupiter.Manager
