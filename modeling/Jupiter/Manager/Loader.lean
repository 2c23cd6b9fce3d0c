/-
`collectPolicyFiles` of `pkg/policy/manager/loader.go`: which files below a directory are loaded.

A working tree is a tree of nodes, in which no directory has two entries of one name. Where a link leads and what is
read there is a parameter, and so is `strings.ToLower`; no link stands on the way to the directory itself.
-/
import Jupiter.Manager.Path

namespace Jupiter.Manager

open Jupiter.Go

/-! ## Working trees -/

abbrev Content := List UInt8

mutual

inductive Node where
  | file (content : Content)
  | symlink (target : String)
  | dir (entries : Entries)

inductive Entries where
  | nil
  | cons (name : String) (node : Node) (rest : Entries)

end

mutual

/-- What a path, given from the node, leads to. -/
def Node.find : Node → Path → Option Node
  | node, [] => some node
  | .dir entries, name :: rest => entries.find name rest
  | _, _ :: _ => none

def Entries.find : Entries → String → Path → Option Node
  | .nil, _, _ => none
  | .cons n node entries, name, rest => if n = name then node.find rest else entries.find name rest

end

def Entries.names : Entries → List String
  | .nil => []
  | .cons name _ rest => name :: rest.names

mutual

def Node.Distinct : Node → Prop
  | .dir entries => entries.Distinct
  | _ => True

def Entries.Distinct : Entries → Prop
  | .nil => True
  | .cons name node rest => name ∉ rest.names ∧ node.Distinct ∧ rest.Distinct

end

mutual

def Node.linkFree : Node → Bool
  | .file _ => true
  | .symlink _ => false
  | .dir entries => entries.linkFree

def Entries.linkFree : Entries → Bool
  | .nil => true
  | .cons _ node rest => node.linkFree && rest.linkFree

end

/-- The working tree of a commit; `follow` gives the real path of a link and what is read through it. -/
structure Worktree where
  root : Node
  follow : Path → Except String (Path × Content)
  distinct : root.Distinct

/-! ## The walk -/

structure LoadError where
  filePath : Path
  message : String
  deriving DecidableEq

structure PolicyLoaderConfig where
  allowedExtensions : List String := [".yaml", ".yml"]
  followSymlinks : Bool := true
  skipHidden : Bool := true

section Walk

variable (toLower : String → String) (config : PolicyLoaderConfig)

def hasValidExtension (path : Path) : Bool :=
  config.allowedExtensions.any fun validExt => toLower path.ext = toLower validExt

/-- A name that is passed over, except for the directory the walk starts at. -/
def hidden (name : String) : Bool := config.skipHidden && Strings.startsWith name "."

structure Collected where
  policyFiles : List Path := []
  visited : List Path := []
  deriving DecidableEq

def collectFile (follow : Path → Except String (Path × Content)) (path : Path) (isLink : Bool) (st : Collected) :
    Except LoadError Collected :=
  if isLink then
    if config.followSymlinks then
      match follow path with
      | .error _ => .error { filePath := path, message := "failed to resolve symlink" }
      | .ok (realPath, _) =>
        if st.visited.contains realPath then .error { filePath := path, message := "symlink loop detected" }
        else
          let st := { st with visited := realPath :: st.visited }
          if hasValidExtension toLower config realPath then .ok { st with policyFiles := st.policyFiles ++ [path] }
          else .ok st
    else .ok st
  else if hasValidExtension toLower config path then .ok { st with policyFiles := st.policyFiles ++ [path] }
  else .ok st

mutual

def walk (follow : Path → Except String (Path × Content)) (path : Path) : Node → Collected → Except LoadError Collected
  | .file _, st => collectFile toLower config follow path false st
  | .symlink _, st => collectFile toLower config follow path true st
  | .dir entries, st => walkEntries follow path entries st

def walkEntries (follow : Path → Except String (Path × Content)) (path : Path) :
    Entries → Collected → Except LoadError Collected
  | .nil, st => .ok st
  | .cons name node rest, st =>
    if hidden config name then walkEntries follow path rest st
    else
      match walk follow (path ++ [name]) node st with
      | .error e => .error e
      | .ok st => walkEntries follow path rest st

end

def collectPolicyFiles (w : Worktree) (dir : Path) : Except LoadError (List Path) :=
  match (w.root.find dir).map fun node => walk toLower config w.follow dir node {} with
  | some (.ok st) => .ok st.policyFiles
  | _ => .error { filePath := dir, message := "failed to walk directory" }

def Worktree.read (w : Worktree) (path : Path) : Option Content :=
  match w.root.find path with
  | some (.file content) => some content
  | some (.symlink _) => (w.follow path).toOption.map Prod.snd
  | _ => none

/-- What the loader loads from a path, if it loads it. -/
def Worktree.loaded (w : Worktree) (dir path : Path) : Option Content :=
  match collectPolicyFiles toLower config w dir with
  | .ok files => if files.contains path then w.read path else none
  | .error _ => none

end Walk

/-! ## Paths in a tree -/

mutual

theorem Node.find_append : ∀ (node : Node) (p q : Path), node.find (p ++ q) = (node.find p).bind (·.find q)
  | _, [], _ => by simp [Node.find]
  | .dir entries, name :: rest, q => by
    simp only [List.cons_append, Node.find]
    exact entries.find_append name rest q
  | .file _, _ :: _, _ => rfl
  | .symlink _, _ :: _, _ => rfl

theorem Entries.find_append : ∀ (entries : Entries) (name : String) (rest q : Path),
    entries.find name (rest ++ q) = (entries.find name rest).bind (·.find q)
  | .nil, _, _, _ => rfl
  | .cons n node entries, name, rest, q => by
    simp only [Entries.find]
    split
    · exact node.find_append rest q
    · exact entries.find_append name rest q

end

theorem Entries.find_of_not_mem : ∀ (entries : Entries) {name : String}, name ∉ entries.names →
    ∀ rest, entries.find name rest = none
  | .nil, _, _, _ => rfl
  | .cons n node entries, name, h, rest => by
    obtain ⟨hne, hrest⟩ := not_or.1 (mt List.mem_cons.2 h)
    rw [Entries.find, if_neg (Ne.symm hne)]
    exact entries.find_of_not_mem hrest rest

theorem Entries.find_cons_iff {name : String} {node : Node} {rest : Entries} (hfresh : name ∉ rest.names) {n : String}
    {p : Path} {sub : Node} :
    (Entries.cons name node rest).find n p = some sub ↔
      (n = name ∧ node.find p = some sub) ∨ rest.find n p = some sub := by
  rw [Entries.find]
  by_cases hn : name = n
  · subst hn
    rw [if_pos rfl, rest.find_of_not_mem hfresh]
    simp
  · rw [if_neg hn]
    simp [Ne.symm hn]

mutual

theorem Node.find_keeps {P : Node → Prop} {Q : Entries → Prop} (hdir : ∀ entries, P (.dir entries) → Q entries)
    (hcons : ∀ name node rest, Q (.cons name node rest) → P node ∧ Q rest) :
    ∀ {node : Node}, P node → ∀ {p : Path} {sub : Node}, node.find p = some sub → P sub
  | _, h, [], _, heq => by
    rw [Node.find] at heq
    exact Option.some.inj heq ▸ h
  | .dir _, h, _ :: _, _, heq => Entries.find_keeps hdir hcons (hdir _ h) heq
  | .file _, _, _ :: _, _, heq => nomatch heq
  | .symlink _, _, _ :: _, _, heq => nomatch heq

theorem Entries.find_keeps {P : Node → Prop} {Q : Entries → Prop} (hdir : ∀ entries, P (.dir entries) → Q entries)
    (hcons : ∀ name node rest, Q (.cons name node rest) → P node ∧ Q rest) :
    ∀ {entries : Entries}, Q entries → ∀ {name : String} {p : Path} {sub : Node}, entries.find name p = some sub → P sub
  | .nil, _, _, _, _, heq => nomatch heq
  | .cons _ _ _, h, _, _, _, heq => by
    obtain ⟨hnode, hrest⟩ := hcons _ _ _ h
    simp only [Entries.find] at heq
    split at heq
    · exact Node.find_keeps hdir hcons hnode heq
    · exact Entries.find_keeps hdir hcons hrest heq

end

theorem Node.Distinct.find {node : Node} (h : node.Distinct) {p : Path} {sub : Node} (heq : node.find p = some sub) :
    sub.Distinct :=
  Node.find_keeps (P := Node.Distinct) (Q := Entries.Distinct) (fun _ h => h) (fun _ _ _ h => h.2) h heq

/-! ## Trees without links -/

theorem Node.linkFree_find {node : Node} (h : node.linkFree = true) {p : Path} {sub : Node}
    (heq : node.find p = some sub) : sub.linkFree = true :=
  Node.find_keeps (P := fun node => node.linkFree = true) (Q := fun entries => entries.linkFree = true) (fun _ h => h)
    (fun _ _ _ h => Bool.and_eq_true_iff.1 h) h heq

section LinkFree

variable (toLower : String → String) (config : PolicyLoaderConfig)

/-- The path is below the directory, nothing on the way is hidden, and it has one of the extensions. -/
def WouldLoad (dir path : Path) : Prop :=
  ∃ rel, path = dir ++ rel ∧ (∀ name ∈ rel, hidden config name = false) ∧ hasValidExtension toLower config path = true

mutual

/-- By induction on the tree: without links the walk does not fail, and it adds the files whose paths would be
loaded. -/
theorem walk_linkFree (follow : Path → Except String (Path × Content)) : ∀ (node : Node) (path : Path) (st : Collected),
    node.linkFree = true → node.Distinct → ∃ files,
      walk toLower config follow path node st = .ok { st with policyFiles := st.policyFiles ++ files } ∧
      ∀ q, q ∈ files ↔ ∃ rel, q = path ++ rel ∧ (∃ content, node.find rel = some (.file content)) ∧
        (∀ name ∈ rel, hidden config name = false) ∧ hasValidExtension toLower config q = true
  | .file content, path, st, _, _ => by
    simp only [walk, collectFile, Bool.false_eq_true, if_false]
    split
    · next hvalid =>
      refine ⟨[path], rfl, fun q => ?_⟩
      rw [List.mem_singleton]
      constructor
      · rintro rfl
        exact ⟨[], by simp, ⟨content, rfl⟩, nofun, hvalid⟩
      · rintro ⟨_ | ⟨n, rel⟩, rfl, ⟨c, hfind⟩, -, -⟩
        · simp
        · cases hfind
    · next hvalid =>
      refine ⟨[], by simp, fun q => ⟨nofun, ?_⟩⟩
      rintro ⟨_ | ⟨n, rel⟩, rfl, ⟨c, hfind⟩, -, hq⟩
      · rw [List.append_nil] at hq
        exact absurd hq hvalid
      · cases hfind
  | .dir entries, path, st, hfree, hdistinct => by
    obtain ⟨files, hwalk, hmem⟩ := walkEntries_linkFree follow entries path st hfree hdistinct
    refine ⟨files, hwalk, fun q => (hmem q).trans ?_⟩
    constructor
    · rintro ⟨name, rel, rfl, hfind, hvisible, hvalid⟩
      exact ⟨name :: rel, rfl, hfind, hvisible, hvalid⟩
    · rintro ⟨_ | ⟨name, rel⟩, rfl, hfind, hvisible, hvalid⟩
      · obtain ⟨c, hc⟩ := hfind
        cases hc
      · exact ⟨name, rel, rfl, hfind, hvisible, hvalid⟩

theorem walkEntries_linkFree (follow : Path → Except String (Path × Content)) :
    ∀ (entries : Entries) (path : Path) (st : Collected), entries.linkFree = true → entries.Distinct → ∃ files,
      walkEntries toLower config follow path entries st = .ok { st with policyFiles := st.policyFiles ++ files } ∧
      ∀ q, q ∈ files ↔ ∃ name rel, q = path ++ name :: rel ∧
        (∃ content, entries.find name rel = some (.file content)) ∧
        (∀ n ∈ name :: rel, hidden config n = false) ∧ hasValidExtension toLower config q = true
  | .nil, path, st, _, _ => ⟨[], by simp [walkEntries], fun q => ⟨nofun, fun ⟨_, _, _, ⟨_, hfind⟩, _⟩ => nomatch hfind⟩⟩
  | .cons name node rest, path, st, hfree, hdistinct => by
    obtain ⟨hnode, hrest⟩ := Bool.and_eq_true_iff.1 hfree
    obtain ⟨hfresh, hdnode, hdrest⟩ := hdistinct
    simp only [walkEntries, Entries.find_cons_iff hfresh]
    cases hhidden : hidden config name with
    | true =>
      obtain ⟨files, hwalk, hmem⟩ := walkEntries_linkFree follow rest path st hrest hdrest
      refine ⟨files, hwalk, fun q => (hmem q).trans ?_⟩
      constructor
      · rintro ⟨n, rel, rfl, ⟨c, hfind⟩, hvisible, hvalid⟩
        exact ⟨n, rel, rfl, ⟨c, .inr hfind⟩, hvisible, hvalid⟩
      · rintro ⟨n, rel, rfl, ⟨c, ⟨rfl, -⟩ | hfind⟩, hvisible, hvalid⟩
        · rw [hvisible n List.mem_cons_self] at hhidden
          cases hhidden
        · exact ⟨n, rel, rfl, ⟨c, hfind⟩, hvisible, hvalid⟩
    | false =>
      obtain ⟨files₁, hwalk₁, hmem₁⟩ := walk_linkFree follow node (path ++ [name]) st hnode hdnode
      obtain ⟨files₂, hwalk₂, hmem₂⟩ := walkEntries_linkFree follow rest path
        { st with policyFiles := st.policyFiles ++ files₁ } hrest hdrest
      refine ⟨files₁ ++ files₂, ?_, fun q => ?_⟩
      · simp only [hwalk₁, hwalk₂, Bool.false_eq_true, if_false, List.append_assoc]
      · rw [List.mem_append, hmem₁, hmem₂]
        constructor
        · rintro (⟨rel, rfl, ⟨c, hfind⟩, hvisible, hvalid⟩ | ⟨n, rel, rfl, ⟨c, hfind⟩, hvisible, hvalid⟩)
          · exact ⟨name, rel, by simp, ⟨c, .inl ⟨rfl, hfind⟩⟩, List.forall_mem_cons.2 ⟨hhidden, hvisible⟩, hvalid⟩
          · exact ⟨n, rel, rfl, ⟨c, .inr hfind⟩, hvisible, hvalid⟩
        · rintro ⟨n, rel, rfl, ⟨c, ⟨rfl, hfind⟩ | hfind⟩, hvisible, hvalid⟩
          · exact .inl ⟨rel, by simp, ⟨c, hfind⟩, (List.forall_mem_cons.1 hvisible).2, hvalid⟩
          · exact .inr ⟨n, rel, rfl, ⟨c, hfind⟩, hvisible, hvalid⟩

end

variable {toLower config}

theorem Worktree.loaded_eq_some {w : Worktree} {dir : Path}
    (hfree : ∀ node, w.root.find dir = some node → node.linkFree = true) {path : Path} {content : Content} :
    w.loaded toLower config dir path = some content ↔
      WouldLoad toLower config dir path ∧ w.root.find path = some (.file content) := by
  unfold Worktree.loaded collectPolicyFiles
  cases hdir : w.root.find dir with
  | none =>
    refine ⟨nofun, ?_⟩
    rintro ⟨⟨rel, rfl, -⟩, hfind⟩
    rw [Node.find_append, hdir] at hfind
    cases hfind
  | some node =>
    obtain ⟨files, hwalk, hmem⟩ :=
      walk_linkFree toLower config w.follow node dir {} (hfree node hdir) (Node.Distinct.find w.distinct hdir)
    have hbelow : ∀ rel, w.root.find (dir ++ rel) = node.find rel := by
      intro rel
      rw [Node.find_append, hdir]
      rfl
    simp only [Option.map_some, hwalk, List.nil_append, List.contains_iff_mem]
    constructor
    · intro h
      split at h
      · next hin =>
        obtain ⟨rel, rfl, ⟨c, hfind⟩, hvisible, hvalid⟩ := (hmem path).1 hin
        rw [← hbelow] at hfind
        rw [Worktree.read, hfind] at h
        cases h
        exact ⟨⟨rel, rfl, hvisible, hvalid⟩, hfind⟩
      · cases h
    · rintro ⟨⟨rel, rfl, hvisible, hvalid⟩, hfind⟩
      have hin : dir ++ rel ∈ files :=
        (hmem (dir ++ rel)).2 ⟨rel, rfl, ⟨content, (hbelow rel).symm.trans hfind⟩, hvisible, hvalid⟩
      rw [if_pos hin, Worktree.read, hfind]

end LinkFree

end Jupiter.Manager
