/-
`collectPolicyFiles` in a tree with symbolic links, all of which are followed.

`EvalSymlinks` is a walk over the components of a path in which a link is replaced by its target. The loader resolves
every link it meets in this way, but it does not descend into a directory behind a link, and it takes a second link to
one place for a loop.
-/
import Jupiter.Manager.Loader
import Mathlib.Data.List.Nodup
import Mathlib.Data.List.Pairwise

namespace Jupiter.Manager

open Jupiter.Go

/-! ## Links in a tree -/

mutual

/-- No entry has one of the names that mean something else in a path. -/
def Node.Named : Node → Prop
  | .dir entries => entries.Named
  | _ => True

def Entries.Named : Entries → Prop
  | .nil => True
  | .cons name node rest => name ∉ ["", ".", ".."] ∧ node.Named ∧ rest.Named

end

structure LinkedTree where
  root : Node
  distinct : root.Distinct
  named : root.Named

def tooManyLinks : String := "EvalSymlinks: too many links"

/-- The components of a path one after the other, from a directory without links on the way to it; `next` goes on
after a link. -/
def Node.walkSymlinks (root : Node) (next : Path → List String → Except String Path) :
    Path → List String → Except String Path
  | dest, [] => .ok dest
  | dest, name :: rest =>
    if name = "" ∨ name = "." then root.walkSymlinks next dest rest
    else if name = ".." then root.walkSymlinks next dest.dir rest
    else
      match root.find (dest ++ [name]) with
      | none => .error "no such file or directory"
      | some (.symlink target) => next (if Path.isAbs target then [] else dest) (Path.segments target ++ rest)
      | some (.file _) => if rest = [] then .ok (dest ++ [name]) else .error "not a directory"
      | some (.dir _) => root.walkSymlinks next (dest ++ [name]) rest

/-- The path with its links resolved, if there are at most so many. -/
def Node.resolveLinks (root : Node) : Nat → Path → List String → Except String Path
  | 0 => root.walkSymlinks fun _ _ => .error tooManyLinks
  | links + 1 => root.walkSymlinks (root.resolveLinks links)

namespace LinkedTree

def evalSymlinks (t : LinkedTree) (path : Path) : Except String Path := t.root.resolveLinks 255 [] path

def worktree (t : LinkedTree) : Worktree where
  root := t.root
  follow path := (t.evalSymlinks path).map fun realPath =>
    match t.root.find realPath with
    | some (.file content) => (realPath, content)
    | _ => (realPath, [])
  distinct := t.distinct

end LinkedTree

def Node.isLink : Node → Bool
  | .symlink _ => true
  | _ => false

mutual

theorem Node.Named.find : ∀ {node : Node}, node.Named → ∀ {p : Path} {sub : Node}, node.find p = some sub →
    ∀ name ∈ p, name ∉ ["", ".", ".."]
  | _, _, [], _, _ => List.forall_mem_nil _
  | .dir _, h, _ :: _, _, hfind => Entries.Named.find h hfind
  | .file _, _, _ :: _, _, hfind => by cases hfind
  | .symlink _, _, _ :: _, _, hfind => by cases hfind

theorem Entries.Named.find : ∀ {entries : Entries}, entries.Named → ∀ {name : String} {p : Path} {sub : Node},
    entries.find name p = some sub → ∀ n ∈ name :: p, n ∉ ["", ".", ".."]
  | .nil, _, _, _, _, hfind => by cases hfind
  | .cons first node rest, h, name, p, sub, hfind => by
    obtain ⟨hfirst, hnode, hrest⟩ := h
    simp only [Entries.find] at hfind
    split at hfind
    · next heq => exact List.forall_mem_cons.2 ⟨heq ▸ hfirst, Node.Named.find hnode hfind⟩
    · exact Entries.Named.find hrest hfind

end

theorem Node.find_dir_of_find {root : Node} {p : Path} {name : String} {sub : Node}
    (h : root.find (p ++ [name]) = some sub) : ∃ entries, root.find p = some (.dir entries) := by
  rw [Node.find_append] at h
  obtain ⟨node, hnode, hname⟩ := Option.bind_eq_some_iff.1 h
  cases node with
  | file content => cases hname
  | symlink target => cases hname
  | dir entries => exact ⟨entries, hnode⟩

theorem Node.find_dir_dir {root : Node} {p : Path} {entries : Entries} (h : root.find p = some (.dir entries)) :
    ∃ entries', root.find p.dir = some (.dir entries') := by
  rcases List.eq_nil_or_concat p with rfl | ⟨q, name, rfl⟩
  · exact ⟨entries, h⟩
  · rw [List.concat_eq_append] at h ⊢
    rw [Path.dir, List.dropLast_concat]
    exact Node.find_dir_of_find h

theorem Node.walkSymlinks_of_find {root : Node} (hnamed : root.Named) (next : Path → List String → Except String Path) :
    ∀ (p dest : Path) {sub : Node}, root.find (dest ++ p) = some sub → sub.isLink = false →
      root.walkSymlinks next dest p = .ok (dest ++ p)
  | [], dest, _, _, _ => by rw [List.append_nil, Node.walkSymlinks]
  | name :: p, dest, sub, hfind, hlink => by
    have hname : name ∉ ["", ".", ".."] := hnamed.find hfind name (by simp)
    simp only [List.mem_cons, List.not_mem_nil, or_false, not_or] at hname
    rw [Node.walkSymlinks, if_neg (not_or.2 ⟨hname.1, hname.2.1⟩), if_neg hname.2.2]
    rw [List.append_cons dest name p] at hfind ⊢
    have hrest := Node.walkSymlinks_of_find hnamed next p (dest ++ [name]) hfind hlink
    obtain ⟨node, hnode, hp⟩ := Option.bind_eq_some_iff.1 ((Node.find_append ..).symm.trans hfind)
    rw [hnode]
    cases p with
    | nil =>
      rw [Node.find] at hp
      cases hp
      cases sub with
      | file content => simp
      | symlink target => cases hlink
      | dir entries => exact hrest
    | cons name' p =>
      cases node with
      | file content => cases hp
      | symlink target => cases hp
      | dir entries => exact hrest

theorem Node.walkSymlinks_ok {root : Node} {next : Path → List String → Except String Path} {top : Entries}
    (hroot : root = .dir top)
    (hnext : ∀ dest rest q, (∃ entries, root.find dest = some (.dir entries)) → next dest rest = .ok q →
      ∃ sub, root.find q = some sub ∧ sub.isLink = false) :
    ∀ (rest : List String) (dest q : Path), (∃ entries, root.find dest = some (.dir entries)) →
      root.walkSymlinks next dest rest = .ok q → ∃ sub, root.find q = some sub ∧ sub.isLink = false
  | [], dest, q, ⟨entries, hdir⟩, h => by
    cases h
    exact ⟨_, hdir, rfl⟩
  | name :: rest, dest, q, hdir, h => by
    rw [Node.walkSymlinks] at h
    split at h
    · exact Node.walkSymlinks_ok hroot hnext rest dest q hdir h
    · split at h
      · obtain ⟨entries, hdir⟩ := hdir
        exact Node.walkSymlinks_ok hroot hnext rest _ q (Node.find_dir_dir hdir) h
      · split at h
        · cases h
        · refine hnext _ _ q ?_ h
          split
          · exact ⟨top, by rw [Node.find, hroot]⟩
          · exact hdir
        · next content hfile =>
          split at h
          · cases h
            exact ⟨_, hfile, rfl⟩
          · cases h
        · next entries hfound => exact Node.walkSymlinks_ok hroot hnext rest _ q ⟨entries, hfound⟩ h

theorem Node.resolveLinks_eq (root : Node) (links : Nat) : ∃ next, root.resolveLinks links = root.walkSymlinks next := by
  cases links with
  | zero => exact ⟨_, rfl⟩
  | succ links => exact ⟨_, rfl⟩

theorem Node.resolveLinks_ok {root : Node} {top : Entries} (hroot : root = .dir top) :
    ∀ (links : Nat) (rest : List String) (dest q : Path), (∃ entries, root.find dest = some (.dir entries)) →
      root.resolveLinks links dest rest = .ok q → ∃ sub, root.find q = some sub ∧ sub.isLink = false
  | 0, rest, dest, q, hdir, h =>
    Node.walkSymlinks_ok hroot (fun _ _ _ _ herr => by cases herr) rest dest q hdir h
  | links + 1, rest, dest, q, hdir, h =>
    Node.walkSymlinks_ok hroot (fun dest rest q => Node.resolveLinks_ok hroot links rest dest q) rest dest q hdir h

section Extends

variable {root : Node} (name : String)

/-- What resolving a path with one more name does, given what resolving the path does. -/
def Node.Extends (root : Node) (name : String) (resolve : List String → Except String Path) (p : List String) : Prop :=
  (∃ d entries next, resolve p = .ok d ∧ root.find d = some (.dir entries) ∧
    resolve (p ++ [name]) = root.walkSymlinks next d [name]) ∨
  (∃ e, resolve (p ++ [name]) = .error e) ∧ ∀ d entries, resolve p = .ok d → root.find d ≠ some (.dir entries)

theorem Node.walkSymlinks_extends {next : Path → List String → Except String Path} {top : Entries}
    (hroot : root = .dir top)
    (hnext : ∀ dest p, (∃ entries, root.find dest = some (.dir entries)) → root.Extends name (next dest) p) :
    ∀ (p : List String) (dest : Path), (∃ entries, root.find dest = some (.dir entries)) →
      root.Extends name (root.walkSymlinks next dest) p
  | [], dest, ⟨entries, hdir⟩ => .inl ⟨dest, entries, next, rfl, hdir, rfl⟩
  | n :: p, dest, hdir => by
    obtain ⟨entries, hfound⟩ := id hdir
    unfold Node.Extends
    rw [List.cons_append]
    simp only [Node.walkSymlinks]
    split
    · exact Node.walkSymlinks_extends hroot hnext p dest hdir
    · split
      · exact Node.walkSymlinks_extends hroot hnext p dest.dir (Node.find_dir_dir hfound)
      · split
        · exact .inr ⟨⟨_, rfl⟩, fun _ _ h => by cases h⟩
        · rename_i target _
          rw [← List.append_assoc]
          refine hnext _ _ ?_
          split
          · exact ⟨top, by rw [Node.find, hroot]⟩
          · exact hdir
        · rename_i content hfile
          refine .inr ⟨⟨_, if_neg (List.append_ne_nil_of_right_ne_nil p (List.cons_ne_nil name []))⟩, ?_⟩
          intro d entries h hd
          split at h
          · cases h
            cases hfile.symm.trans hd
          · cases h
        · rename_i entries' hfound'
          exact Node.walkSymlinks_extends hroot hnext p _ ⟨entries', hfound'⟩

theorem Node.resolveLinks_extends {top : Entries} (hroot : root = .dir top) : ∀ (links : Nat) (dest p : Path),
    (∃ entries, root.find dest = some (.dir entries)) → root.Extends name (root.resolveLinks links dest) p
  | 0, dest, p, hdir =>
    Node.walkSymlinks_extends name hroot (fun _ _ _ => .inr ⟨⟨_, rfl⟩, fun _ _ h => by cases h⟩) p dest hdir
  | links + 1, dest, p, hdir =>
    Node.walkSymlinks_extends name hroot (fun dest p => Node.resolveLinks_extends hroot links dest p) p dest hdir

end Extends

namespace LinkedTree

variable {t : LinkedTree}

theorem evalSymlinks_of_find {p : Path} {sub : Node} (hfind : t.root.find p = some sub) (hlink : sub.isLink = false) :
    t.evalSymlinks p = .ok p :=
  Node.walkSymlinks_of_find t.named _ p [] hfind hlink

theorem evalSymlinks_ok {top : Entries} (hroot : t.root = .dir top) {p q : Path} (h : t.evalSymlinks p = .ok q) :
    ∃ sub, t.root.find q = some sub ∧ sub.isLink = false :=
  Node.resolveLinks_ok hroot 255 p [] q ⟨top, by rw [Node.find, hroot]⟩ h

end LinkedTree

/-! ## The walk as a fold -/

mutual

/-- The files and links that the walk comes to, in its order, and whether each is a link. -/
def Node.leaves (config : PolicyLoaderConfig) (path : Path) : Node → List (Path × Bool)
  | .file _ => [(path, false)]
  | .symlink _ => [(path, true)]
  | .dir entries => entries.leaves config path

def Entries.leaves (config : PolicyLoaderConfig) (path : Path) : Entries → List (Path × Bool)
  | .nil => []
  | .cons name node rest =>
    if hidden config name then rest.leaves config path
    else node.leaves config (path ++ [name]) ++ rest.leaves config path

end

section Fold

variable (toLower : String → String) (config : PolicyLoaderConfig)

mutual

theorem walk_eq_foldlM (follow : Path → Except String (Path × Content)) : ∀ (node : Node) (path : Path) (st : Collected),
    walk toLower config follow path node st =
      (node.leaves config path).foldlM (fun st x => collectFile toLower config follow x.1 x.2 st) st
  | .file _, path, st => by
    rw [walk, Node.leaves, List.foldlM_cons]
    cases collectFile toLower config follow path false st <;> rfl
  | .symlink _, path, st => by
    rw [walk, Node.leaves, List.foldlM_cons]
    cases collectFile toLower config follow path true st <;> rfl
  | .dir entries, path, st => by
    rw [walk, Node.leaves]
    exact walkEntries_eq_foldlM follow entries path st

theorem walkEntries_eq_foldlM (follow : Path → Except String (Path × Content)) :
    ∀ (entries : Entries) (path : Path) (st : Collected),
      walkEntries toLower config follow path entries st =
        (entries.leaves config path).foldlM (fun st x => collectFile toLower config follow x.1 x.2 st) st
  | .nil, path, st => by
    rw [walkEntries, Entries.leaves]
    rfl
  | .cons name node rest, path, st => by
    rw [walkEntries, Entries.leaves]
    split
    · exact walkEntries_eq_foldlM follow rest path st
    · rw [List.foldlM_append, ← walk_eq_foldlM follow node (path ++ [name]) st]
      cases walk toLower config follow (path ++ [name]) node st with
      | error e => rfl
      | ok st => exact walkEntries_eq_foldlM follow rest path st

end

end Fold

theorem Node.mem_leaves_of_leaf {config : PolicyLoaderConfig} {node : Node} (hleaf : ∀ entries, node ≠ .dir entries)
    {path q : Path} {b : Bool} :
    (q, b) ∈ node.leaves config path ↔ ∃ rel sub, q = path ++ rel ∧ node.find rel = some sub ∧
      (∀ name ∈ rel, hidden config name = false) ∧ sub.isLink = b ∧ ∀ entries, sub ≠ .dir entries := by
  cases node with
  | dir entries => exact absurd rfl (hleaf entries)
  | file x | symlink x =>
    rw [Node.leaves, List.mem_singleton]
    constructor
    · rintro ⟨⟩
      exact ⟨[], _, (List.append_nil _).symm, rfl, List.forall_mem_nil _, rfl, hleaf⟩
    · rintro ⟨_ | ⟨n, rel⟩, sub, rfl, hfind, -, rfl, -⟩
      · cases hfind
        simp [Node.isLink]
      · cases hfind

mutual

theorem Node.mem_leaves {config : PolicyLoaderConfig} : ∀ {node : Node}, node.Distinct → ∀ {path q : Path} {b : Bool},
    (q, b) ∈ node.leaves config path ↔ ∃ rel sub, q = path ++ rel ∧ node.find rel = some sub ∧
      (∀ name ∈ rel, hidden config name = false) ∧ sub.isLink = b ∧ ∀ entries, sub ≠ .dir entries
  | .file content, _, path, q, b => Node.mem_leaves_of_leaf (by simp)
  | .symlink target, _, path, q, b => Node.mem_leaves_of_leaf (by simp)
  | .dir entries, hdistinct, path, q, b => by
    rw [Node.leaves, Entries.mem_leaves hdistinct]
    constructor
    · rintro ⟨name, rel, sub, rfl, hfind, hrest⟩
      exact ⟨name :: rel, sub, rfl, hfind, hrest⟩
    · rintro ⟨_ | ⟨name, rel⟩, sub, rfl, hfind, hvisible, hlink, hdir⟩
      · cases hfind
        exact absurd rfl (hdir entries)
      · exact ⟨name, rel, sub, rfl, hfind, hvisible, hlink, hdir⟩

theorem Entries.mem_leaves {config : PolicyLoaderConfig} : ∀ {entries : Entries}, entries.Distinct →
    ∀ {path q : Path} {b : Bool},
    (q, b) ∈ entries.leaves config path ↔ ∃ name rel sub, q = path ++ name :: rel ∧ entries.find name rel = some sub ∧
      (∀ n ∈ name :: rel, hidden config n = false) ∧ sub.isLink = b ∧ ∀ entries, sub ≠ .dir entries
  | .nil, _, path, q, b => by
    rw [Entries.leaves]
    constructor
    · intro h
      cases h
    · rintro ⟨name, rel, sub, -, hfind, -⟩
      cases hfind
  | .cons name node rest, ⟨hfresh, hnode, hrest⟩, path, q, b => by
    rw [Entries.leaves]
    simp only [Entries.find_cons_iff hfresh]
    split
    · next hhidden =>
      rw [Entries.mem_leaves hrest]
      constructor
      · rintro ⟨n, rel, sub, rfl, hfind, hothers⟩
        exact ⟨n, rel, sub, rfl, .inr hfind, hothers⟩
      · rintro ⟨n, rel, sub, rfl, ⟨rfl, -⟩ | hfind, hvisible, hothers⟩
        · rw [hvisible n List.mem_cons_self] at hhidden
          cases hhidden
        · exact ⟨n, rel, sub, rfl, hfind, hvisible, hothers⟩
    · next hvisible =>
      rw [List.mem_append, Node.mem_leaves hnode, Entries.mem_leaves hrest]
      constructor
      · rintro (⟨rel, sub, rfl, hfind, hbelow, hothers⟩ | ⟨n, rel, sub, rfl, hfind, hothers⟩)
        · exact ⟨name, rel, sub, by simp, .inl ⟨rfl, hfind⟩,
            List.forall_mem_cons.2 ⟨Bool.eq_false_iff.2 hvisible, hbelow⟩, hothers⟩
        · exact ⟨n, rel, sub, rfl, .inr hfind, hothers⟩
      · rintro ⟨n, rel, sub, rfl, ⟨rfl, hfind⟩ | hfind, hbelow, hothers⟩
        · exact .inl ⟨rel, sub, by simp, hfind, (List.forall_mem_cons.1 hbelow).2, hothers⟩
        · exact .inr ⟨n, rel, sub, rfl, hfind, hbelow, hothers⟩

end

mutual

theorem Node.nodup_leaves (config : PolicyLoaderConfig) : ∀ (node : Node), node.Distinct → ∀ path : Path,
    ((node.leaves config path).map Prod.fst).Nodup
  | .file _, _, path => by
    rw [Node.leaves]
    exact List.nodup_singleton _
  | .symlink _, _, path => by
    rw [Node.leaves]
    exact List.nodup_singleton _
  | .dir entries, hdistinct, path => by
    rw [Node.leaves]
    exact Entries.nodup_leaves config entries hdistinct path

theorem Entries.nodup_leaves (config : PolicyLoaderConfig) : ∀ (entries : Entries), entries.Distinct → ∀ path : Path,
    ((entries.leaves config path).map Prod.fst).Nodup
  | .nil, _, _ => by
    rw [Entries.leaves]
    exact List.nodup_nil
  | .cons name node rest, ⟨hfresh, hnode, hrest⟩, path => by
    rw [Entries.leaves]
    split
    · exact Entries.nodup_leaves config rest hrest path
    · rw [List.map_append]
      refine List.nodup_append'.2 ⟨Node.nodup_leaves config node hnode _, Entries.nodup_leaves config rest hrest path, ?_⟩
      intro q hq hq'
      obtain ⟨⟨q, b⟩, hmem, rfl⟩ := List.mem_map.1 hq
      obtain ⟨⟨q', b'⟩, hmem', heq⟩ := List.mem_map.1 hq'
      obtain ⟨rel, sub, rfl, -⟩ := (Node.mem_leaves hnode).1 hmem
      obtain ⟨n, rel', sub', rfl, hfind, -⟩ := (Entries.mem_leaves hrest).1 hmem'
      -- the entry's own name comes next on one path, one of the other names on the other
      rw [← List.append_cons] at heq
      cases (List.append_cancel_left heq : n :: rel' = name :: rel)
      rw [rest.find_of_not_mem hfresh] at hfind
      cases hfind

end

/-! ## Which files are collected -/

namespace LinkedTree

section Collect

variable (t : LinkedTree) (toLower : String → String) (config : PolicyLoaderConfig)

/-- Each link is resolved to a place that has not been visited, and no two of them to one place. -/
structure Resolvable (visited : List Path) (l : List (Path × Bool)) : Prop where
  resolved : ∀ x ∈ l, x.2 = true → ∃ q, t.evalSymlinks x.1 = .ok q ∧ q ∉ visited
  apart : l.Pairwise fun x y => x.2 = true → y.2 = true → t.evalSymlinks x.1 ≠ t.evalSymlinks y.1

def keeps (path : Path) : Bool :=
  match t.evalSymlinks path with
  | .ok q => hasValidExtension toLower config q
  | .error _ => false

variable {t toLower config}

theorem keeps_iff {path : Path} :
    t.keeps toLower config path = true ↔
      ∃ q, t.evalSymlinks path = .ok q ∧ hasValidExtension toLower config q = true := by
  unfold keeps
  cases t.evalSymlinks path <;> simp

theorem follow_eq {path q : Path} (h : t.evalSymlinks path = .ok q) :
    ∃ content, t.worktree.follow path = .ok (q, content) := by
  simp only [worktree, h, Except.map]
  split <;> exact ⟨_, rfl⟩

theorem collectFile_link (hfollow : config.followSymlinks = true) {path : Path} {st st' : Collected} :
    collectFile toLower config t.worktree.follow path true st = .ok st' ↔
      ∃ q, t.evalSymlinks path = .ok q ∧ q ∉ st.visited ∧
        st' = { policyFiles := st.policyFiles ++ if hasValidExtension toLower config q then [path] else [],
                visited := q :: st.visited } := by
  simp only [collectFile, hfollow, if_true]
  cases heval : t.evalSymlinks path with
  | error message => simp [worktree, heval, Except.map]
  | ok q =>
    obtain ⟨content, hread⟩ := follow_eq heval
    simp only [hread, List.contains_iff_mem]
    by_cases hq : q ∈ st.visited
    · simp [hq]
    · rw [if_neg hq]
      cases hvalid : hasValidExtension toLower config q <;> simpa [hq, hvalid] using eq_comm

theorem collectFile_file {path : Path} {st : Collected} :
    collectFile toLower config t.worktree.follow path false st =
      .ok { st with policyFiles := st.policyFiles ++ if hasValidExtension toLower config path then [path] else [] } := by
  cases hvalid : hasValidExtension toLower config path <;> simp [collectFile, hvalid]

/-- By induction on the list, a link in front being resolved to a place that those after it must avoid. -/
theorem foldlM_ok_iff (hfollow : config.followSymlinks = true) : ∀ (l : List (Path × Bool)) (st : Collected),
    (∃ st', l.foldlM (fun st x => collectFile toLower config t.worktree.follow x.1 x.2 st) st = .ok st') ↔
      t.Resolvable st.visited l
  | [], st => ⟨fun _ => ⟨List.forall_mem_nil _, .nil⟩, fun _ => ⟨st, rfl⟩⟩
  | (path, false) :: l, st => by
    rw [List.foldlM_cons, collectFile_file]
    refine (foldlM_ok_iff hfollow l _).trans ⟨fun h => ⟨?_, ?_⟩, fun h => ⟨?_, h.apart.of_cons⟩⟩
    · exact List.forall_mem_cons.2 ⟨fun hlink => absurd hlink Bool.false_ne_true, h.resolved⟩
    · exact .cons (fun _ _ hlink => absurd hlink Bool.false_ne_true) h.apart
    · exact (List.forall_mem_cons.1 h.resolved).2
  | (path, true) :: l, st => by
    rw [List.foldlM_cons]
    constructor
    · rintro ⟨st', h⟩
      cases hstep : collectFile toLower config t.worktree.follow path true st with
      | error e =>
        rw [hstep] at h
        cases h
      | ok st₁ =>
        rw [hstep] at h
        obtain ⟨q, heval, hq, rfl⟩ := (collectFile_link hfollow).1 hstep
        have hrest := (foldlM_ok_iff hfollow l _).1 ⟨st', h⟩
        refine ⟨List.forall_mem_cons.2 ⟨fun _ => ⟨q, heval, hq⟩, fun x hx hlink => ?_⟩,
          .cons (fun x hx _ hlink => ?_) hrest.apart⟩
        · obtain ⟨q', heval', hq'⟩ := hrest.resolved x hx hlink
          exact ⟨q', heval', fun hmem => hq' (List.mem_cons_of_mem _ hmem)⟩
        · obtain ⟨q', heval', hq'⟩ := hrest.resolved x hx hlink
          intro heq
          rw [heval, heval'] at heq
          cases heq
          exact hq' List.mem_cons_self
    · rintro ⟨hresolved, hapart⟩
      obtain ⟨hfirst, hresolved⟩ := List.forall_mem_cons.1 hresolved
      obtain ⟨hhead, hapart⟩ := List.pairwise_cons.1 hapart
      obtain ⟨q, heval, hq⟩ := hfirst rfl
      rw [(collectFile_link hfollow).2 ⟨q, heval, hq, rfl⟩]
      refine (foldlM_ok_iff hfollow l _).2 ⟨fun x hx hlink => ?_, hapart⟩
      obtain ⟨q', heval', hq'⟩ := hresolved x hx hlink
      refine ⟨q', heval', fun hmem => ?_⟩
      rcases List.mem_cons.1 hmem with rfl | hmem
      · exact hhead x hx rfl hlink (heval.trans heval'.symm)
      · exact hq' hmem

theorem policyFiles_of_foldlM (hfollow : config.followSymlinks = true) : ∀ (l : List (Path × Bool)) (st st' : Collected),
    (∀ x ∈ l, x.2 = false → t.evalSymlinks x.1 = .ok x.1) →
    l.foldlM (fun st x => collectFile toLower config t.worktree.follow x.1 x.2 st) st = .ok st' →
    st'.policyFiles = st.policyFiles ++ (l.map Prod.fst).filter (t.keeps toLower config)
  | [], st, st', _, h => by
    cases h
    exact (List.append_nil _).symm
  | (path, b) :: l, st, st', hfiles, h => by
    obtain ⟨hfile, hfiles⟩ := List.forall_mem_cons.1 hfiles
    rw [List.foldlM_cons] at h
    have hstep : ∃ q st₁, t.evalSymlinks path = .ok q ∧
        collectFile toLower config t.worktree.follow path b st = .ok st₁ ∧
        st₁.policyFiles = st.policyFiles ++ if hasValidExtension toLower config q then [path] else [] := by
      cases b with
      | false => exact ⟨path, _, hfile rfl, collectFile_file, rfl⟩
      | true =>
        cases hrun : collectFile toLower config t.worktree.follow path true st with
        | error e =>
          rw [hrun] at h
          cases h
        | ok st₁ =>
          obtain ⟨q, heval, -, rfl⟩ := (collectFile_link hfollow).1 hrun
          exact ⟨q, _, heval, rfl, rfl⟩
    obtain ⟨q, st₁, heval, hrun, hadded⟩ := hstep
    rw [hrun] at h
    rw [policyFiles_of_foldlM hfollow l st₁ st' hfiles h, hadded, List.append_assoc, List.map_cons, List.filter_cons]
    simp only [keeps, heval]
    split <;> rfl

end Collect

/-! ## Every policy file once -/

section Once

variable (t : LinkedTree) (toLower : String → String) (config : PolicyLoaderConfig)

def Walked (dir path : Path) (node : Node) : Prop :=
  ∃ rel, path = dir ++ rel ∧ t.root.find path = some node ∧ ∀ name ∈ rel, hidden config name = false

def WalkedFile (dir path : Path) : Prop := ∃ content, t.Walked config dir path (.file content)

def WalkedLink (dir path : Path) : Prop := ∃ target, t.Walked config dir path (.symlink target)

def Loops (path : Path) : Prop := ∀ links, t.root.resolveLinks links [] path = .error tooManyLinks

def HasLoop (dir : Path) : Prop := ∃ path, t.WalkedLink config dir path ∧ t.Loops path

/-- The canonical paths reached from a directory by names that are not hidden, links to files and directories being
followed. -/
inductive Reached (start : Path) : Path → Prop
  | start : Reached start start
  | step {p q : Path} {name : String} {node : Node} : Reached start p → hidden config name = false →
      t.root.find (p ++ [name]) = some node → t.evalSymlinks (p ++ [name]) = .ok q → Reached start q

/-- The files to be collected, under their canonical paths. -/
def PolicyFile (start f : Path) : Prop :=
  t.Reached config start f ∧ (∃ content, t.root.find f = some (.file content)) ∧
    hasValidExtension toLower config f = true

/-- The walk ends with the error that `collectPolicyFiles` gives as the cause of its own. -/
def ReportsLoop (dir : Path) : Prop :=
  ∃ node e, t.root.find dir = some node ∧ walk toLower config t.worktree.follow dir node {} = .error e ∧
    e.message = "symlink loop detected"

def CollectsOnce (dir : Path) : Prop :=
  (¬ t.HasLoop config dir → ∃ files targets : List Path, collectPolicyFiles toLower config t.worktree dir = .ok files ∧
    files.map t.evalSymlinks = targets.map .ok ∧ targets.Nodup ∧
    ∀ f, f ∈ targets ↔ t.PolicyFile toLower config dir f) ∧
  (t.ReportsLoop toLower config dir → t.HasLoop config dir)

/-- The links that the walk comes to can be resolved, lead to different places, to no policy file that the walk comes
to, and to no directory that has an allowed extension or leads to a policy file which neither the walk nor one of its
links comes to. -/
structure LinksApart (dir : Path) : Prop where
  resolved : ∀ p, t.WalkedLink config dir p → ∃ q, t.evalSymlinks p = .ok q
  apart : ∀ p p' q, t.WalkedLink config dir p → t.WalkedLink config dir p' →
    t.evalSymlinks p = .ok q → t.evalSymlinks p' = .ok q → p = p'
  files : ∀ p q, t.WalkedLink config dir p → t.evalSymlinks p = .ok q → hasValidExtension toLower config q = true →
    ¬ t.WalkedFile config dir q
  directories : ∀ p q entries, t.WalkedLink config dir p → t.evalSymlinks p = .ok q →
    t.root.find q = some (.dir entries) → hasValidExtension toLower config q = false ∧
      ∀ f, t.PolicyFile toLower config q f →
        t.WalkedFile config dir f ∨ ∃ p', t.WalkedLink config dir p' ∧ t.evalSymlinks p' = .ok f

variable {t toLower config} {dir : Path} {node : Node} {top : Entries}

theorem Walked.mem_leaves (hdir : t.root.find dir = some node) {p : Path} {sub : Node} (h : t.Walked config dir p sub)
    (hleaf : ∀ entries, sub ≠ .dir entries) : (p, sub.isLink) ∈ node.leaves config dir := by
  obtain ⟨rel, rfl, hfind, hvisible⟩ := h
  rw [Node.find_append, hdir] at hfind
  exact (Node.mem_leaves (Node.Distinct.find t.distinct hdir)).2 ⟨rel, sub, rfl, hfind, hvisible, rfl, hleaf⟩

theorem walked_of_mem_leaves (hdir : t.root.find dir = some node) {p : Path} {b : Bool}
    (h : (p, b) ∈ node.leaves config dir) :
    ∃ sub, t.Walked config dir p sub ∧ sub.isLink = b ∧ ∀ entries, sub ≠ .dir entries := by
  obtain ⟨rel, sub, rfl, hfind, hvisible, hlink, hleaf⟩ :=
    (Node.mem_leaves (Node.Distinct.find t.distinct hdir)).1 h
  refine ⟨sub, ⟨rel, rfl, ?_, hvisible⟩, hlink, hleaf⟩
  rw [Node.find_append, hdir]
  exact hfind

theorem mem_leaves_link (hdir : t.root.find dir = some node) {p : Path} :
    (p, true) ∈ node.leaves config dir ↔ t.WalkedLink config dir p := by
  constructor
  · intro h
    obtain ⟨sub, hwalked, hlink, -⟩ := walked_of_mem_leaves hdir h
    cases sub with
    | symlink target => exact ⟨target, hwalked⟩
    | file content => cases hlink
    | dir entries => cases hlink
  · rintro ⟨target, hwalked⟩
    exact hwalked.mem_leaves hdir (by simp)

theorem mem_leaves_file (hdir : t.root.find dir = some node) {p : Path} :
    (p, false) ∈ node.leaves config dir ↔ t.WalkedFile config dir p := by
  constructor
  · intro h
    obtain ⟨sub, hwalked, hlink, hleaf⟩ := walked_of_mem_leaves hdir h
    cases sub with
    | symlink target => cases hlink
    | file content => exact ⟨content, hwalked⟩
    | dir entries => exact absurd rfl (hleaf entries)
  · rintro ⟨content, hwalked⟩
    exact hwalked.mem_leaves hdir (by simp)

theorem WalkedFile.evalSymlinks {p : Path} (h : t.WalkedFile config dir p) : t.evalSymlinks p = .ok p := by
  obtain ⟨content, rel, rfl, hfind, -⟩ := h
  exact evalSymlinks_of_find hfind rfl

theorem collectPolicyFiles_ok_iff (hfollow : config.followSymlinks = true) (hdir : t.root.find dir = some node)
    {files : List Path} :
    collectPolicyFiles toLower config t.worktree dir = .ok files ↔
      t.Resolvable [] (node.leaves config dir) ∧
        files = ((node.leaves config dir).map Prod.fst).filter (t.keeps toLower config) := by
  have hplain : ∀ x ∈ node.leaves config dir, x.2 = false → t.evalSymlinks x.1 = .ok x.1 := by
    rintro ⟨p, b⟩ hx rfl
    exact ((mem_leaves_file hdir).1 hx).evalSymlinks
  have hwalk := walk_eq_foldlM toLower config t.worktree.follow node dir {}
  unfold collectPolicyFiles
  rw [show t.worktree.root.find dir = some node from hdir, Option.map_some, hwalk]
  rw [← foldlM_ok_iff hfollow (node.leaves config dir) {}]
  cases hrun : (node.leaves config dir).foldlM
      (fun st x => collectFile toLower config t.worktree.follow x.1 x.2 st) {} with
  | error e => simp
  | ok st =>
    have hfiles := policyFiles_of_foldlM hfollow _ _ _ hplain hrun
    rw [List.nil_append] at hfiles
    simp [hfiles, eq_comm]

theorem resolvable_iff (hdir : t.root.find dir = some node) :
    t.Resolvable [] (node.leaves config dir) ↔
      (∀ p, t.WalkedLink config dir p → ∃ q, t.evalSymlinks p = .ok q) ∧
      ∀ p p' q, t.WalkedLink config dir p → t.WalkedLink config dir p' →
        t.evalSymlinks p = .ok q → t.evalSymlinks p' = .ok q → p = p' := by
  have hnodup : (node.leaves config dir).Pairwise fun x y => x.1 ≠ y.1 :=
    List.pairwise_map.1 (Node.nodup_leaves config node (Node.Distinct.find t.distinct hdir) dir)
  constructor
  · rintro ⟨hresolved, hapart⟩
    refine ⟨fun p hp => ?_, fun p p' q hp hp' hq hq' => ?_⟩
    · obtain ⟨q, hq, -⟩ := hresolved (p, true) ((mem_leaves_link hdir).2 hp) rfl
      exact ⟨q, hq⟩
    · by_contra hne
      have hsymm : Std.Symm fun x y : Path × Bool =>
          x.2 = true → y.2 = true → t.evalSymlinks x.1 ≠ t.evalSymlinks y.1 :=
        ⟨fun x y hxy hy hx heq => hxy hx hy heq.symm⟩
      exact hapart.forall ((mem_leaves_link hdir).2 hp) ((mem_leaves_link hdir).2 hp')
        (fun heq => hne (congrArg Prod.fst heq)) rfl rfl (hq.trans hq'.symm)
  · rintro ⟨hresolved, hapart⟩
    refine ⟨?_, hnodup.imp_of_mem ?_⟩
    · rintro ⟨p, b⟩ hx rfl
      obtain ⟨q, hq⟩ := hresolved p ((mem_leaves_link hdir).1 hx)
      exact ⟨q, hq, List.not_mem_nil⟩
    · rintro ⟨p, b⟩ ⟨p', b'⟩ hx hy hne rfl rfl heq
      obtain ⟨q, hq⟩ := hresolved p ((mem_leaves_link hdir).1 hx)
      exact hne (hapart p p' q ((mem_leaves_link hdir).1 hx) ((mem_leaves_link hdir).1 hy) hq (heq ▸ hq))

/-! ### What is reached -/

theorem root_of_find (hdir : t.root.find dir = some (.dir top)) : ∃ entries, t.root = .dir entries := by
  cases hroot : t.root with
  | dir entries => exact ⟨entries, rfl⟩
  | file x | symlink x =>
    rw [hroot] at hdir
    cases dir with
    | nil => cases hdir
    | cons name rest => cases hdir

theorem Walked.entry {p : Path} {sub sub' : Node} {name : String} (h : t.Walked config dir p sub)
    (hname : hidden config name = false) (hfind : t.root.find (p ++ [name]) = some sub') :
    t.Walked config dir (p ++ [name]) sub' := by
  obtain ⟨rel, rfl, -, hvisible⟩ := h
  refine ⟨rel ++ [name], List.append_assoc .., hfind, fun n hn => ?_⟩
  rcases List.mem_append.1 hn with hn | hn
  · exact hvisible n hn
  · exact List.mem_singleton.1 hn ▸ hname

/-- By induction on the names below the directory, from the last one. -/
theorem Walked.reached {p : Path} {sub : Node} (h : t.Walked config dir p sub) (hlink : sub.isLink = false) :
    t.Reached config dir p := by
  obtain ⟨rel, rfl, hfind, hvisible⟩ := h
  induction rel using List.reverseRecOn generalizing sub with
  | nil =>
    rw [List.append_nil]
    exact .start
  | append_singleton rel name ih =>
    rw [← List.append_assoc] at hfind ⊢
    obtain ⟨entries, hparent⟩ := Node.find_dir_of_find hfind
    have hreached := ih rfl hparent fun n hn => hvisible n (List.mem_append_left _ hn)
    exact .step hreached (hvisible name (by simp)) hfind (evalSymlinks_of_find hfind hlink)

theorem WalkedLink.reached (hdir : t.root.find dir = some (.dir top)) {p q : Path}
    (h : t.WalkedLink config dir p) (heval : t.evalSymlinks p = .ok q) : t.Reached config dir q := by
  obtain ⟨target, rel, rfl, hfind, hvisible⟩ := h
  rcases List.eq_nil_or_concat rel with rfl | ⟨rel, name, rfl⟩
  · rw [List.append_nil, hdir] at hfind
    cases hfind
  · rw [List.concat_eq_append, ← List.append_assoc] at hfind heval
    obtain ⟨entries, hparent⟩ := Node.find_dir_of_find hfind
    have hwalked : t.Walked config dir (dir ++ rel) (.dir entries) :=
      ⟨rel, rfl, hparent, fun n hn => hvisible n (by simp [hn])⟩
    exact .step (hwalked.reached rfl) (hvisible name (by simp)) hfind heval

theorem Reached.trans {p q r : Path} (hpq : t.Reached config p q) (hqr : t.Reached config q r) :
    t.Reached config p r := by
  induction hqr with
  | start => exact hpq
  | step _ hname hfind heval ih => exact .step ih hname hfind heval

/-- A path that is reached is on the walk, or a link of the walk leads to it, or it is reached from a directory that
a link of the walk leads to. -/
theorem Reached.cases_walk (hdir : t.root.find dir = some (.dir top)) {q : Path}
    (h : t.Reached config dir q) :
    (∃ sub, t.Walked config dir q sub ∧ sub.isLink = false) ∨
    (∃ p content, t.WalkedLink config dir p ∧ t.evalSymlinks p = .ok q ∧ t.root.find q = some (.file content)) ∨
    ∃ p d entries, t.WalkedLink config dir p ∧ t.evalSymlinks p = .ok d ∧ t.root.find d = some (.dir entries) ∧
      t.Reached config d q := by
  induction h with
  | start => exact .inl ⟨_, ⟨[], (List.append_nil _).symm, hdir, List.forall_mem_nil _⟩, rfl⟩
  | @step p q name sub' _ hname hfind heval ih =>
    rcases ih with ⟨sub, hwalked, -⟩ | ⟨p₀, content, -, -, hfile⟩ | ⟨p₀, d, entries, hlink, heval₀, hd, hreached⟩
    · have hentry := hwalked.entry hname hfind
      cases hislink : sub'.isLink with
      | false =>
        cases heval.symm.trans (evalSymlinks_of_find hfind hislink)
        exact .inl ⟨sub', hentry, hislink⟩
      | true =>
        have hlink : t.WalkedLink config dir (p ++ [name]) := by
          cases sub' with
          | symlink target => exact ⟨target, hentry⟩
          | file content => cases hislink
          | dir entries => cases hislink
        obtain ⟨top', hroot⟩ := root_of_find hdir
        obtain ⟨sub, hq, hplain⟩ := evalSymlinks_ok hroot heval
        cases sub with
        | file content => exact .inr (.inl ⟨_, content, hlink, heval, hq⟩)
        | dir entries => exact .inr (.inr ⟨_, q, entries, hlink, heval, hq, .start⟩)
        | symlink target => cases hplain
    · obtain ⟨entries, hparent⟩ := Node.find_dir_of_find hfind
      cases hfile.symm.trans hparent
    · exact .inr (.inr ⟨p₀, d, entries, hlink, heval₀, hd, .step hreached hname hfind heval⟩)

/-! ### The files and their canonical paths -/

variable (t) in
def realPath (p : Path) : Path := (t.evalSymlinks p).toOption.getD p

theorem realPath_eq {p q : Path} (h : t.evalSymlinks p = .ok q) : t.realPath p = q := by
  rw [realPath, h]
  rfl

theorem map_evalSymlinks_kept (l : List Path) :
    (l.filter (t.keeps toLower config)).map t.evalSymlinks =
      ((l.filter (t.keeps toLower config)).map t.realPath).map .ok := by
  rw [List.map_map]
  refine List.map_congr_left fun p hp => ?_
  obtain ⟨q, hq, -⟩ := keeps_iff.1 (List.mem_filter.1 hp).2
  rw [Function.comp_apply, realPath_eq hq, hq]

theorem mem_map_realPath_kept (hdir : t.root.find dir = some node) {f : Path} :
    f ∈ (((node.leaves config dir).map Prod.fst).filter (t.keeps toLower config)).map t.realPath ↔
      hasValidExtension toLower config f = true ∧
        (t.WalkedFile config dir f ∨ ∃ p, t.WalkedLink config dir p ∧ t.evalSymlinks p = .ok f) := by
  simp only [List.mem_map, List.mem_filter, keeps_iff]
  constructor
  · rintro ⟨_, ⟨⟨⟨p, b⟩, hleaf, rfl⟩, q, heval, hvalid⟩, rfl⟩
    rw [realPath_eq heval]
    refine ⟨hvalid, ?_⟩
    cases b with
    | false =>
      have hfile := (mem_leaves_file hdir).1 hleaf
      cases heval.symm.trans hfile.evalSymlinks
      exact .inl hfile
    | true => exact .inr ⟨p, (mem_leaves_link hdir).1 hleaf, heval⟩
  · rintro ⟨hvalid, hfile | ⟨p, hlink, heval⟩⟩
    · exact ⟨f, ⟨⟨_, (mem_leaves_file hdir).2 hfile, rfl⟩, f, hfile.evalSymlinks, hvalid⟩, realPath_eq hfile.evalSymlinks⟩
    · exact ⟨p, ⟨⟨_, (mem_leaves_link hdir).2 hlink, rfl⟩, f, heval, hvalid⟩, realPath_eq heval⟩

theorem nodup_map_realPath_kept_iff (hdir : t.root.find dir = some node)
    (hapart : ∀ p p' q, t.WalkedLink config dir p → t.WalkedLink config dir p' →
      t.evalSymlinks p = .ok q → t.evalSymlinks p' = .ok q → p = p') :
    ((((node.leaves config dir).map Prod.fst).filter (t.keeps toLower config)).map t.realPath).Nodup ↔
      ∀ p q, t.WalkedLink config dir p → t.evalSymlinks p = .ok q → hasValidExtension toLower config q = true →
        ¬ t.WalkedFile config dir q := by
  have hmem : ∀ {p b q}, (p, b) ∈ node.leaves config dir → t.evalSymlinks p = .ok q →
      hasValidExtension toLower config q = true →
      p ∈ ((node.leaves config dir).map Prod.fst).filter (t.keeps toLower config) :=
    fun hleaf heval hvalid => List.mem_filter.2 ⟨List.mem_map_of_mem hleaf, keeps_iff.2 ⟨_, heval, hvalid⟩⟩
  constructor
  · intro hnodup p q hlink heval hvalid hfile
    have hpq : p = q := List.inj_on_of_nodup_map hnodup
      (hmem ((mem_leaves_link hdir).2 hlink) heval hvalid)
      (hmem ((mem_leaves_file hdir).2 hfile) hfile.evalSymlinks hvalid)
      ((realPath_eq heval).trans (realPath_eq hfile.evalSymlinks).symm)
    subst hpq
    obtain ⟨target, rel, -, hsymlink, -⟩ := hlink
    obtain ⟨content, rel', -, hfound, -⟩ := hfile
    cases hsymlink.symm.trans hfound
  · intro hfiles
    refine ((Node.nodup_leaves config node (Node.Distinct.find t.distinct hdir) dir).filter _).map_on ?_
    intro p hp p' hp' heq
    obtain ⟨hp, hkeeps⟩ := List.mem_filter.1 hp
    obtain ⟨hp', hkeeps'⟩ := List.mem_filter.1 hp'
    obtain ⟨⟨p, b⟩, hleaf, rfl⟩ := List.mem_map.1 hp
    obtain ⟨⟨p', b'⟩, hleaf', rfl⟩ := List.mem_map.1 hp'
    obtain ⟨q, heval, hvalid⟩ := keeps_iff.1 hkeeps
    obtain ⟨q', heval', -⟩ := keeps_iff.1 hkeeps'
    rw [realPath_eq heval, realPath_eq heval'] at heq
    subst heq
    cases b <;> cases b' <;> simp only [mem_leaves_file hdir, mem_leaves_link hdir] at hleaf hleaf'
    · cases heval.symm.trans hleaf.evalSymlinks
      cases heval'.symm.trans hleaf'.evalSymlinks
      rfl
    · cases heval.symm.trans hleaf.evalSymlinks
      exact absurd hleaf (hfiles p' _ hleaf' heval' hvalid)
    · cases heval'.symm.trans hleaf'.evalSymlinks
      exact absurd hleaf' (hfiles p _ hleaf heval hvalid)
    · exact hapart p p' q hleaf hleaf' heval heval'

theorem ReportsLoop.not_ok (h : t.ReportsLoop toLower config dir) {files : List Path} :
    collectPolicyFiles toLower config t.worktree dir ≠ .ok files := by
  obtain ⟨node, e, hdir, hwalk, -⟩ := h
  unfold collectPolicyFiles
  rw [show t.worktree.root.find dir = some node from hdir, Option.map_some, hwalk]
  simp

theorem CollectsOnce.linksApart (hfollow : config.followSymlinks = true) {top : Entries}
    (hdir : t.root.find dir = some (.dir top)) (hloop : ¬ t.HasLoop config dir)
    (h : t.CollectsOnce toLower config dir) : t.LinksApart toLower config dir := by
  obtain ⟨files, targets, hok, hmap, hnodup, hmem⟩ := h.1 hloop
  obtain ⟨hresolvable, rfl⟩ := (collectPolicyFiles_ok_iff hfollow hdir).1 hok
  obtain ⟨hresolved, hapart⟩ := (resolvable_iff hdir).1 hresolvable
  have htargets := List.map_injective_iff.2 (fun _ _ heq => Except.ok.inj heq) (hmap.symm.trans (map_evalSymlinks_kept _))
  subst htargets
  have hfiles := (nodup_map_realPath_kept_iff hdir hapart).1 hnodup
  refine ⟨hresolved, hapart, hfiles, fun p q entries hlink heval hq => ⟨?_, ?_⟩⟩
  · by_contra hvalid
    obtain ⟨-, ⟨content, hfile⟩, -⟩ :=
      (hmem q).1 ((mem_map_realPath_kept hdir).2 ⟨Bool.not_eq_false _ ▸ hvalid, .inr ⟨p, hlink, heval⟩⟩)
    cases hq.symm.trans hfile
  · rintro f ⟨hreached, hfile, hvalid⟩
    have hpolicy : t.PolicyFile toLower config dir f := ⟨(hlink.reached hdir heval).trans hreached, hfile, hvalid⟩
    exact ((mem_map_realPath_kept hdir).1 ((hmem f).2 hpolicy)).2

theorem LinksApart.mem_iff (hdir : t.root.find dir = some (.dir top))
    (h : t.LinksApart toLower config dir) {f : Path} :
    (hasValidExtension toLower config f = true ∧
      (t.WalkedFile config dir f ∨ ∃ p, t.WalkedLink config dir p ∧ t.evalSymlinks p = .ok f)) ↔
    t.PolicyFile toLower config dir f := by
  constructor
  · rintro ⟨hvalid, ⟨content, hwalked⟩ | ⟨p, hlink, heval⟩⟩
    · obtain ⟨-, -, hfind, -⟩ := id hwalked
      exact ⟨hwalked.reached rfl, ⟨content, hfind⟩, hvalid⟩
    · obtain ⟨top', hroot⟩ := root_of_find hdir
      obtain ⟨sub, hf, hplain⟩ := evalSymlinks_ok hroot heval
      cases sub with
      | file content => exact ⟨hlink.reached hdir heval, ⟨content, hf⟩, hvalid⟩
      | symlink target => cases hplain
      | dir entries =>
        rw [(h.directories p f entries hlink heval hf).1] at hvalid
        cases hvalid
  · rintro ⟨hreached, ⟨content, hfile⟩, hvalid⟩
    refine ⟨hvalid, ?_⟩
    rcases hreached.cases_walk hdir with ⟨sub, hwalked, -⟩ | ⟨p, -, hlink, heval, -⟩ |
      ⟨p, d, entries, hlink, heval, hd, hfrom⟩
    · obtain ⟨-, -, hfind, -⟩ := id hwalked
      cases hfind.symm.trans hfile
      exact .inl ⟨content, hwalked⟩
    · exact .inr ⟨p, hlink, heval⟩
    · exact (h.directories p d entries hlink heval hd).2 f ⟨hfrom, ⟨content, hfile⟩, hvalid⟩

/-- Every policy file is collected once, and no loop reported without one, exactly when there is a loop or the links
of the walk are apart from each other and from the files of the walk, and leave nothing behind a directory. -/
theorem collectPolicyFiles_collectsOnce_iff (hfollow : config.followSymlinks = true) {top : Entries}
    (hdir : t.root.find dir = some (.dir top)) :
    t.CollectsOnce toLower config dir ↔ t.HasLoop config dir ∨ t.LinksApart toLower config dir := by
  constructor
  · intro h
    by_cases hloop : t.HasLoop config dir
    · exact .inl hloop
    · exact .inr (h.linksApart hfollow hdir hloop)
  · rintro (hloop | hapart)
    · exact ⟨fun hnone => absurd hloop hnone, fun _ => hloop⟩
    · have hok : collectPolicyFiles toLower config t.worktree dir = .ok _ := (collectPolicyFiles_ok_iff hfollow hdir).2
        ⟨(resolvable_iff hdir).2 ⟨hapart.resolved, hapart.apart⟩, rfl⟩
      refine ⟨fun _ => ⟨_, _, hok, map_evalSymlinks_kept _, ?_, fun f => ?_⟩, fun hreport => absurd hok hreport.not_ok⟩
      · exact (nodup_map_realPath_kept_iff hdir hapart.apart).2 hapart.files
      · exact (mem_map_realPath_kept hdir).trans (hapart.mem_iff hdir)

/-- A directory `policies` with a file `a.yaml`, or a link in its place, and a link `b.yaml`; the links lead to a file
next to the directory. -/
def twoPolicies (linked : Bool) : LinkedTree where
  root := .dir (.cons "policies"
    (.dir (.cons "a.yaml" (if linked then .symlink "../shared.yaml" else .file [])
      (.cons "b.yaml" (.symlink "../shared.yaml") .nil)))
    (.cons "shared.yaml" (.file []) .nil))
  distinct := by cases linked <;> simp [Node.Distinct, Entries.Distinct, Entries.names]
  named := by cases linked <;> simp [Node.Named, Entries.Named]

theorem walkedLink_twoPolicies {linked : Bool} {p : Path} (h : (twoPolicies linked).WalkedLink {} ["policies"] p) :
    p = ["policies", "b.yaml"] ∨ linked = true ∧ p = ["policies", "a.yaml"] := by
  have hdir : (twoPolicies linked).root.find ["policies"] = some (.dir _) := rfl
  have hleaf := (mem_leaves_link hdir).2 h
  have hshown : ∀ name ∈ ["a.yaml", "b.yaml"], hidden {} name = false := by decide
  cases linked <;> simp [Node.leaves, Entries.leaves, hshown] at hleaf <;> simp [hleaf, or_comm]

theorem resolveLinks_twoPolicies {linked : Bool} {p : Path} (h : (twoPolicies linked).WalkedLink {} ["policies"] p)
    (links : Nat) : (twoPolicies linked).root.resolveLinks (links + 1) [] p = .ok ["shared.yaml"] := by
  obtain ⟨next, hnext⟩ := (twoPolicies linked).root.resolveLinks_eq links
  have htarget : Path.isAbs "../shared.yaml" = false ∧ Path.segments "../shared.yaml" = ["..", "shared.yaml"] := by decide
  rw [Node.resolveLinks, hnext]
  rcases walkedLink_twoPolicies h with rfl | ⟨rfl, rfl⟩ <;>
    simp [Node.walkSymlinks, twoPolicies, Node.find, Entries.find, htarget, Path.dir]

theorem collectPolicyFiles_collectsOnce_twoPolicies : (twoPolicies false).CollectsOnce id {} ["policies"] := by
  have hlink : ∀ {p}, (twoPolicies false).WalkedLink {} ["policies"] p → p = ["policies", "b.yaml"] := by
    intro p hp
    simpa using walkedLink_twoPolicies hp
  refine (collectPolicyFiles_collectsOnce_iff rfl rfl).2 (.inr ⟨?_, ?_, ?_, ?_⟩)
  · intro p hp
    exact ⟨_, resolveLinks_twoPolicies hp 254⟩
  · intro p p' q hp hp' _ _
    rw [hlink hp, hlink hp']
  · rintro p q hp heval - ⟨content, rel, hrel, -⟩
    cases heval.symm.trans (resolveLinks_twoPolicies hp 254)
    simp at hrel
  · intro p q entries hp heval hfind
    cases heval.symm.trans (resolveLinks_twoPolicies hp 254)
    cases hfind

/-- Two links to one file: a loop is reported, and there is none. -/
theorem collectPolicyFiles_reports_without_loop :
    (twoPolicies true).ReportsLoop id {} ["policies"] ∧ ¬ (twoPolicies true).HasLoop {} ["policies"] ∧
      ¬ (twoPolicies true).CollectsOnce id {} ["policies"] := by
  have hloop : ¬ (twoPolicies true).HasLoop {} ["policies"] := by
    rintro ⟨p, hp, hloops⟩
    cases (hloops 1).symm.trans (resolveLinks_twoPolicies hp 0)
  have hreports : (twoPolicies true).ReportsLoop id {} ["policies"] :=
    ⟨_, ⟨["policies", "b.yaml"], "symlink loop detected"⟩, rfl, by decide +kernel, rfl⟩
  exact ⟨hreports, hloop, fun h => hloop (h.2 hreports)⟩

end Once

end LinkedTree

end Jupiter.Manager
