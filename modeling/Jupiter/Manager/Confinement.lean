/-
Where include resolution reads files.

The check of an include is lexical, against the resolver's base path, and refuses every path whose relative form starts
with two dots. What is loaded is the canonical path, after links. And the base path is the parent directory when the
configured path is itself the policy directory. In a tree whose links do not lead over the border of the policy
directory, the two say the same.
-/
import Jupiter.Manager.Order
import Jupiter.Manager.Symlinks

namespace Jupiter.Manager

/-- The policy directory: the configured path if it is a directory, or else the directory it is in. -/
def FileSystem.policyDirectory (fs : FileSystem) (cwd : Path) (filePath : String) : Path :=
  fs.normalizeBase
    (if fs.isDir (Path.absolute cwd filePath) then Path.absolute cwd filePath else Path.absoluteDir cwd filePath)

/-- What was loaded through an include lies inside the directory, and no include that leads there was refused. -/
structure Confined (fs : FileSystem) (dir : Path) (outcome : Except ResolveError (List Path) × ResolverState) :
    Prop where
  inside : ∀ kn ∈ outcome.2.nodes, 0 < kn.2.depth → dir <+: kn.1
  refused : ∀ p q, outcome.1 = .error (.include { filePath := p, includePath := some p, message := traversalMessage }) →
    fs.normalizePath p = .ok q → ¬ dir <+: q

theorem validateIncludePath_ok_iff (basePath p : Path) :
    validateIncludePath basePath p = .ok () ↔ basePath <+: p ∧ ¬ Path.DotsBelow basePath p := by
  unfold validateIncludePath
  by_cases h : Go.Strings.startsWith (Path.rel basePath p) ".." = true
  · rw [if_pos h]
    have := (Path.startsWith_rel_iff basePath p).1 h
    simp only [reduceCtorEq, false_iff, not_and_or, not_not]
    exact this
  · rw [if_neg h]
    have := mt (Path.startsWith_rel_iff basePath p).2 h
    simpa only [true_iff, not_or, not_not] using this

/-! ## Runs -/

variable {fs : FileSystem} {basePath dir : Path} {roots : List Path}

def Inside (dir : Path) (st : ResolverState) : Prop := ∀ kn ∈ st.nodes, 0 < kn.2.depth → dir <+: kn.1

/-- A refusal as traversal is about an include that does not lead into the directory. -/
def Justified {α : Type} (fs : FileSystem) (dir : Path) (result : Except ResolveError α) : Prop :=
  ∀ p q, result = .error (.include { filePath := p, includePath := some p, message := traversalMessage }) →
    fs.normalizePath p = .ok q → ¬ dir <+: q

theorem Inside.addIncludedBy {st : ResolverState} (h : Inside dir st) (key includer : Path) :
    Inside dir (st.addIncludedBy key includer) := by
  intro kn hkn hdepth
  obtain ⟨kn', hkn', rfl⟩ := List.mem_map.1 hkn
  dsimp only at hdepth ⊢
  split at hdepth
  · next heq =>
    rw [if_pos heq]
    exact h kn' hkn' hdepth
  · next hne =>
    rw [if_neg hne]
    exact h kn' hkn' hdepth

theorem Inside.finish {st : ResolverState} (h : Inside dir st) {path : Path} {node : PolicyNode}
    (hnode : 0 < node.depth → dir <+: path) : Inside dir (st.finish path node) := by
  intro kn hkn hdepth
  rcases List.mem_append.1 hkn with hkn | hkn
  · exact h kn hkn hdepth
  · obtain rfl := List.mem_singleton.1 hkn
    exact hnode hdepth

/-- Of the includes of the files reached, those that lead into the directory are accepted, and no others. -/
def IncludesPlaced (fs : FileSystem) (basePath dir : Path) (roots : List Path) : Prop :=
  ∀ k policy, Reached fs roots k → fs.loadFromFile k = .ok policy → ∀ s ∈ policy.includes,
    ∀ q, fs.normalizePath (resolveIncludePath k s) = .ok q →
      (validateIncludePath basePath (resolveIncludePath k s) = .ok () ↔ dir <+: q)

/-- What resolving a file promises, whether it succeeds or not; `depth` tells whether it was included. -/
def Confines (fs : FileSystem) (dir : Path) (roots : List Path) (depth : Nat)
    (resolve : Path → ResolverState → Except ResolveError Unit × ResolverState) : Prop :=
  ∀ path st, Inside dir st →
    (∀ q, fs.normalizePath path = .ok q → Reached fs roots q ∧ (0 < depth → dir <+: q)) →
    Inside dir (resolve path st).2 ∧ Justified fs dir (resolve path st).1

theorem resolveIncludes_confined {depth : Nat}
    {resolve : Path → ResolverState → Except ResolveError Unit × ResolverState}
    (hresolve : Confines fs dir roots (depth + 1) resolve) {path : Path} {includes : List String}
    (hincludes : ∀ s ∈ includes, ∀ q, fs.normalizePath (resolveIncludePath path s) = .ok q →
      Reached fs roots q ∧ (validateIncludePath basePath (resolveIncludePath path s) = .ok () ↔ dir <+: q))
    (node : PolicyNode) {st : ResolverState} (h : Inside dir st) :
    Inside dir (resolveIncludes basePath resolve path includes node st).2 ∧
      Justified fs dir (resolveIncludes basePath resolve path includes node st).1 ∧
      ∀ node', (resolveIncludes basePath resolve path includes node st).1 = .ok node' → node'.depth = node.depth := by
  induction includes generalizing node st with
  | nil => exact ⟨h, fun p q he => (by cases he), fun node' he => by cases he; rfl⟩
  | cons s includes ih =>
    have hs := hincludes s List.mem_cons_self
    rw [resolveIncludes]
    cases hv : validateIncludePath basePath (resolveIncludePath path s) with
    | error e =>
      refine ⟨h, fun p q he hq hin => ?_, fun node' he => (by cases he)⟩
      -- the refused path is the one just checked
      have hp : p = resolveIncludePath path s := by
        unfold validateIncludePath at hv
        split at hv
        · cases hv
          cases he
          rfl
        · cases hv
      subst hp
      have hok := (hs q hq).2.2 hin
      rw [hok] at hv
      cases hv
    | ok u =>
      have hnext : ∀ q, fs.normalizePath (resolveIncludePath path s) = .ok q →
          Reached fs roots q ∧ (0 < depth + 1 → dir <+: q) :=
        fun q hq => ⟨(hs q hq).1, fun _ => (hs q hq).2.1 hv⟩
      obtain ⟨hin, hjust⟩ := hresolve _ st h hnext
      rcases hone : resolve (resolveIncludePath path s) st with ⟨_ | _, mid⟩
      · rw [hone] at hin hjust
        exact ⟨hin, fun p q he => hjust p q (by cases he; rfl), fun node' he => (by cases he)⟩
      · rw [hone] at hin
        exact ih (fun s' hs' => hincludes s' (List.mem_cons_of_mem s hs'))
          { node with includes := node.includes ++ [resolveIncludePath path s] } (hin.addIncludedBy _ path)

theorem confines_resolveFile (hplaced : IncludesPlaced fs basePath dir roots) (maxIncludeDepth : Int)
    (fuel depth : Nat) :
    Confines fs dir roots depth fun path st => resolveFile fs basePath maxIncludeDepth fuel path depth st := by
  induction fuel generalizing depth with
  | zero =>
    intro path st h _
    dsimp only
    rw [resolveFile]
    dsimp only
    repeat' split
    all_goals exact ⟨h, fun p q he => (by cases he)⟩
  | succ fuel ih =>
    intro path st h hpath
    dsimp only
    rw [resolveFile]
    split
    · exact ⟨h, fun p q he => (by cases he)⟩
    · next k hk =>
      split
      · exact ⟨h, fun p q he => (by cases he)⟩
      · split
        · exact ⟨h, fun p q he => (by cases he)⟩
        · dsimp only
          cases hload : fs.loadFromFile k with
          | error message => exact ⟨h, fun p q he => (by cases he)⟩
          | ok policy =>
            obtain ⟨hreached, hdeep⟩ := hpath k hk
            obtain ⟨hin, hjust, hdepth⟩ := resolveIncludes_confined (ih (depth + 1))
              (fun s hs q hq => ⟨hreached.step hload hs hq, hplaced k policy hreached hload s hs q hq⟩)
              { policy, filePath := k, depth } (show Inside dir { st with visiting := k :: st.visiting } from h)
            dsimp only
            split
            · next e mid hrun =>
              rw [hrun] at hin hjust
              exact ⟨hin, fun p q he => hjust p q (by cases he; rfl)⟩
            · next node mid hrun =>
              rw [hrun] at hin hdepth
              refine ⟨hin.finish fun hd => hdeep ?_, fun p q he => (by cases he)⟩
              rw [hdepth node rfl] at hd
              exact hd

theorem resolveRoots_confined (hplaced : IncludesPlaced fs basePath dir roots) (maxIncludeDepth : Int)
    {paths : List Path} (hpaths : paths ⊆ roots) {st : ResolverState} (h : Inside dir st) :
    Inside dir (resolveRoots fs basePath maxIncludeDepth paths st).2 ∧
      Justified fs dir (resolveRoots fs basePath maxIncludeDepth paths st).1 := by
  induction paths generalizing st with
  | nil => exact ⟨h, fun p q he => (by cases he)⟩
  | cons path paths ih =>
    obtain ⟨hpath, hpaths⟩ := List.cons_subset.1 hpaths
    obtain ⟨hin, hjust⟩ := confines_resolveFile hplaced maxIncludeDepth (maxIncludeDepth + 1).toNat 0 path st h
      fun q hq => ⟨.root hpath hq, fun h0 => absurd h0 (Nat.lt_irrefl 0)⟩
    rw [resolveRoots]
    split
    · next e mid hone =>
      dsimp only at hin hjust
      rw [hone] at hin hjust
      exact ⟨hin, hjust⟩
    · next mid hone =>
      dsimp only at hin
      rw [hone] at hin
      exact ih hpaths hin

theorem justified_topologicalSort (st : ResolverState) (order : List Path) :
    Justified fs dir (st.topologicalSort order) := by
  intro p q he
  unfold ResolverState.topologicalSort at he
  split at he <;> cases he

theorem resolveMultiple_confined (hplaced : IncludesPlaced fs basePath dir roots) (maxIncludeDepth : Int)
    (order : ResolverState → List Path) :
    Confined fs dir (resolveMultiple fs basePath maxIncludeDepth order roots) := by
  obtain ⟨hin, hjust⟩ := resolveRoots_confined hplaced maxIncludeDepth (List.Subset.refl roots)
    (show Inside dir {} from fun kn hkn => absurd hkn List.not_mem_nil)
  unfold resolveMultiple
  split
  · next e st hrun =>
    rw [hrun] at hin hjust
    exact ⟨hin, fun p q he => hjust p q (by cases he; rfl)⟩
  · next st hrun =>
    rw [hrun] at hin
    exact ⟨hin, justified_topologicalSort st (order st)⟩

/-! ## Trees with links -/

namespace LinkedTree

/-- What the resolver finds in the tree; it loads canonical paths only. -/
def fileSystem (t : LinkedTree) (load : Path → Except String Policy) : FileSystem where
  evalSymlinks p :=
    match t.evalSymlinks p with
    | .ok q => .ok q
    | .error e => .error (if e = "no such file or directory" then .notExist else .other e)
  isDir p :=
    match (t.evalSymlinks p).toOption.bind t.root.find with
    | some (.dir _) => true
    | _ => false
  loadFromFile k :=
    match t.root.find k with
    | some (.file _) => load k
    | _ => .error "no such file or directory"

/-- No link on the way of the path leads over the border of the directory: a link in it leads into it, and a link
outside leads neither into it nor above it. -/
def NoCrossing (t : LinkedTree) (dir p : Path) : Prop :=
  ∀ q name d target r, q ++ [name] <+: p → t.evalSymlinks q = .ok d →
    t.root.find (d ++ [name]) = some (.symlink target) → t.evalSymlinks (q ++ [name]) = .ok r →
    (dir <+: d → dir <+: r) ∧ (¬ dir <+: d → ¬ dir <+: r ∧ ¬ r <+: dir)

variable {t : LinkedTree} {dir : Path} {top entries : Entries}

/-- Along the path, where it leads is inside the directory as long as the path is, and above it only where no link was
followed. -/
theorem inside_iff_of_noCrossing (hroot : t.root = .dir top) (hdir : t.root.find dir = some (.dir entries)) {p q : Path}
    (hnames : ∀ name ∈ p, name ∉ ["", ".", ".."]) (hno : t.NoCrossing dir p) (hq : t.evalSymlinks p = .ok q) :
    (dir <+: p ↔ dir <+: q) ∧ (¬ dir <+: p → q <+: dir → q = p) := by
  have hstart : t.root.find [] = some (.dir top) := by rw [Node.find, hroot]
  induction p using List.reverseRecOn generalizing q with
  | nil =>
    cases (evalSymlinks_of_find hstart rfl).symm.trans hq
    exact ⟨Iff.rfl, fun _ _ => rfl⟩
  | append_singleton p name ih =>
    rcases Node.resolveLinks_extends name hroot 255 [] p ⟨top, hstart⟩ with
      ⟨d, entries', next, hd, -, hext⟩ | ⟨⟨e, herr⟩, -⟩
    · obtain ⟨hiff, habove⟩ := ih (fun n hn => hnames n (List.mem_append_left _ hn))
        (fun q' n d' target r hpre => hno q' n d' target r (hpre.trans (List.prefix_append _ _))) hd
      have hstep : (∃ target, t.root.find (d ++ [name]) = some (.symlink target)) ∨ q = d ++ [name] := by
        have hname := hnames name (by simp)
        simp only [List.mem_cons, List.not_mem_nil, or_false, not_or] at hname
        have hwalk := hext.symm.trans hq
        simp only [Node.walkSymlinks, hname.1, hname.2.1, hname.2.2, or_self, if_false] at hwalk
        split at hwalk
        · cases hwalk
        · next target hlink => exact .inl ⟨target, hlink⟩
        · cases hwalk; exact .inr rfl
        · cases hwalk; exact .inr rfl
      by_cases hin : dir <+: p
      · -- inside, a link leads to another place inside
        have hpre : dir <+: p ++ [name] := hin.trans (List.prefix_append _ _)
        refine ⟨iff_of_true hpre ?_, fun hout => absurd hpre hout⟩
        rcases hstep with ⟨target, hlink⟩ | rfl
        · exact (hno p name d target q List.prefix_rfl hd hlink hq).1 (hiff.1 hin)
        · exact (hiff.1 hin).trans (List.prefix_append _ _)
      · by_cases harrive : dir = p ++ [name]
        · -- the directory itself is canonical
          subst harrive
          cases (evalSymlinks_of_find hdir rfl).symm.trans hq
          exact ⟨Iff.rfl, fun _ _ => rfl⟩
        · have hout : ¬ dir <+: p ++ [name] := fun h => (List.prefix_concat_iff.1 h).elim harrive hin
          rcases hstep with ⟨target, hlink⟩ | rfl
          · obtain ⟨hr, hup⟩ := (hno p name d target q List.prefix_rfl hd hlink hq).2 (mt hiff.2 hin)
            exact ⟨iff_of_false hout hr, fun _ h => absurd h hup⟩
          · have hcopy : d ++ [name] <+: dir → d ++ [name] = p ++ [name] := fun h => by
              rw [habove hin ((List.prefix_append _ _).trans h)]
            refine ⟨iff_of_false hout fun h => ?_, fun _ => hcopy⟩
            rcases List.prefix_concat_iff.1 h with h | h
            · exact harrive (h.trans (hcopy (h ▸ List.prefix_rfl)))
            · exact hin (hiff.2 h)
    · cases herr.symm.trans hq

end LinkedTree

/-- An include path `p` of a tree: no link on its way crosses the border of the directory, it is below the base path
just when it is below the directory, and then under a first name that does not start with two dots. -/
structure StaysInside (t : LinkedTree) (basePath dir p : Path) : Prop where
  links : t.NoCrossing dir p
  base : basePath <+: p ↔ dir <+: p
  names : dir <+: p → ¬ Path.DotsBelow basePath p

theorem StaysInside.accepted_iff {t : LinkedTree} {load : Path → Except String Policy} {top entries : Entries}
    (hroot : t.root = .dir top) (hdir : t.root.find dir = some (.dir entries)) {p q : Path}
    (hnames : ∀ name ∈ p, name ∉ ["", ".", ".."]) (h : StaysInside t basePath dir p)
    (hq : (t.fileSystem load).normalizePath p = .ok q) :
    validateIncludePath basePath p = .ok () ↔ dir <+: q := by
  have hinside : dir <+: p ↔ dir <+: q := by
    unfold FileSystem.normalizePath LinkedTree.fileSystem at hq
    dsimp only at hq
    cases heval : t.evalSymlinks p with
    | ok r =>
      rw [heval] at hq
      cases hq
      exact (LinkedTree.inside_iff_of_noCrossing hroot hdir hnames h.links heval).1
    | error e =>
      rw [heval] at hq
      dsimp only at hq
      split at hq
      · next heq => cases heq
      · cases hq
        exact Iff.rfl
      · cases hq
  rw [validateIncludePath_ok_iff, h.base, ← hinside]
  exact and_iff_left_of_imp h.names

/-- In a tree in which the policy directory is a directory: when every include of every file reached stays inside, what
is loaded through includes lies inside the policy directory and no include that leads there is refused. -/
theorem include_confinement (t : LinkedTree) {top : Entries} (hroot : t.root = .dir top)
    (load : Path → Except String Policy) (cwd : Path) (filePath : String)
    (hdir : ∃ entries, t.root.find ((t.fileSystem load).policyDirectory cwd filePath) = some (.dir entries))
    (maxIncludeDepth : Int) (order : ResolverState → List Path) (roots : List Path)
    (hinside : ∀ k policy, Reached (t.fileSystem load) roots k → (t.fileSystem load).loadFromFile k = .ok policy →
      ∀ s ∈ policy.includes, StaysInside t ((t.fileSystem load).resolverBase cwd filePath)
        ((t.fileSystem load).policyDirectory cwd filePath) (resolveIncludePath k s)) :
    Confined (t.fileSystem load) ((t.fileSystem load).policyDirectory cwd filePath)
      (resolveMultiple (t.fileSystem load) ((t.fileSystem load).resolverBase cwd filePath) maxIncludeDepth order
        roots) := by
  refine resolveMultiple_confined ?_ maxIncludeDepth order
  intro k policy hreached hload s hs q hq
  obtain ⟨entries, hdir⟩ := hdir
  refine StaysInside.accepted_iff hroot hdir ?_ (hinside k policy hreached hload s hs) hq
  -- the file that includes it is there, so its path has proper names
  have hfound : ∃ node, t.root.find k = some node := by
    cases hfind : t.root.find k with
    | some node => exact ⟨node, rfl⟩
    | none => simp [LinkedTree.fileSystem, hfind] at hload
  obtain ⟨node, hnode⟩ := hfound
  refine Path.clean_named (fun name hn => ?_) _
  split at hn
  · cases hn
  · exact t.named.find hnode name (List.mem_of_mem_dropLast hn)

/-! ## Two files in `/policies` -/

/-- `/policies/main.yaml` and `rules` next to it, which it includes. -/
def mainIncluding (rules : String) (node : Node) (others : Entries) : Node :=
  .dir (.cons "policies" (.dir (.cons "main.yaml" (.file []) (.cons rules node .nil))) others)

def includesOnly (name : String) (p : Path) : Except String Policy :=
  .ok { name := "", includes := if p = ["policies", "main.yaml"] then [name] else [] }

def plainTree : LinkedTree where
  root := mainIncluding "rules.yaml" (.file []) .nil
  distinct := by simp [mainIncluding, Node.Distinct, Entries.Distinct, Entries.names]
  named := by simp [mainIncluding, Node.Named, Entries.Named]

def linkOut : LinkedTree where
  root := mainIncluding "rules.yaml" (.symlink "/etc/rules.yaml")
    (.cons "etc" (.dir (.cons "rules.yaml" (.file []) .nil)) .nil)
  distinct := by simp [mainIncluding, Node.Distinct, Entries.Distinct, Entries.names]
  named := by simp [mainIncluding, Node.Named, Entries.Named]

def besideDirectory : LinkedTree where
  root := mainIncluding "other.yaml" (.file []) (.cons "rules.yaml" (.file []) .nil)
  distinct := by simp [mainIncluding, Node.Distinct, Entries.Distinct, Entries.names]
  named := by simp [mainIncluding, Node.Named, Entries.Named]

def plainFiles : FileSystem := plainTree.fileSystem (includesOnly "rules.yaml")

def linkedFiles : FileSystem := linkOut.fileSystem (includesOnly "rules.yaml")

def filesBeside : FileSystem := besideDirectory.fileSystem (includesOnly "../rules.yaml")

/-- The files in the graph of `/policies/main.yaml` and their depths. -/
def loadedFrom (fs : FileSystem) (filePath : String) : Option (List (Path × Nat)) :=
  match resolveMultiple fs (fs.resolverBase [] filePath) 10 (fun st => st.nodes.map Prod.fst)
      [["policies", "main.yaml"]] with
  | (.ok _, st) => some (st.nodes.map fun kn => (kn.1, kn.2.depth))
  | (.error _, _) => none

/-- Both files are loaded: the link is below the base path, and the base path of a directory is its parent. -/
theorem includes_escape :
    loadedFrom linkedFiles "/policies/main.yaml" = some [(["etc", "rules.yaml"], 1), (["policies", "main.yaml"], 0)] ∧
      linkedFiles.policyDirectory [] "/policies/main.yaml" = ["policies"] ∧
      loadedFrom filesBeside "/policies" = some [(["rules.yaml"], 1), (["policies", "main.yaml"], 0)] ∧
      filesBeside.policyDirectory [] "/policies" = ["policies"] := by
  decide +kernel

theorem find_plainTree_ne_link (p : Path) (target : String) : plainTree.root.find p ≠ some (.symlink target) := by
  intro h
  rcases p with _ | ⟨a, _ | ⟨b, _ | ⟨c, p⟩⟩⟩ <;> simp [plainTree, mainIncluding, Node.find, Entries.find] at h
  obtain ⟨-, h⟩ := h
  split at h
  · cases h
  · split at h <;> cases h

theorem include_confinement_plainTree :
    Confined plainFiles (plainFiles.policyDirectory [] "/policies/main.yaml")
      (resolveMultiple plainFiles (plainFiles.resolverBase [] "/policies/main.yaml") 10
        (fun st => st.nodes.map Prod.fst) [["policies", "main.yaml"]]) := by
  have hdir : plainFiles.policyDirectory [] "/policies/main.yaml" = ["policies"] := by decide +kernel
  have hbase : plainFiles.resolverBase [] "/policies/main.yaml" = ["policies"] := by decide +kernel
  refine include_confinement plainTree rfl (includesOnly "rules.yaml") [] "/policies/main.yaml"
    ⟨.cons "main.yaml" (.file []) (.cons "rules.yaml" (.file []) .nil), ?_⟩ 10 _ _ ?_
  · exact (congrArg plainTree.root.find hdir).trans rfl
  · intro k policy _ hload s hs
    change StaysInside plainTree (plainFiles.resolverBase [] "/policies/main.yaml")
      (plainFiles.policyDirectory [] "/policies/main.yaml") _
    rw [hdir, hbase]
    refine ⟨fun _ _ d _ _ _ _ hlink _ => absurd hlink (find_plainTree_ne_link _ _), Iff.rfl, ?_⟩
    simp only [LinkedTree.fileSystem] at hload
    split at hload
    · cases hload
      dsimp only at hs
      split at hs
      · next hk =>
        subst hk
        obtain rfl := List.mem_singleton.1 hs
        rintro - ⟨c, rest, heq, hdots⟩
        cases heq
        revert hdots
        decide
      · cases hs
    · cases hload

end Jupiter.Manager
