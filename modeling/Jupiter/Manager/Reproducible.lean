/-
`loadPoliciesFromSource` of `pkg/policy/manager/manager.go`, and whether two loads of the same files agree.

Without includes the policies are registered in the order of the directory walk. As soon as one file has an include,
they are registered in the order of `topologicalSort`, which starts from the nodes of the graph in the order of a Go
map. The registry keeps the last policy of a name.
-/
import Jupiter.Lib.Table
import Jupiter.Manager.Order
import Jupiter.Manager.Reload

namespace Jupiter.Manager

open Jupiter.Go Jupiter.Lib Relation

/-! ## Loading -/

inductive SourceError where
  | access (message : String)
  | directory (messages : List String)
  | file (message : String)
  | includes (e : ResolveError)
  deriving DecidableEq

/-- What a load reads. `stat` is `IsDirectory` of the policy path, and `walk` the files below it. -/
structure Files where
  fs : FileSystem
  cwd : Path
  policyPath : Path
  stat : Except String Bool
  walk : Except String (List Path)
  basePath : Path
  maxIncludeDepth : Int
  validate : Policy → Option String

namespace FileSystem

def loadFiles (fs : FileSystem) : List Path → List Policy × List String
  | [] => ([], [])
  | path :: paths =>
    let (policies, errors) := fs.loadFiles paths
    match fs.loadFromFile path with
    | .error message => (policies, message :: errors)
    | .ok policy => (policy :: policies, errors)

/-- `LoadFromDirectory`, up to the policies it returns along with an error, which its caller drops. -/
def loadFromDirectory (fs : FileSystem) (walk : Except String (List Path)) : Except (List String) (List Policy) :=
  match walk with
  | .error message => .error [message]
  | .ok [] => .error ["no policy files found in directory"]
  | .ok paths =>
    match fs.loadFiles paths with
    | (policies, []) => .ok policies
    | (_, errors) => .error errors

end FileSystem

namespace Files

def found (files : Files) : Except SourceError (List Policy) :=
  match files.stat with
  | .error message => .error (.access message)
  | .ok true =>
    match files.fs.loadFromDirectory files.walk with
    | .error messages => .error (.directory messages)
    | .ok policies => .ok policies
  | .ok false =>
    match files.fs.loadFromFile files.policyPath with
    | .error message => .error (.file message)
    | .ok policy => .ok [policy]

def hasIncludes (policies : List Policy) : Bool := policies.any fun p => 0 < p.includes.length

def policyPaths (files : Files) (policies : List Policy) : List Path :=
  (policies.filter (·.sourceFile ≠ "")).map fun p => Path.absolute files.cwd p.sourceFile

def resolvedPolicies (st : ResolverState) (sortedPaths : List Path) : List Policy :=
  sortedPaths.filterMap fun path => (st.nodes.lookup path).map (·.policy)

/-- `loadPoliciesFromSource`, when ranging over the nodes of the graph gives `order`. -/
def loadPoliciesFromSource (files : Files) (order : ResolverState → List Path) : Except SourceError (List Policy) :=
  match files.found with
  | .error e => .error e
  | .ok policies =>
    if hasIncludes policies then
      match resolveMultiple files.fs files.basePath files.maxIncludeDepth order (files.policyPaths policies) with
      | (.error e, _) => .error (.includes e)
      | (.ok sortedPaths, st) => .ok (resolvedPolicies st sortedPaths)
    else .ok policies

def source (files : Files) (text : SourceError → String) (order : ResolverState → List Path) : Source where
  loaded := match files.loadPoliciesFromSource order with
    | .error e => .error (text e)
    | .ok policies => .ok (some policies)
  validate := files.validate

end Files

def IsRange (order : ResolverState → List Path) : Prop := ∀ st, (order st).Perm (st.nodes.map Prod.fst)

/-! ## The policies of the graph -/

def HoldsFiles (fs : FileSystem) (st : ResolverState) : Prop :=
  ∀ kn ∈ st.nodes, fs.loadFromFile kn.1 = .ok kn.2.policy

section Graph

variable {fs : FileSystem} (basePath : Path) {roots : List Path}

theorem HoldsFiles.addIncludedBy {st : ResolverState} (h : HoldsFiles fs st) (key includer : Path) :
    HoldsFiles fs (st.addIncludedBy key includer) := by
  intro kn hkn
  obtain ⟨kn', hkn', rfl⟩ := List.mem_map.1 hkn
  have hfile := h kn' hkn'
  split
  · exact hfile
  · exact hfile

theorem HoldsFiles.finish {st : ResolverState} (h : HoldsFiles fs st) {path : Path} {node : PolicyNode}
    (hnode : fs.loadFromFile path = .ok node.policy) : HoldsFiles fs (st.finish path node) := by
  intro kn hkn
  rcases List.mem_append.1 hkn with hkn | hkn
  · exact h kn hkn
  · rw [List.mem_singleton.1 hkn]
    exact hnode

theorem resolveIncludes_holdsFiles {resolve : Path → ResolverState → Except ResolveError Unit × ResolverState}
    (hresolve : ∀ path st, HoldsFiles fs st → HoldsFiles fs (resolve path st).2) (path : Path) (includes : List String)
    (node : PolicyNode) (st : ResolverState) (h : HoldsFiles fs st) :
    HoldsFiles fs (resolveIncludes basePath resolve path includes node st).2 ∧
      ∀ node', (resolveIncludes basePath resolve path includes node st).1 = .ok node' → node'.policy = node.policy := by
  induction includes generalizing node st with
  | nil =>
    refine ⟨h, ?_⟩
    rintro node' ⟨⟩
    rfl
  | cons includePath includes ih =>
    have hone := hresolve (resolveIncludePath path includePath) st h
    simp only [resolveIncludes]
    split
    · exact ⟨h, by rintro _ ⟨⟩⟩
    · rcases hrun : resolve (resolveIncludePath path includePath) st with ⟨e | u, mid⟩
      · rw [hrun] at hone
        exact ⟨hone, by rintro _ ⟨⟩⟩
      · rw [hrun] at hone
        exact ih _ _ (hone.addIncludedBy _ path)

theorem resolveFile_holdsFiles (maxIncludeDepth : Int) (fuel depth : Nat) (path : Path) (st : ResolverState)
    (h : HoldsFiles fs st) : HoldsFiles fs (resolveFile fs basePath maxIncludeDepth fuel path depth st).2 := by
  induction fuel generalizing depth path st with
  | zero =>
    rw [resolveFile]
    split
    · exact h
    · split
      · exact h
      · split <;> exact h
  | succ fuel ih =>
    rw [resolveFile]
    split
    · exact h
    · next q hq =>
      split
      · exact h
      · split
        · exact h
        · dsimp only
          split
          · exact h
          · next policy hload =>
            obtain ⟨hholds, hpolicy⟩ := resolveIncludes_holdsFiles basePath (fun p st hst => ih (depth + 1) p st hst) q
              policy.includes { policy, filePath := q, depth } { st with visiting := q :: st.visiting } h
            split
            · next hrun => rw [hrun] at hholds; exact hholds
            · next node mid hrun =>
              rw [hrun] at hholds hpolicy
              exact hholds.finish (by rw [hpolicy node rfl]; exact hload)

theorem resolveRoots_holdsFiles (maxIncludeDepth : Int) (paths : List Path) {st : ResolverState}
    (h : HoldsFiles fs st) : HoldsFiles fs (resolveRoots fs basePath maxIncludeDepth paths st).2 := by
  induction paths generalizing st with
  | nil => exact h
  | cons path paths ih =>
    have hone := resolveFile_holdsFiles basePath maxIncludeDepth (maxIncludeDepth + 1).toNat 0 path st h
    simp only [resolveRoots]
    split
    · next hrun => rw [hrun] at hone; exact hone
    · next mid hrun =>
      rw [hrun] at hone
      exact ih hone

variable {basePath} {maxIncludeDepth : Int} {st : ResolverState}

def policyAt (st : ResolverState) (path : Path) : Option Policy := (st.nodes.lookup path).map (·.policy)

theorem policyAt_eq_some_iff (hrun : resolveRoots fs basePath maxIncludeDepth roots {} = (.ok (), st)) (k : Path)
    (p : Policy) : policyAt st k = some p ↔ Reached fs roots k ∧ fs.loadFromFile k = .ok p := by
  obtain ⟨hclosed, hvisited⟩ := visited_iff_reached hrun
  have hfiles : HoldsFiles fs st := by
    have h := resolveRoots_holdsFiles basePath maxIncludeDepth roots (show HoldsFiles fs {} by simp [HoldsFiles])
    rw [hrun] at h
    exact h
  have hnodup : (st.nodes.map Prod.fst).Nodup := hclosed.keys ▸ hclosed.nodup
  unfold policyAt
  rw [Option.map_eq_some_iff]
  constructor
  · rintro ⟨node, hnode, rfl⟩
    have hmem := (Lib.Table.lookup_eq_some_iff_mem hnodup).1 hnode
    exact ⟨(hvisited k).1 (hclosed.keys ▸ List.mem_map_of_mem hmem), hfiles _ hmem⟩
  · rintro ⟨hk, hload⟩
    obtain ⟨⟨k', node⟩, hmem, rfl⟩ := List.mem_map.1 (hclosed.keys.symm ▸ (hvisited k).2 hk)
    refine ⟨node, (Lib.Table.lookup_eq_some_iff_mem hnodup).2 hmem, ?_⟩
    have hfile := hfiles _ hmem
    rw [hload] at hfile
    exact (Except.ok.inj hfile).symm

def Writes (fs : FileSystem) (k r : Path) : Prop :=
  ∃ policy, fs.loadFromFile k = .ok policy ∧ ∃ s ∈ policy.includes, resolveIncludePath k s = r

theorem mem_edges_iff (hrun : resolveRoots fs basePath maxIncludeDepth roots {} = (.ok (), st)) (k r : Path) :
    r ∈ st.edges k ↔ Reached fs roots k ∧ Writes fs k r := by
  obtain ⟨hclosed, hvisited⟩ := visited_iff_reached hrun
  by_cases hk : k ∈ st.visited
  · obtain ⟨policy, hload, hedges⟩ := hclosed.loaded k hk
    rw [hedges, List.mem_map]
    constructor
    · exact fun hr => ⟨(hvisited k).1 hk, policy, hload, hr⟩
    · rintro ⟨-, policy', hload', hr⟩
      cases hload.symm.trans hload'
      exact hr
  · rw [hclosed.others k hk]
    constructor
    · intro hr
      cases hr
    · exact fun h => absurd ((hvisited k).2 h.1) hk

end Graph

/-! ## The last policy of a name -/

/-- From file `j` the include paths, as they are written, lead to file `k`. -/
def Leads (fs : FileSystem) (roots : List Path) : Path → Path → Prop :=
  TransGen fun j r => Reached fs roots j ∧ Writes fs j r

/-- File `k` declares the policy `p`, and no file that declares its name leads to `k`. -/
structure Last (fs : FileSystem) (roots : List Path) (k : Path) (p : Policy) : Prop where
  reached : Reached fs roots k
  loaded : fs.loadFromFile k = .ok p
  free : ∀ j q, Reached fs roots j → fs.loadFromFile j = .ok q → q.name = p.name → ¬ Leads fs roots j k

section Last

variable {fs : FileSystem} {basePath : Path} {maxIncludeDepth : Int} {roots : List Path} {st : ResolverState}

open PolicyRegistry

theorem exists_of_lastNamed {name : String} {p : Policy} (f : Path → Option Policy) : ∀ (l : List Path),
    lastNamed name (l.filterMap f) = some p →
    ∃ pre k post, l = pre ++ k :: post ∧ f k = some p ∧ ∀ x ∈ post, ∀ q, f x = some q → q.name ≠ name
  | [], h => by cases h
  | a :: l, h => by
    cases ha : f a with
    | none =>
      rw [List.filterMap_cons_none ha] at h
      obtain ⟨pre, k, post, rfl, hk⟩ := exists_of_lastNamed f l h
      exact ⟨a :: pre, k, post, rfl, hk⟩
    | some q =>
      rw [List.filterMap_cons_some ha, lastNamed_cons] at h
      cases hrest : lastNamed name (l.filterMap f) with
      | some p' =>
        rw [hrest] at h
        cases h
        obtain ⟨pre, k, post, rfl, hk⟩ := exists_of_lastNamed f l hrest
        exact ⟨a :: pre, k, post, rfl, hk⟩
      | none =>
        rw [hrest, Option.none_or] at h
        obtain ⟨-, h⟩ := Option.ite_none_right_eq_some.1 h
        cases h
        exact ⟨[], a, l, rfl, ha, fun x hx q hq => lastNamed_eq_none.1 hrest q (List.mem_filterMap.2 ⟨x, hx, hq⟩)⟩

theorem position_lt_of_leads (hrun : resolveRoots fs basePath maxIncludeDepth roots {} = (.ok (), st))
    {sortedPaths : List Path} (hordered : DepthFirst.Ordered st.edges sortedPaths)
    (hlisted : ∀ k, Reached fs roots k → k ∈ sortedPaths) {j k : Path} (h : Leads fs roots j k) :
    DepthFirst.position sortedPaths k < DepthFirst.position sortedPaths j := by
  induction h with
  | single hstep => exact hordered.position_lt (hlisted _ hstep.1) ((mem_edges_iff hrun _ _).2 hstep)
  | tail _ hstep ih =>
    exact Nat.lt_trans (hordered.position_lt (hlisted _ hstep.1) ((mem_edges_iff hrun _ _).2 hstep)) ih

/-- What a successful load has listed. -/
structure Sorted (fs : FileSystem) (roots : List Path) (st : ResolverState) (sortedPaths : List Path) : Prop where
  ordered : DepthFirst.Ordered st.edges sortedPaths
  listed : ∀ k, Reached fs roots k → k ∈ sortedPaths

theorem sorted_of_topologicalSort (hrun : resolveRoots fs basePath maxIncludeDepth roots {} = (.ok (), st))
    {order sortedPaths : List Path} (horder : order.Perm (st.nodes.map Prod.fst))
    (hsort : st.topologicalSort order = .ok sortedPaths) : Sorted fs roots st sortedPaths := by
  obtain ⟨hclosed, hvisited⟩ := visited_iff_reached hrun
  obtain ⟨hordered, hlisted, -⟩ := DepthFirst.sort_spec (topologicalSort_ok hsort)
  refine ⟨hordered, fun k hk => hlisted k (horder.symm.subset ?_)⟩
  exact hclosed.keys ▸ (hvisited k).2 hk

theorem last_of_lastNamed (hrun : resolveRoots fs basePath maxIncludeDepth roots {} = (.ok (), st))
    {sortedPaths : List Path} (hsorted : Sorted fs roots st sortedPaths) {name : String} {p : Policy}
    (h : lastNamed name (Files.resolvedPolicies st sortedPaths) = some p) : ∃ k, Last fs roots k p := by
  have hname := (lastNamed_eq_some h).2
  obtain ⟨pre, k, post, rfl, hk, hpost⟩ := exists_of_lastNamed (policyAt st) sortedPaths h
  obtain ⟨hreached, hload⟩ := (policyAt_eq_some_iff hrun k p).1 hk
  refine ⟨k, hreached, hload, ?_⟩
  intro j q hj hq hqp hleads
  -- a file that leads to `k` is listed after `k`, where no other file of the name is
  have hlt := position_lt_of_leads hrun hsorted.ordered hsorted.listed hleads
  have hnodup := List.nodup_append.1 hsorted.ordered.nodup
  have hfresh : k ∉ pre := fun hmem => hnodup.2.2 k hmem k List.mem_cons_self rfl
  rcases List.mem_append.1 (hsorted.listed j hj) with hmem | hmem
  · rw [DepthFirst.position_append_of_notMem hfresh, DepthFirst.position_append_of_mem hmem] at hlt
    have := DepthFirst.position_lt_length hmem
    omega
  · rcases List.mem_cons.1 hmem with rfl | hmem
    · exact Nat.lt_irrefl _ hlt
    · exact hpost j hmem q ((policyAt_eq_some_iff hrun j q).2 ⟨hj, hq⟩) (hqp.trans hname)

noncomputable def delaying (fs : FileSystem) (roots : List Path) (k : Path) (st : ResolverState) : List Path :=
  open Classical in
  (st.nodes.map Prod.fst).filter (fun x => decide ¬ (x = k ∨ Leads fs roots x k)) ++
    (st.nodes.map Prod.fst).filter (fun x => !decide ¬ (x = k ∨ Leads fs roots x k))

theorem delaying_isRange (k : Path) : IsRange (delaying fs roots k) := by
  intro st
  exact List.filter_append_perm _ _

theorem lastNamed_delaying (hrun : resolveRoots fs basePath maxIncludeDepth roots {} = (.ok (), st))
    {sortedPaths : List Path} {k : Path} {p : Policy} (hlast : Last fs roots k p)
    (hsort : st.topologicalSort (delaying fs roots k st) = .ok sortedPaths) :
    lastNamed p.name (Files.resolvedPolicies st sortedPaths) = some p := by
  classical
  obtain ⟨hclosed, hvisited⟩ := visited_iff_reached hrun
  have hsorted := sorted_of_topologicalSort hrun (delaying_isRange k st) hsort
  have hclosedSet : ∀ a, ¬ (a = k ∨ Leads fs roots a k) → ∀ b ∈ st.edges a, ¬ (b = k ∨ Leads fs roots b k) := by
    intro a ha b hb
    have hstep := (mem_edges_iff hrun a b).1 hb
    rintro (rfl | hleads)
    · exact ha (.inr (.single hstep))
    · exact ha (.inr (.head hstep hleads))
  obtain ⟨first, rest, rfl, hfirst, hnot⟩ := DepthFirst.sort_append hclosedSet
    (fun a ha => of_decide_eq_true (List.mem_filter.1 ha).2)
    (topologicalSort_ok hsort)
  have hk : k ∈ rest := by
    rcases List.mem_append.1 (hsorted.listed k hlast.reached) with hmem | hmem
    · exact absurd (.inl rfl) (hnot k hmem)
    · exact hmem
  -- the other files of the name are all among the first
  have honly : ∀ x ∈ rest, ∀ q, policyAt st x = some q → q.name = p.name → q = p := by
    intro x hx q hq hname
    obtain ⟨hreached, hload⟩ := (policyAt_eq_some_iff hrun x q).1 hq
    by_cases hxk : x = k
    · subst hxk
      exact Except.ok.inj (hload.symm.trans hlast.loaded)
    · have hfree := hlast.free x q hreached hload hname
      have hmem : x ∈ first := hfirst x (List.mem_filter.2
        ⟨hclosed.keys.symm ▸ (hvisited x).2 hreached, decide_eq_true fun h => h.elim hxk hfree⟩)
      exact absurd rfl ((List.nodup_append.1 hsorted.ordered.nodup).2.2 x hmem x hx)
  unfold Files.resolvedPolicies
  rw [List.filterMap_append, lastNamed_append]
  have hfound : p ∈ rest.filterMap (policyAt st) :=
    List.mem_filterMap.2 ⟨k, hk, (policyAt_eq_some_iff hrun k p).2 ⟨hlast.reached, hlast.loaded⟩⟩
  cases hnamed : lastNamed p.name (rest.filterMap (policyAt st)) with
  | none => exact absurd rfl (lastNamed_eq_none.1 hnamed p hfound)
  | some q =>
    obtain ⟨hq, hname⟩ := lastNamed_eq_some hnamed
    obtain ⟨x, hx, hxq⟩ := List.mem_filterMap.1 hq
    rw [honly x hx q hxq hname] at hnamed
    show (lastNamed p.name (rest.filterMap (policyAt st))).or _ = some p
    rw [hnamed, Option.some_or]

theorem exists_topologicalSort (hrun : resolveRoots fs basePath maxIncludeDepth roots {} = (.ok (), st))
    {sortedPaths order : List Path} (hsorted : Sorted fs roots st sortedPaths)
    (horder : order.Perm (st.nodes.map Prod.fst)) : ∃ sorted', st.topologicalSort order = .ok sorted' := by
  obtain ⟨hclosed, -⟩ := visited_iff_reached hrun
  have hrank : ∀ a, ∀ b ∈ st.edges a, DepthFirst.position sortedPaths b < DepthFirst.position sortedPaths a := by
    intro a b hb
    exact hsorted.ordered.position_lt (hsorted.listed a ((mem_edges_iff hrun a b).1 hb).1) hb
  obtain ⟨sorted', hsort⟩ := DepthFirst.exists_sort hrank hclosed.mem_paths
    fun k hk => List.mem_append_left _ (horder.subset hk)
  exact ⟨sorted', by rw [ResolverState.topologicalSort, hsort]⟩

theorem mem_resolvedPolicies (hrun : resolveRoots fs basePath maxIncludeDepth roots {} = (.ok (), st))
    {sortedPaths : List Path} (hsorted : Sorted fs roots st sortedPaths) (p : Policy) :
    p ∈ Files.resolvedPolicies st sortedPaths ↔ ∃ k, Reached fs roots k ∧ fs.loadFromFile k = .ok p := by
  unfold Files.resolvedPolicies
  rw [List.mem_filterMap]
  constructor
  · rintro ⟨k, -, hk⟩
    exact ⟨k, (policyAt_eq_some_iff hrun k p).1 hk⟩
  · rintro ⟨k, hk, hload⟩
    exact ⟨k, hsorted.listed k hk, (policyAt_eq_some_iff hrun k p).2 ⟨hk, hload⟩⟩

end Last

/-! ## Loads -/

/-- A call of the manager that loads the files, in some order of the nodes and with some state before it, and returns
no error. -/
structure Load (sha256 : Digest) (config : ValidationConfig) (text : SourceError → String) (files : Files) where
  manager : PolicyManager
  call : LoadCall
  order : ResolverState → List Path
  range : IsRange order
  source : call.source = files.source text order
  ok : (manager.call sha256 config call).1 = none

def Files.Settled (files : Files) : Prop :=
  ∀ policies, files.found = .ok policies → Files.hasIncludes policies = true →
    ∀ k k' p p', Last files.fs (files.policyPaths policies) k p → Last files.fs (files.policyPaths policies) k' p' →
      p.name = p'.name → p = p'

section Loads

variable {sha256 : Digest} {config : ValidationConfig} {text : SourceError → String} {files : Files}

open PolicyRegistry

def Load.registry (l : Load sha256 config text files) : PolicyRegistry :=
  (l.manager.call sha256 config l.call).2.registry

theorem source_accepted_iff {order : ResolverState → List Path} {policies : List Policy} :
    (files.source text order).accepted config = some policies ↔
      files.loadPoliciesFromSource order = .ok policies ∧
        (config.enabled = true → ∀ p ∈ policies, files.validate p = none) ∧ ∀ p ∈ policies, p.name ≠ "" := by
  rw [Source.accepted_eq_some, validatePolicies_eq_none]
  unfold Files.source
  cases files.loadPoliciesFromSource order with
  | error e => simp
  | ok policies' =>
    simp only [Except.ok.injEq, Option.some.injEq, not_exists, not_and]

theorem Load.registry_get (l : Load sha256 config text files) :
    ∃ policies, (files.source text l.order).accepted config = some policies ∧
      ∀ name, l.registry.get name = lastNamed name policies := by
  obtain ⟨m, c, order, hrange, hsource, hok⟩ := l
  dsimp only at hok hsource ⊢
  have hboth : ∀ restore now, (m.update sha256 config restore now (files.source text order)).1 = none →
      ∃ policies, (files.source text order).accepted config = some policies ∧
        ∀ name, (m.update sha256 config restore now (files.source text order)).2.registry.get name =
          lastNamed name policies := by
    intro restore now h
    obtain ⟨policies, haccepted⟩ := PolicyManager.accepted_of_update h
    have hholds : PolicyManager.Holds sha256 (m.update sha256 config restore now (files.source text order)).2 policies :=
      (PolicyManager.update_of_accepted haccepted m restore now).2
    refine ⟨policies, haccepted, fun name => ?_⟩
    rw [PolicyRegistry.get, hholds.map, lookup_ofList]
  cases c with
  | load now source => cases hsource; exact hboth false now hok
  | reload now source => cases hsource; exact hboth true now hok

def loadOf (m : PolicyManager) {order : ResolverState → List Path} (hrange : IsRange order) {policies : List Policy}
    (h : (files.source text order).accepted config = some policies) : Load sha256 config text files where
  manager := m
  call := .load 0 (files.source text order)
  order := order
  range := hrange
  source := rfl
  ok := (PolicyManager.update_of_accepted h m false 0).1

theorem resolved_of_accepted {order : ResolverState → List Path} (hrange : IsRange order) {found policies : List Policy}
    (hfound : files.found = .ok found) (hincludes : Files.hasIncludes found = true)
    (h : (files.source text order).accepted config = some policies) :
    ∃ st sortedPaths,
      resolveRoots files.fs files.basePath files.maxIncludeDepth (files.policyPaths found) {} = (.ok (), st) ∧
      Sorted files.fs (files.policyPaths found) st sortedPaths ∧ policies = Files.resolvedPolicies st sortedPaths := by
  have hloaded := (source_accepted_iff.1 h).1
  simp only [Files.loadPoliciesFromSource, hfound, hincludes, if_true, resolveMultiple] at hloaded
  split at hloaded
  · cases hloaded
  · next sortedPaths st hrun =>
    split at hrun
    · cases hrun
    · next st' hroots =>
      obtain ⟨hsort, rfl⟩ := Prod.mk.inj hrun
      cases hloaded
      exact ⟨st', sortedPaths, hroots, sorted_of_topologicalSort hroots (hrange st') hsort, rfl⟩

theorem exists_load_of_last (l : Load sha256 config text files) {found : List Policy}
    (hfound : files.found = .ok found) (hincludes : Files.hasIncludes found = true) {k : Path} {p : Policy}
    (hlast : Last files.fs (files.policyPaths found) k p) :
    ∃ l' : Load sha256 config text files, l'.registry.get p.name = some p := by
  obtain ⟨policies, haccepted, -⟩ := l.registry_get
  obtain ⟨st, sortedPaths, hroots, hsorted, rfl⟩ := resolved_of_accepted l.range hfound hincludes haccepted
  obtain ⟨-, hvalid, hnamed⟩ := source_accepted_iff.1 haccepted
  have hrange : IsRange (delaying files.fs (files.policyPaths found) k) := delaying_isRange k
  obtain ⟨sorted', hsort⟩ := exists_topologicalSort hroots hsorted (hrange st)
  have hsorted' := sorted_of_topologicalSort hroots (hrange st) hsort
  have hsame : ∀ q, q ∈ Files.resolvedPolicies st sorted' → q ∈ Files.resolvedPolicies st sortedPaths := by
    intro q hq
    exact (mem_resolvedPolicies hroots hsorted q).2 ((mem_resolvedPolicies hroots hsorted' q).1 hq)
  have haccepted' : (files.source text (delaying files.fs (files.policyPaths found) k)).accepted config =
      some (Files.resolvedPolicies st sorted') := by
    refine source_accepted_iff.2 ⟨?_, fun he q hq => hvalid he q (hsame q hq), fun q hq => hnamed q (hsame q hq)⟩
    simp only [Files.loadPoliciesFromSource, hfound, hincludes, if_true, resolveMultiple, hroots, hsort]
  let l' : Load sha256 config text files := loadOf l.manager hrange haccepted'
  obtain ⟨policies', hagain, hget⟩ := l'.registry_get
  cases haccepted'.symm.trans hagain
  exact ⟨l', (hget p.name).trans (lastNamed_delaying hroots hlast hsort)⟩

/-- Settled files leave the same policy under a name in any two orders: both list the same policies, and the last ones
of a name are the same policy. -/
theorem lastNamed_eq_of_settled (hsettled : files.Settled) {found : List Policy} (hfound : files.found = .ok found)
    (hincludes : Files.hasIncludes found = true) {st : ResolverState} {sortedPaths sortedPaths' : List Path}
    (hroots : resolveRoots files.fs files.basePath files.maxIncludeDepth (files.policyPaths found) {} = (.ok (), st))
    (hsorted : Sorted files.fs (files.policyPaths found) st sortedPaths)
    (hsorted' : Sorted files.fs (files.policyPaths found) st sortedPaths') (name : String) :
    lastNamed name (Files.resolvedPolicies st sortedPaths) =
      lastNamed name (Files.resolvedPolicies st sortedPaths') := by
  have hmem : ∀ q, q ∈ Files.resolvedPolicies st sortedPaths ↔ q ∈ Files.resolvedPolicies st sortedPaths' := by
    intro q
    rw [mem_resolvedPolicies hroots hsorted, mem_resolvedPolicies hroots hsorted']
  cases hp : lastNamed name (Files.resolvedPolicies st sortedPaths) with
  | none =>
    symm
    rw [lastNamed_eq_none] at hp ⊢
    exact fun q hq => hp q ((hmem q).2 hq)
  | some p =>
    obtain ⟨hfirst, hname⟩ := lastNamed_eq_some hp
    cases hp' : lastNamed name (Files.resolvedPolicies st sortedPaths') with
    | none => exact absurd hname (lastNamed_eq_none.1 hp' p ((hmem p).1 hfirst))
    | some p' =>
      obtain ⟨k, hlast⟩ := last_of_lastNamed hroots hsorted hp
      obtain ⟨k', hlast'⟩ := last_of_lastNamed hroots hsorted' hp'
      have hnames : p.name = p'.name := hname.trans (lastNamed_eq_some hp').2.symm
      rw [hsettled found hfound hincludes k k' p p' hlast hlast' hnames]

/-- Two loads of the same files leave the same policies exactly when the files leave one policy for each name. -/
theorem loads_reproducible_iff (sha256 : Digest) (config : ValidationConfig) (text : SourceError → String)
    (files : Files) (hloads : Nonempty (Load sha256 config text files)) :
    (∀ (l l' : Load sha256 config text files) (name : String), l.registry.get name = l'.registry.get name) ↔
      files.Settled := by
  constructor
  · intro hsame found hfound hincludes k k' p p' hlast hlast' hname
    obtain ⟨l⟩ := hloads
    obtain ⟨first, hfirst⟩ := exists_load_of_last l hfound hincludes hlast
    obtain ⟨second, hsecond⟩ := exists_load_of_last l hfound hincludes hlast'
    have heq := hsame first second p.name
    rw [hfirst, hname, hsecond] at heq
    exact Option.some.inj heq
  · intro hsettled l l' name
    obtain ⟨policies, haccepted, hget⟩ := l.registry_get
    obtain ⟨policies', haccepted', hget'⟩ := l'.registry_get
    rw [hget, hget']
    cases hfound : files.found with
    | error e =>
      have hloaded := (source_accepted_iff.1 haccepted).1
      simp only [Files.loadPoliciesFromSource, hfound] at hloaded
      cases hloaded
    | ok found =>
      cases hincludes : Files.hasIncludes found with
      | false =>
        -- the order of the directory walk
        have hloaded := (source_accepted_iff.1 haccepted).1
        have hloaded' := (source_accepted_iff.1 haccepted').1
        simp only [Files.loadPoliciesFromSource, hfound, hincludes] at hloaded hloaded'
        cases hloaded.symm.trans hloaded'
        rfl
      | true =>
        obtain ⟨st, sortedPaths, hroots, hsorted, rfl⟩ := resolved_of_accepted l.range hfound hincludes haccepted
        obtain ⟨st', sortedPaths', hroots', hsorted', rfl⟩ := resolved_of_accepted l'.range hfound hincludes haccepted'
        cases hroots.symm.trans hroots'
        exact lastNamed_eq_of_settled hsettled hfound hincludes hroots hsorted hsorted' name

end Loads

/-! ## Two files of one name -/

/-- Three files of one directory: `a.yaml` declares "limits", `b.yaml` the given name, and `c.yaml`, which `b.yaml`
includes, declares "base". -/
def threeFiles (name : String) : Files where
  fs := {
    evalSymlinks := fun p => .ok p
    isDir := fun p => p = ["policies"]
    loadFromFile := fun p =>
      if p = ["policies", "a.yaml"] then .ok { name := "limits", version := "1", sourceFile := "/policies/a.yaml" }
      else if p = ["policies", "b.yaml"] then
        .ok { name, version := "2", sourceFile := "/policies/b.yaml", includes := ["c.yaml"] }
      else if p = ["policies", "c.yaml"] then .ok { name := "base", version := "3", sourceFile := "/policies/c.yaml" }
      else .error "file not found" }
  cwd := []
  policyPath := ["policies"]
  stat := .ok true
  walk := .ok [["policies", "a.yaml"], ["policies", "b.yaml"], ["policies", "c.yaml"]]
  basePath := ["policies"]
  maxIncludeDepth := 10
  validate := fun _ => none

theorem isRange_keys : IsRange fun st => st.nodes.map Prod.fst := fun _ => List.Perm.refl _

theorem isRange_reverse : IsRange fun st => (st.nodes.map Prod.fst).reverse := fun _ => List.reverse_perm _

theorem threeFiles_last_wins_varies :
    ∃ l l' : Load id ⟨true, true⟩ (fun _ => "") (threeFiles "limits"),
      (l.registry.get "limits").map (·.version) = some "2" ∧ (l'.registry.get "limits").map (·.version) = some "1" :=
  ⟨loadOf (newPolicyManager 0) isRange_keys rfl, loadOf (newPolicyManager 0) isRange_reverse rfl, rfl, rfl⟩

theorem threeFiles_loaded {name : String} {k : Path} {p : Policy} (h : (threeFiles name).fs.loadFromFile k = .ok p) :
    p = { name := "limits", version := "1", sourceFile := "/policies/a.yaml" } ∨
      p = { name, version := "2", sourceFile := "/policies/b.yaml", includes := ["c.yaml"] } ∨
      p = { name := "base", version := "3", sourceFile := "/policies/c.yaml" } := by
  simp only [threeFiles] at h
  split_ifs at h <;> cases h <;> simp

theorem loads_reproducible_threeFiles :
    Nonempty (Load id ⟨true, true⟩ (fun _ => "") (threeFiles "prices")) ∧
      ∀ (l l' : Load id ⟨true, true⟩ (fun _ => "") (threeFiles "prices")) (name : String),
        l.registry.get name = l'.registry.get name := by
  have hloads : Nonempty (Load id ⟨true, true⟩ (fun _ => "") (threeFiles "prices")) :=
    ⟨loadOf (newPolicyManager 0) isRange_keys rfl⟩
  refine ⟨hloads, (loads_reproducible_iff id ⟨true, true⟩ (fun _ => "") (threeFiles "prices") hloads).2 ?_⟩
  intro policies _ _ k k' p p' hlast hlast' hname
  rcases threeFiles_loaded hlast.loaded with rfl | rfl | rfl <;>
    rcases threeFiles_loaded hlast'.loaded with rfl | rfl | rfl <;>
    first | rfl | exact absurd hname (by decide)

end Jupiter.Manager
