/-
The load order that include resolution computes.

Nodes are stored under canonical paths, but the edges hold include paths as they were written, joined and cleaned. When
an include path is not the canonical path of its file, `topologicalSort` visits a path that is no node, and nothing puts
the file itself before the one that includes it.
-/
import Jupiter.Manager.Resolver

namespace Jupiter.Manager

open Jupiter.Lib

/-! ## Files and their includes -/

/-- The files that the include lists lead to from the roots, under their canonical paths. -/
inductive Reached (fs : FileSystem) (roots : List Path) : Path → Prop
  | root {p k : Path} : p ∈ roots → fs.normalizePath p = .ok k → Reached fs roots k
  | step {k q : Path} {policy : Policy} {s : String} :
    Reached fs roots k → fs.loadFromFile k = .ok policy → s ∈ policy.includes →
    fs.normalizePath (resolveIncludePath k s) = .ok q → Reached fs roots q

theorem Reached.exists_normalize {fs : FileSystem} {roots : List Path} {k : Path} (h : Reached fs roots k) :
    ∃ p, fs.normalizePath p = .ok k := by
  cases h with
  | root _ hk => exact ⟨_, hk⟩
  | step _ _ _ hk => exact ⟨_, hk⟩

/-! ## What a successful resolution builds -/

/-- Between two files: the visited paths are those with a node, the edges are the include paths of the files, and the
file of every include path is visited. -/
structure Closed (fs : FileSystem) (roots : List Path) (st : ResolverState) : Prop where
  keys : st.nodes.map Prod.fst = st.visited
  nodup : st.visited.Nodup
  reached : ∀ k ∈ st.visited, Reached fs roots k
  loaded : ∀ k ∈ st.visited, ∃ policy, fs.loadFromFile k = .ok policy ∧
    st.edges k = policy.includes.map (resolveIncludePath k)
  targets : ∀ k ∈ st.visited, ∀ r ∈ st.edges k, ∃ q ∈ st.visited, fs.normalizePath r = .ok q
  others : ∀ k, k ∉ st.visited → st.edges k = []

/-- A resolution that succeeds visits more paths, none of them on its path from the root. -/
structure Grows (st st' : ResolverState) : Prop where
  visited : ∃ new, st'.visited = st.visited ++ new ∧ ∀ k ∈ new, k ∉ st.visiting
  visiting : st'.visiting = st.visiting

theorem Grows.refl (st : ResolverState) : Grows st st := ⟨⟨[], by simp, by simp⟩, rfl⟩

theorem Grows.trans {st st' st'' : ResolverState} (h : Grows st st') (h' : Grows st' st'') : Grows st st'' := by
  obtain ⟨new, hv, hoff⟩ := h.visited
  obtain ⟨new', hv', hoff'⟩ := h'.visited
  refine ⟨⟨new ++ new', by rw [hv', hv, List.append_assoc], ?_⟩, h'.visiting.trans h.visiting⟩
  intro k hk
  rcases List.mem_append.1 hk with hk | hk
  · exact hoff k hk
  · exact h.visiting ▸ hoff' k hk

theorem Grows.mem {st st' : ResolverState} (h : Grows st st') {k : Path} (hk : k ∈ st.visited) : k ∈ st'.visited := by
  obtain ⟨new, hv, -⟩ := h.visited
  exact hv ▸ List.mem_append_left new hk

variable {fs : FileSystem} {basePath : Path} {roots : List Path}

theorem Closed.addIncludedBy {st : ResolverState} (h : Closed fs roots st) (key includer : Path) :
    Closed fs roots (st.addIncludedBy key includer) := by
  refine ⟨?_, h.nodup, h.reached, h.loaded, h.targets, h.others⟩
  show (st.nodes.map _).map Prod.fst = st.visited
  rw [← h.keys, List.map_map]
  refine List.map_congr_left fun kn _ => ?_
  show (if kn.1 = key then _ else kn).1 = kn.1
  split <;> rfl

theorem Closed.visit {st : ResolverState} (h : Closed fs roots st) (k : Path) :
    Closed fs roots { st with visiting := k :: st.visiting } :=
  ⟨h.keys, h.nodup, h.reached, h.loaded, h.targets, h.others⟩

theorem Closed.finish {st : ResolverState} (h : Closed fs roots st) {path : Path} {node : PolicyNode} {policy : Policy}
    (hnew : path ∉ st.visited) (hreached : Reached fs roots path) (hload : fs.loadFromFile path = .ok policy)
    (hincludes : node.includes = policy.includes.map (resolveIncludePath path))
    (htargets : ∀ r ∈ node.includes, ∃ q ∈ st.visited, fs.normalizePath r = .ok q) :
    Closed fs roots (st.finish path node) := by
  have hself : (st.finish path node).edges path = node.includes := if_pos rfl
  have hother : ∀ k, k ≠ path → (st.finish path node).edges k = st.edges k := fun k hk => if_neg hk
  have hmem : ∀ k ∈ (st.finish path node).visited, k = path ∨ k ≠ path ∧ k ∈ st.visited := by
    intro k hk
    rcases List.mem_append.1 hk with hk | hk
    · exact .inr ⟨fun heq => hnew (heq ▸ hk), hk⟩
    · exact .inl (List.mem_singleton.1 hk)
  constructor
  · simp [ResolverState.finish, h.keys]
  · show (st.visited ++ [path]).Nodup
    rw [List.nodup_append_comm]
    simpa using ⟨hnew, h.nodup⟩
  · intro k hk
    rcases hmem k hk with rfl | ⟨-, hk⟩
    · exact hreached
    · exact h.reached k hk
  · intro k hk
    rcases hmem k hk with rfl | ⟨hne, hk⟩
    · exact ⟨policy, hload, hself.trans hincludes⟩
    · rw [hother k hne]
      exact h.loaded k hk
  · intro k hk r hr
    have hfound : ∃ q ∈ st.visited, fs.normalizePath r = .ok q := by
      rcases hmem k hk with rfl | ⟨hne, hk⟩
      · exact htargets r (hself ▸ hr)
      · exact h.targets k hk r (hother k hne ▸ hr)
    obtain ⟨q, hq, hr⟩ := hfound
    exact ⟨q, List.mem_append_left _ hq, hr⟩
  · intro k hk
    have hne : k ≠ path := fun heq => hk (List.mem_append_right _ (List.mem_singleton.2 heq))
    rw [hother k hne]
    exact h.others k fun hold => hk (List.mem_append_left _ hold)

def Resolves (fs : FileSystem) (roots : List Path)
    (resolve : Path → ResolverState → Except ResolveError Unit × ResolverState) : Prop :=
  ∀ path st st', Closed fs roots st → (∀ q, fs.normalizePath path = .ok q → Reached fs roots q) →
    resolve path st = (.ok (), st') →
    Closed fs roots st' ∧ Grows st st' ∧ ∃ q ∈ st'.visited, fs.normalizePath path = .ok q

theorem resolveIncludes_spec {resolve : Path → ResolverState → Except ResolveError Unit × ResolverState}
    (hresolve : Resolves fs roots resolve) {path : Path} {includes : List String} {node node' : PolicyNode}
    {st st' : ResolverState} (h : Closed fs roots st)
    (hreached : ∀ s ∈ includes, ∀ q, fs.normalizePath (resolveIncludePath path s) = .ok q → Reached fs roots q)
    (hnode : ∀ r ∈ node.includes, ∃ q ∈ st.visited, fs.normalizePath r = .ok q)
    (hrun : resolveIncludes basePath resolve path includes node st = (.ok node', st')) :
    Closed fs roots st' ∧ Grows st st' ∧ node'.includes = node.includes ++ includes.map (resolveIncludePath path) ∧
      ∀ r ∈ node'.includes, ∃ q ∈ st'.visited, fs.normalizePath r = .ok q := by
  induction includes generalizing node st with
  | nil =>
    cases hrun
    exact ⟨h, Grows.refl _, by simp, hnode⟩
  | cons includePath includes ih =>
    simp only [resolveIncludes] at hrun
    split at hrun
    · cases hrun
    · rcases hone : resolve (resolveIncludePath path includePath) st with ⟨_ | _, mid⟩
      · simp [hone] at hrun
      · simp only [hone] at hrun
        obtain ⟨hclosed, hgrows, q, hq, hcanon⟩ := hresolve _ st mid h (hreached _ List.mem_cons_self) hone
        have hnode' : ∀ r ∈ node.includes ++ [resolveIncludePath path includePath],
            ∃ q ∈ mid.visited, fs.normalizePath r = .ok q := by
          intro r hr
          rcases List.mem_append.1 hr with hr | hr
          · obtain ⟨q', hq', hr'⟩ := hnode r hr
            exact ⟨q', hgrows.mem hq', hr'⟩
          · obtain rfl := List.mem_singleton.1 hr
            exact ⟨q, hq, hcanon⟩
        obtain ⟨hclosed', hgrows', hincludes, htargets⟩ := ih (hclosed.addIncludedBy _ path)
          (fun s hs => hreached s (List.mem_cons_of_mem _ hs)) hnode' hrun
        refine ⟨hclosed', hgrows.trans ⟨hgrows'.visited, hgrows'.visiting⟩, ?_, htargets⟩
        rw [hincludes, List.map_cons, List.append_assoc]
        rfl

/-- By induction on the levels left: the includes of a file cannot have visited the file itself, because it is marked
while they are resolved. -/
theorem resolves_resolveFile (maxIncludeDepth : Int) (fuel depth : Nat) :
    Resolves fs roots fun path st => resolveFile fs basePath maxIncludeDepth fuel path depth st := by
  induction fuel generalizing depth with
  | zero =>
    intro path st st' h _ hrun
    dsimp only at hrun
    rw [resolveFile] at hrun
    split at hrun
    · cases hrun
    · next q hq =>
      split at hrun
      · next hmem =>
        cases hrun
        exact ⟨h, Grows.refl st, q, hmem, hq⟩
      · split at hrun <;> cases hrun
  | succ fuel ih =>
    intro path st st' h hreached hrun
    dsimp only at hrun
    rw [resolveFile] at hrun
    split at hrun
    · cases hrun
    · next q hq =>
      split at hrun
      · next hmem =>
        cases hrun
        exact ⟨h, Grows.refl st, q, hmem, hq⟩
      · next hnew =>
        split at hrun
        · cases hrun
        · next hoff =>
          dsimp only at hrun
          split at hrun
          · cases hrun
          · next policy hload =>
            split at hrun
            · cases hrun
            · next node mid hrunIncludes =>
              cases hrun
              have hq' := hreached q hq
              obtain ⟨hclosed, hgrows, hincludes, htargets⟩ := resolveIncludes_spec (ih (depth + 1)) (h.visit q)
                (fun s hs q' => hq'.step hload hs) (by simp) hrunIncludes
              obtain ⟨new, hvisited, hpath⟩ := hgrows.visited
              have hfresh : q ∉ mid.visited := by
                rw [hvisited]
                intro hmem
                rcases List.mem_append.1 hmem with hmem | hmem
                · exact hnew hmem
                · exact hpath q hmem List.mem_cons_self
              refine ⟨hclosed.finish hfresh hq' hload (by simpa using hincludes) htargets,
                ⟨⟨new ++ [q], ?_, ?_⟩, ?_⟩, q, ?_, hq⟩
              · show mid.visited ++ [q] = _
                rw [hvisited, List.append_assoc]
              · intro k hk
                rcases List.mem_append.1 hk with hk | hk
                · exact fun hv => hpath k hk (List.mem_cons_of_mem q hv)
                · exact List.mem_singleton.1 hk ▸ hoff
              · show mid.visiting.erase q = st.visiting
                rw [hgrows.visiting]
                exact List.erase_cons_head q st.visiting
              · exact List.mem_append_right _ List.mem_cons_self

theorem resolveRoots_spec {maxIncludeDepth : Int} {paths : List Path} {st st' : ResolverState}
    (h : Closed fs roots st) (hpaths : paths ⊆ roots)
    (hrun : resolveRoots fs basePath maxIncludeDepth paths st = (.ok (), st')) :
    Closed fs roots st' ∧ Grows st st' ∧ ∀ p ∈ paths, ∃ q ∈ st'.visited, fs.normalizePath p = .ok q := by
  induction paths generalizing st with
  | nil =>
    cases hrun
    exact ⟨h, Grows.refl _, by simp⟩
  | cons path paths ih =>
    simp only [resolveRoots] at hrun
    split at hrun
    · cases hrun
    · next mid hone =>
      obtain ⟨hpath, hpaths⟩ := List.cons_subset.1 hpaths
      obtain ⟨hclosed, hgrows, q, hq, hcanon⟩ := resolves_resolveFile maxIncludeDepth _ 0 path st mid h
        (fun q hq => .root hpath hq) hone
      obtain ⟨hclosed', hgrows', hrest⟩ := ih hclosed hpaths hrun
      refine ⟨hclosed', hgrows.trans hgrows', ?_⟩
      intro p hp
      rcases List.mem_cons.1 hp with rfl | hp
      · exact ⟨q, hgrows'.mem hq, hcanon⟩
      · exact hrest p hp

theorem visited_iff_reached {maxIncludeDepth : Int} {st : ResolverState}
    (hrun : resolveRoots fs basePath maxIncludeDepth roots {} = (.ok (), st)) :
    Closed fs roots st ∧ ∀ k, k ∈ st.visited ↔ Reached fs roots k := by
  have hempty : Closed fs roots {} := ⟨rfl, List.nodup_nil, by simp, by simp, by simp, fun _ _ => rfl⟩
  obtain ⟨hclosed, -, hroots⟩ := resolveRoots_spec hempty (List.Subset.refl roots) hrun
  refine ⟨hclosed, fun k => ⟨hclosed.reached k, fun hk => ?_⟩⟩
  induction hk with
  | root hp hnorm =>
    obtain ⟨q, hq, hnorm'⟩ := hroots _ hp
    cases hnorm.symm.trans hnorm'
    exact hq
  | step _ hload hs hnorm ih =>
    obtain ⟨policy', hload', hedges⟩ := hclosed.loaded _ ih
    cases hload.symm.trans hload'
    obtain ⟨q, hq, hnorm'⟩ := hclosed.targets _ ih _ (hedges ▸ List.mem_map_of_mem hs)
    cases hnorm.symm.trans hnorm'
    exact hq

/-! ## The order -/

/-- The sorted paths are the nodes of the graph, each once, and the file of every include path stands before the file
that includes it. -/
structure LoadOrder (fs : FileSystem) (st : ResolverState) (sortedPaths : List Path) : Prop where
  nodup : sortedPaths.Nodup
  nodes : ∀ p, p ∈ sortedPaths ↔ p ∈ st.nodes.map Prod.fst
  before : ∀ k ∈ st.nodes.map Prod.fst, ∀ r ∈ st.edges k, ∀ q, fs.normalizePath r = .ok q →
    DepthFirst.Before sortedPaths q k

theorem Closed.mem_paths {st : ResolverState} (h : Closed fs roots st) (k r : Path) (hr : r ∈ st.edges k) :
    r ∈ st.paths := by
  by_cases hk : k ∈ st.visited
  · obtain ⟨kn, hkn, rfl⟩ := List.mem_map.1 (h.keys ▸ hk)
    exact List.mem_append_right _ (List.mem_flatMap.2 ⟨kn, hkn, hr⟩)
  · rw [h.others k hk] at hr
    cases hr

theorem topologicalSort_ok {st : ResolverState} {order sortedPaths : List Path}
    (hsort : st.topologicalSort order = .ok sortedPaths) :
    DepthFirst.sort st.edges st.paths.length order = .ok sortedPaths := by
  unfold ResolverState.topologicalSort at hsort
  split at hsort
  · next heq =>
    cases hsort
    exact heq
  · cases hsort
  · cases hsort

/-- When include resolution succeeds, the load order is right exactly when every include path that a reached file
writes is the canonical path of its file, in whatever order the nodes are visited. -/
theorem loadOrder_iff (fs : FileSystem)
    (hcanon : ∀ p q, fs.normalizePath p = .ok q → fs.normalizePath q = .ok q)
    (basePath : Path) (maxIncludeDepth : Int) (order : ResolverState → List Path)
    (horder : ∀ st, (order st).Perm (st.nodes.map Prod.fst)) (roots sortedPaths : List Path) (st : ResolverState)
    (hrun : resolveMultiple fs basePath maxIncludeDepth order roots = (.ok sortedPaths, st)) :
    LoadOrder fs st sortedPaths ↔
      ∀ k policy, Reached fs roots k → fs.loadFromFile k = .ok policy → ∀ s ∈ policy.includes,
        fs.normalizePath (resolveIncludePath k s) = .ok (resolveIncludePath k s) := by
  unfold resolveMultiple at hrun
  split at hrun
  · cases hrun
  · next st' hroots =>
    obtain ⟨hsort, rfl⟩ := Prod.mk.inj hrun
    obtain ⟨hclosed, hvisited⟩ := visited_iff_reached hroots
    obtain ⟨hordered, hlisted, horigin⟩ := DepthFirst.sort_spec (topologicalSort_ok hsort)
    have hkeys : ∀ p, p ∈ st'.nodes.map Prod.fst ↔ Reached fs roots p := fun p => hclosed.keys ▸ hvisited p
    have hnode : ∀ k ∈ st'.nodes.map Prod.fst, k ∈ sortedPaths := fun k hk => hlisted k ((horder st').symm.subset hk)
    constructor
    · intro h k policy hk hload s hs
      obtain ⟨policy', hload', hedges⟩ := hclosed.loaded k ((hvisited k).2 hk)
      cases hload.symm.trans hload'
      have hr : resolveIncludePath k s ∈ st'.edges k := hedges ▸ List.mem_map_of_mem hs
      -- the include path itself is listed, so it must be a node, and nodes are canonical
      have hmem := (hordered.before k (hnode k ((hkeys k).2 hk)) _ hr).mem_left
      obtain ⟨p, hp⟩ := ((hkeys _).1 ((h.nodes _).1 hmem)).exists_normalize
      exact hcanon _ _ hp
    · intro h
      have hedge : ∀ k, ∀ r ∈ st'.edges k, fs.normalizePath r = .ok r ∧ r ∈ st'.nodes.map Prod.fst := by
        intro k r hr
        by_cases hk : k ∈ st'.visited
        · obtain ⟨policy, hload, hedges⟩ := hclosed.loaded k hk
          obtain ⟨s, hs, rfl⟩ := List.mem_map.1 (hedges ▸ hr)
          have hself := h k policy ((hvisited k).1 hk) hload s hs
          exact ⟨hself, (hkeys _).2 (((hvisited k).1 hk).step hload hs hself)⟩
        · rw [hclosed.others k hk] at hr
          cases hr
      refine ⟨hordered.nodup, fun p => ⟨fun hp => ?_, hnode p⟩, ?_⟩
      · rcases horigin p hp with hp | ⟨k, hr⟩
        · exact (horder st').subset hp
        · exact (hedge k p hr).2
      · intro k hk r hr q hq
        cases (hedge k r hr).1.symm.trans hq
        exact hordered.before k (hnode k hk) r hr

/-- A main file that includes `rules.yaml` of the same directory, which is a link to `target` there. -/
def mainAndRules (target : String) : FileSystem where
  evalSymlinks p := .ok (if p = ["policies", "rules.yaml"] then ["policies", target] else p)
  isDir p := p = ["policies"]
  loadFromFile p := .ok
    { name := "", includes := if p = ["policies", "main.yaml"] then ["rules.yaml"] else [] }

/-- The include path is listed instead of the file, which comes after the file that includes it. -/
theorem linked_include_sorted_last :
    ∃ st, resolveMultiple (mainAndRules "base.yaml") ["policies"] 10 (fun st => (st.nodes.map Prod.fst).reverse)
          [["policies", "main.yaml"]] =
        (.ok [["policies", "rules.yaml"], ["policies", "main.yaml"], ["policies", "base.yaml"]], st) ∧
      st.nodes.map Prod.fst = [["policies", "base.yaml"], ["policies", "main.yaml"]] :=
  ⟨_, rfl, rfl⟩

theorem plain_include_sorted_first :
    ∃ st, LoadOrder (mainAndRules "rules.yaml") st [["policies", "rules.yaml"], ["policies", "main.yaml"]] := by
  have hself : ∀ p, (mainAndRules "rules.yaml").normalizePath p = .ok p := by
    intro p
    show Except.ok (if p = ["policies", "rules.yaml"] then ["policies", "rules.yaml"] else p) = Except.ok p
    split
    · next h => rw [h]
    · rfl
  refine ⟨_, (loadOrder_iff (mainAndRules "rules.yaml") (fun p q _ => hself q) ["policies"] 10
    (fun st => (st.nodes.map Prod.fst).reverse) (fun st => List.reverse_perm _) [["policies", "main.yaml"]] _ _ rfl).2 ?_⟩
  intro k policy _ _ s _
  exact hself _

end Jupiter.Manager
