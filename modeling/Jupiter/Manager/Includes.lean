/-
Include resolution as a depth-first search of the files under their canonical paths.

`resolveFile` marks files as visited and visiting the way the search lists and passes vertices, and the depth it may
still go down is the search's fuel (`simulates_resolveFile`).
-/
import Jupiter.Lib.DepthBound
import Jupiter.Manager.Order

namespace Jupiter.Manager

open Jupiter.Lib Relation
open DepthFirst (Edge Chain ExposedIn Failure visit visitAll)

/-! ## Files and their includes -/

def includesOf (fs : FileSystem) (canon : Path → Path) (k : Path) : List Path :=
  match fs.loadFromFile k with
  | .ok policy => policy.includes.map fun s => canon (resolveIncludePath k s)
  | .error _ => []

/-- A finite set of files with their include lists: all can be loaded, every include path passes the containment check
and leads to one of them, and `canon` gives the canonical path of every path. -/
structure FileSet (fs : FileSystem) (basePath : Path) (canon : Path → Path) (files roots : List Path) : Prop where
  normalize : ∀ p, fs.normalizePath p = .ok (canon p)
  idempotent : ∀ p, canon (canon p) = canon p
  loadable : ∀ k ∈ files, ∃ policy, fs.loadFromFile k = .ok policy ∧
    ∀ s ∈ policy.includes, validateIncludePath basePath (resolveIncludePath k s) = .ok ()
  closed : ∀ k ∈ files, ∀ q ∈ includesOf fs canon k, q ∈ files
  roots : ∀ r ∈ roots, canon r ∈ files

variable {fs : FileSystem} {basePath : Path} {canon : Path → Path} {files roots : List Path}

theorem mem_includesOf {k q : Path} :
    q ∈ includesOf fs canon k ↔
      ∃ policy, fs.loadFromFile k = .ok policy ∧ ∃ s ∈ policy.includes, canon (resolveIncludePath k s) = q := by
  unfold includesOf
  cases fs.loadFromFile k with
  | error message => simp
  | ok policy => simp

theorem FileSet.reached_iff (h : FileSet fs basePath canon files roots) {k : Path} :
    Reached fs roots k ↔ ∃ a ∈ roots.map canon, ReflTransGen (Edge (includesOf fs canon)) a k := by
  constructor
  · intro hk
    induction hk with
    | root hp hnorm =>
      cases (h.normalize _).symm.trans hnorm
      exact ⟨_, List.mem_map_of_mem hp, .refl⟩
    | step _ hload hs hnorm ih =>
      cases (h.normalize _).symm.trans hnorm
      obtain ⟨a, ha, hreach⟩ := ih
      exact ⟨a, ha, hreach.tail (mem_includesOf.2 ⟨_, hload, _, hs, rfl⟩)⟩
  · rintro ⟨a, ha, hreach⟩
    induction hreach with
    | refl =>
      obtain ⟨p, hp, rfl⟩ := List.mem_map.1 ha
      exact .root hp (h.normalize p)
    | tail _ hedge ih =>
      obtain ⟨policy, hload, s, hs, rfl⟩ := mem_includesOf.1 hedge
      exact .step ih hload hs (h.normalize _)

theorem FileSet.roots_subset (h : FileSet fs basePath canon files roots) : roots.map canon ⊆ files := by
  intro k hk
  obtain ⟨p, hp, rfl⟩ := List.mem_map.1 hk
  exact h.roots p hp

/-! ## The resolver as a search -/

def circularMessage : String := "circular include detected"

def depthMessage (level : Nat) (limit : Int) : String :=
  "include depth " ++ toString level ++ " exceeds maximum " ++ toString limit

/-- A run of the resolver and a run of the search that end the same way, the resolver having started with the paths
`visiting` marked. -/
inductive Simulates {β : Type} (visiting : List Path) :
    Except ResolveError β × ResolverState → Except (Failure Path) (List Path) → Prop
  | done (b : β) (st : ResolverState) (h : st.visiting = visiting) : Simulates visiting (.ok b, st) (.ok st.visited)
  | cycle (k : Path) (cycle : List Path) (st : ResolverState) :
    Simulates visiting (.error (.include { filePath := k, cycle, message := circularMessage }), st) (.error (.cycle k))
  | depth (k : Path) (level : Nat) (limit : Int) (st : ResolverState) :
    Simulates visiting (.error (.include { filePath := k, message := depthMessage level limit }), st)
      (.error .outOfFuel)

theorem simulates_resolveIncludes {resolve : Path → ResolverState → Except ResolveError Unit × ResolverState}
    {search : Path → List Path → Except (Failure Path) (List Path)} {visiting : List Path}
    (hresolve : ∀ p st, canon p ∈ files → st.visiting = visiting →
      Simulates visiting (resolve p st) (search (canon p) st.visited))
    {path : Path} {includes : List String}
    (hvalid : ∀ s ∈ includes, validateIncludePath basePath (resolveIncludePath path s) = .ok ())
    (hfiles : ∀ s ∈ includes, canon (resolveIncludePath path s) ∈ files)
    (node : PolicyNode) (st : ResolverState) (hst : st.visiting = visiting) :
    Simulates visiting (resolveIncludes basePath resolve path includes node st)
      (visitAll search (includes.map fun s => canon (resolveIncludePath path s)) st.visited) := by
  induction includes generalizing node st with
  | nil => exact .done node st hst
  | cons s includes ih =>
    have hone := hresolve (resolveIncludePath path s) st (hfiles s List.mem_cons_self) hst
    simp only [resolveIncludes, hvalid s List.mem_cons_self, List.map_cons, visitAll]
    generalize resolve (resolveIncludePath path s) st = result at hone
    generalize search (canon (resolveIncludePath path s)) st.visited = found at hone
    cases hone with
    | done u st' h =>
      exact ih (fun s hs => hvalid s (List.mem_cons_of_mem _ hs)) (fun s hs => hfiles s (List.mem_cons_of_mem _ hs))
        _ (st'.addIncludedBy (resolveIncludePath path s) path) h
    | cycle k cycle st' => exact .cycle k cycle st'
    | depth k level limit st' => exact .depth k level limit st'

/-- Induction on the levels left. The marked paths are the path of the search, and the paths visited its list. -/
theorem FileSet.simulates_resolveFile (h : FileSet fs basePath canon files roots) (limit : Int) (fuel : Nat)
    (path : Path) (level : Nat) (st : ResolverState) (hpath : canon path ∈ files) :
    Simulates st.visiting (resolveFile fs basePath limit fuel path level st)
      (visit (includesOf fs canon) fuel st.visiting (canon path) st.visited) := by
  induction fuel generalizing path level st with
  | zero =>
    rw [resolveFile, visit, h.normalize path]
    dsimp only
    split
    · exact .done () st rfl
    · split
      · exact .cycle _ _ st
      · exact .depth _ level limit st
  | succ fuel ih =>
    obtain ⟨policy, hload, hvalid⟩ := h.loadable _ hpath
    have hincludes : includesOf fs canon (canon path) =
        policy.includes.map fun s => canon (resolveIncludePath (canon path) s) := by
      simp [includesOf, hload]
    have hfiles : ∀ s ∈ policy.includes, canon (resolveIncludePath (canon path) s) ∈ files :=
      fun s hs => h.closed _ hpath _ (hincludes ▸ List.mem_map_of_mem hs)
    rw [resolveFile, visit, h.normalize path, hincludes]
    dsimp only
    split
    · exact .done () st rfl
    · split
      · exact .cycle _ _ st
      · rw [hload]
        dsimp only
        have hall := simulates_resolveIncludes
          (fun p st' hp (hst' : st'.visiting = canon path :: st.visiting) => hst' ▸ ih p (level + 1) st' hp) hvalid
          hfiles { policy, filePath := canon path, depth := level }
          { st with visiting := canon path :: st.visiting } rfl
        dsimp only at hall
        generalize resolveIncludes basePath _ (canon path) policy.includes _ _ = result at hall ⊢
        generalize visitAll _ _ st.visited = found at hall ⊢
        cases hall with
        | done node st' h =>
          refine .done () (st'.finish (canon path) node) ?_
          show st'.visiting.erase (canon path) = st.visiting
          rw [h, List.erase_cons_head]
        | cycle k cycle st' => exact .cycle k cycle st'
        | depth k level limit st' => exact .depth k level limit st'

theorem FileSet.simulates_resolveRoots (h : FileSet fs basePath canon files roots) (limit : Int) {paths : List Path}
    (hpaths : paths ⊆ roots) (st : ResolverState) (hst : st.visiting = []) :
    Simulates [] (resolveRoots fs basePath limit paths st)
      (visitAll (visit (includesOf fs canon) (limit + 1).toNat []) (paths.map canon) st.visited) := by
  induction paths generalizing st with
  | nil => exact .done () st hst
  | cons path paths ih =>
    obtain ⟨hpath, hpaths⟩ := List.cons_subset.1 hpaths
    have hone := h.simulates_resolveFile limit (limit + 1).toNat path 0 st (h.roots path hpath)
    rw [hst] at hone
    rw [resolveRoots, List.map_cons, visitAll]
    generalize resolveFile fs basePath limit (limit + 1).toNat path 0 st = result at hone ⊢
    generalize visit (includesOf fs canon) (limit + 1).toNat [] (canon path) st.visited = found at hone ⊢
    cases hone with
    | done u st' h => exact ih hpaths st' h
    | cycle k cycle st' => exact .cycle k cycle st'
    | depth k level limit st' => exact .depth k level limit st'

/-! ## The load order can always be computed -/

/-- An include path that is a node of the graph is canonical, so that the edges between nodes are canonical includes, and
these are ordered. -/
theorem FileSet.exists_topologicalSort (h : FileSet fs basePath canon files roots) {st : ResolverState}
    (hclosed : Closed fs roots st) (hordered : DepthFirst.Ordered (includesOf fs canon) st.visited)
    {order : List Path} (horder : order.Perm (st.nodes.map Prod.fst)) :
    ∃ sortedPaths, st.topologicalSort order = .ok sortedPaths := by
  let rank (k : Path) : Nat := if k ∈ st.visited then DepthFirst.position st.visited k + 1 else 0
  have hrank : ∀ k, ∀ r ∈ st.edges k, rank r < rank k := by
    intro k r hr
    by_cases hk : k ∈ st.visited
    · show rank r < if k ∈ st.visited then _ else 0
      rw [if_pos hk]
      by_cases hr' : r ∈ st.visited
      · show (if r ∈ st.visited then _ else 0) < _
        rw [if_pos hr']
        obtain ⟨p, hp⟩ := (hclosed.reached r hr').exists_normalize
        obtain rfl : canon p = r := Except.ok.inj ((h.normalize p).symm.trans hp)
        obtain ⟨policy, hload, hedges⟩ := hclosed.loaded k hk
        obtain ⟨s, hs, hsr⟩ := List.mem_map.1 (hedges ▸ hr)
        have hinclude : canon p ∈ includesOf fs canon k :=
          mem_includesOf.2 ⟨policy, hload, s, hs, by rw [hsr, h.idempotent]⟩
        exact Nat.succ_lt_succ (hordered.position_lt hk hinclude)
      · show (if r ∈ st.visited then _ else 0) < _
        rw [if_neg hr']
        omega
    · rw [hclosed.others k hk] at hr
      cases hr
  have hnodes : order ⊆ st.paths := fun k hk => List.mem_append_left _ (horder.subset hk)
  obtain ⟨sorted, hsort⟩ := DepthFirst.exists_sort hrank hclosed.mem_paths hnodes
  exact ⟨sorted, by rw [ResolverState.topologicalSort, hsort]⟩

/-- What `ResolveMultiple` returns, by what the search finds. -/
inductive Resolved (fs : FileSystem) (roots : List Path) :
    Except (Failure Path) (List Path) → Except ResolveError (List Path) × ResolverState → Prop
  | sorted (found sortedPaths : List Path) (st : ResolverState)
      (hnodes : ∀ k, k ∈ st.nodes.map Prod.fst ↔ Reached fs roots k) :
      Resolved fs roots (.ok found) (.ok sortedPaths, st)
  | circular (k : Path) (cycle : List Path) (st : ResolverState) :
      Resolved fs roots (.error (.cycle k))
        (.error (.include { filePath := k, cycle, message := circularMessage }), st)
  | tooDeep (k : Path) (level : Nat) (limit : Int) (st : ResolverState) :
      Resolved fs roots (.error .outOfFuel)
        (.error (.include { filePath := k, message := depthMessage level limit }), st)

theorem FileSet.resolved (h : FileSet fs basePath canon files roots) (limit : Int)
    (order : ResolverState → List Path) (horder : ∀ st, (order st).Perm (st.nodes.map Prod.fst)) :
    Resolved fs roots (DepthFirst.sort (includesOf fs canon) (limit + 1).toNat (roots.map canon))
      (resolveMultiple fs basePath limit order roots) := by
  have hsim := h.simulates_resolveRoots limit (List.Subset.refl roots) {} rfl
  change Simulates [] _ (DepthFirst.sort (includesOf fs canon) (limit + 1).toNat (roots.map canon)) at hsim
  unfold resolveMultiple
  generalize hresult : resolveRoots fs basePath limit roots {} = result at hsim ⊢
  generalize hfound : DepthFirst.sort (includesOf fs canon) (limit + 1).toNat (roots.map canon) = found at hsim ⊢
  cases hsim with
  | done u st hst =>
    obtain ⟨hclosed, hvisited⟩ := visited_iff_reached hresult
    obtain ⟨sortedPaths, hsort⟩ := h.exists_topologicalSort hclosed (DepthFirst.sort_spec hfound).1 (horder st)
    dsimp only
    rw [hsort]
    exact .sorted st.visited sortedPaths st fun k => by rw [hclosed.keys, hvisited k]
  | cycle k cycle st => exact .circular k cycle st
  | depth k level limit st => exact .tooDeep k level limit st

/-! ## Include cycles -/

def CircularInclude (fs : FileSystem) (canon : Path → Path) (roots : List Path) : Prop :=
  ∃ k, Reached fs roots k ∧ TransGen (Edge (includesOf fs canon)) k k

theorem FileSet.circularInclude_iff (h : FileSet fs basePath canon files roots) :
    CircularInclude fs canon roots ↔ ∃ a ∈ roots.map canon, Cycle.Returns (Edge (includesOf fs canon)) a := by
  constructor
  · rintro ⟨k, hk, hcycle⟩
    obtain ⟨a, ha, hreach⟩ := h.reached_iff.1 hk
    exact ⟨a, ha, k, hreach, hcycle⟩
  · rintro ⟨a, ha, k, hreach, hcycle⟩
    exact ⟨k, h.reached_iff.2 ⟨a, ha, hreach⟩, hcycle⟩

/-- With a limit of at least as many levels as there are files, a circular include is reported exactly when the roots lead
to one, and otherwise the resolution succeeds and every file they lead to is a node. -/
theorem resolveMultiple_circular_iff (h : FileSet fs basePath canon files roots) (limit : Int)
    (hlimit : (files.length : Int) ≤ limit) (order : ResolverState → List Path)
    (horder : ∀ st, (order st).Perm (st.nodes.map Prod.fst)) :
    ((∃ e st, resolveMultiple fs basePath limit order roots = (.error (.include e), st) ∧
        e.message = "circular include detected") ↔ CircularInclude fs canon roots) ∧
    (¬ CircularInclude fs canon roots → ∃ sortedPaths st,
      resolveMultiple fs basePath limit order roots = (.ok sortedPaths, st) ∧
        ∀ k, Reached fs roots k → k ∈ st.nodes.map Prod.fst) := by
  have hfuel : files.length ≤ (limit + 1).toNat := by omega
  have hcycle := DepthFirst.sort_cycle_iff h.closed h.roots_subset hfuel
  have henough := DepthFirst.sort_ne_outOfFuel h.closed h.roots_subset hfuel
  have hresolved := h.resolved limit order horder
  rw [h.circularInclude_iff, ← hcycle]
  generalize resolveMultiple fs basePath limit order roots = result at hresolved ⊢
  generalize DepthFirst.sort (includesOf fs canon) (limit + 1).toNat (roots.map canon) = found at hresolved henough ⊢
  cases hresolved with
  | sorted found sortedPaths st hnodes =>
    refine ⟨iff_of_false ?_ ?_, fun _ => ⟨sortedPaths, st, rfl, fun k hk => (hnodes k).2 hk⟩⟩
    · rintro ⟨e, st', heq, -⟩
      cases heq
    · rintro ⟨c, heq⟩
      cases heq
  | circular k cycle st =>
    exact ⟨iff_of_true ⟨_, st, rfl, rfl⟩ ⟨k, rfl⟩, fun hnone => absurd ⟨k, rfl⟩ hnone⟩
  | tooDeep k level limit st => exact absurd rfl henough

/-- Three files in one directory: the first includes the second and that the third, which includes the files listed. -/
def chainOfThree (last : List String) : FileSystem where
  evalSymlinks p := .ok p
  isDir p := p = ["policies"]
  loadFromFile p := .ok { name := "", includes :=
    if p = ["policies", "a.yaml"] then ["b.yaml"]
    else if p = ["policies", "b.yaml"] then ["c.yaml"]
    else last }

def pathsOfThree : List Path := [["policies", "a.yaml"], ["policies", "b.yaml"], ["policies", "c.yaml"]]

theorem fileSet_chainOfThree {last : List String} (hlast : last ∈ [[], ["a.yaml"]]) {roots : List Path}
    (hroots : roots ⊆ pathsOfThree) : FileSet (chainOfThree last) ["policies"] id pathsOfThree roots where
  normalize p := rfl
  idempotent p := rfl
  loadable k hk := by
    refine ⟨_, rfl, ?_⟩
    revert last k
    decide
  closed := by
    revert last
    decide
  roots r hr := hroots hr

theorem resolveMultiple_circular_three :
    ∃ e st, resolveMultiple (chainOfThree ["a.yaml"]) ["policies"] 3 (fun st => st.nodes.map Prod.fst)
        [["policies", "c.yaml"]] = (.error (.include e), st) ∧ e.message = "circular include detected" := by
  have hset : FileSet (chainOfThree ["a.yaml"]) ["policies"] id pathsOfThree [["policies", "c.yaml"]] :=
    fileSet_chainOfThree (by decide) (by decide)
  refine (resolveMultiple_circular_iff hset 3 (by decide) _ fun _ => .refl _).1.2 ?_
  refine hset.circularInclude_iff.2 ⟨["policies", "c.yaml"], by decide, ["policies", "c.yaml"], .refl, ?_⟩
  have hedge : ∀ e ∈ [("c.yaml", "a.yaml"), ("a.yaml", "b.yaml"), ("b.yaml", "c.yaml")],
      Edge (includesOf (chainOfThree ["a.yaml"]) id) ["policies", e.1] ["policies", e.2] := by
    unfold Edge
    decide
  exact .tail (.tail (.single (hedge ("c.yaml", _) (by decide))) (hedge ("a.yaml", _) (by decide)))
    (hedge ("b.yaml", _) (by decide))

/-! ## Long chains -/

def TooLong (fs : FileSystem) (canon : Path → Path) (limit : Int) (roots : List Path) : Prop :=
  ∃ r ∈ roots, ∃ n : Nat, limit < n ∧ Chain (includesOf fs canon) n (canon r)

theorem tooLong_iff {limit : Int} :
    TooLong fs canon limit roots ↔ ∃ a ∈ roots.map canon, Chain (includesOf fs canon) (limit + 1).toNat a := by
  constructor
  · rintro ⟨r, hr, n, hn, hchain⟩
    exact ⟨canon r, List.mem_map_of_mem hr, hchain.of_le (by omega)⟩
  · rintro ⟨a, ha, hchain⟩
    obtain ⟨r, hr, rfl⟩ := List.mem_map.1 ha
    exact ⟨r, hr, _, by omega, hchain⟩

/-- A chain of one include more than the limit starts at a root and ends in a file that no root or include listed before
it leads to. -/
def TooLongExposed (fs : FileSystem) (canon : Path → Path) (limit : Int) (roots : List Path) : Prop :=
  ExposedIn (includesOf fs canon) (limit + 1).toNat [] (roots.map canon)

theorem TooLongExposed.tooLong {limit : Int} (h : TooLongExposed fs canon limit roots) : TooLong fs canon limit roots :=
  tooLong_iff.2 (ExposedIn.exists_chain h)

theorem FileSet.acc_roots (h : FileSet fs basePath canon files roots) (hacyclic : ¬ CircularInclude fs canon roots) :
    ∀ a ∈ roots.map canon, Acc (flip (Edge (includesOf fs canon))) a := by
  rw [h.circularInclude_iff] at hacyclic
  intro a ha
  cases hrun : DepthFirst.sort (includesOf fs canon) files.length (roots.map canon) with
  | ok sorted => exact DepthFirst.acc_of_sort hrun ha
  | error e =>
    cases e with
    | cycle c => exact absurd (DepthFirst.returns_of_sort hrun) hacyclic
    | outOfFuel => exact absurd hrun (DepthFirst.sort_ne_outOfFuel h.closed h.roots_subset (Nat.le_refl _))

def Succeeds (fs : FileSystem) (basePath : Path) (limit : Int) (order : ResolverState → List Path) (roots : List Path) :
    Prop := ∃ sortedPaths st, resolveMultiple fs basePath limit order roots = (.ok sortedPaths, st)

theorem FileSet.succeeds_iff (h : FileSet fs basePath canon files roots)
    (hacyclic : ¬ CircularInclude fs canon roots) (limit : Int) (order : ResolverState → List Path)
    (horder : ∀ st, (order st).Perm (st.nodes.map Prod.fst)) :
    Succeeds fs basePath limit order roots ↔ ¬ TooLongExposed fs canon limit roots := by
  have hbounded := DepthFirst.bounded_sort (limit + 1).toNat (h.acc_roots hacyclic)
  have hresolved := h.resolved limit order horder
  unfold Succeeds TooLongExposed
  generalize resolveMultiple fs basePath limit order roots = result at hresolved ⊢
  rcases hbounded with ⟨hexposed, herr⟩ | ⟨hhidden, done, hok, -⟩
  · rw [herr] at hresolved
    refine iff_of_false ?_ (not_not_intro hexposed)
    rintro ⟨sortedPaths, st, heq⟩
    rw [heq] at hresolved
    cases hresolved
  · rw [hok] at hresolved
    cases hresolved with
    | sorted _ sortedPaths st _ => exact iff_of_true ⟨sortedPaths, st, rfl⟩ hhidden

/-- The same files with their include lists in another order. -/
structure Reordered (fs fs' : FileSystem) : Prop where
  links : fs'.evalSymlinks = fs.evalSymlinks
  loads : ∀ k, fs'.loadFromFile k = fs.loadFromFile k ∨ ∃ policy includes, includes.Perm policy.includes ∧
    fs.loadFromFile k = .ok policy ∧ fs'.loadFromFile k = .ok { policy with includes }

theorem Reordered.mem_includesOf_iff {fs' : FileSystem} (h : Reordered fs fs') (k q : Path) :
    q ∈ includesOf fs' canon k ↔ q ∈ includesOf fs canon k := by
  unfold includesOf
  rcases h.loads k with heq | ⟨policy, includes, hperm, hload, hload'⟩
  · rw [heq]
  · rw [hload, hload']
    exact (hperm.map _).mem_iff

variable {fs' : FileSystem} {roots' : List Path}

theorem FileSet.reorder (h : FileSet fs basePath canon files roots) (hfs : Reordered fs fs')
    (hroots : roots'.Perm roots) : FileSet fs' basePath canon files roots' where
  normalize p := by
    rw [← h.normalize p, FileSystem.normalizePath, FileSystem.normalizePath, hfs.links]
  idempotent := h.idempotent
  loadable k hk := by
    obtain ⟨policy, hload, hvalid⟩ := h.loadable k hk
    rcases hfs.loads k with heq | ⟨policy', includes, hperm, hload', hreordered⟩
    · exact ⟨policy, heq.trans hload, hvalid⟩
    · cases hload.symm.trans hload'
      exact ⟨_, hreordered, fun s hs => hvalid s (hperm.subset hs)⟩
  closed k hk q hq := h.closed k hk q ((hfs.mem_includesOf_iff k q).1 hq)
  roots r hr := h.roots r (hroots.subset hr)

theorem FileSet.circularInclude_reorder (h : FileSet fs basePath canon files roots) (hfs : Reordered fs fs')
    (hroots : roots'.Perm roots) : CircularInclude fs' canon roots' ↔ CircularInclude fs canon roots := by
  have hedge : Edge (includesOf fs' canon) = Edge (includesOf fs canon) := by
    funext k q
    exact propext (hfs.mem_includesOf_iff k q)
  rw [h.circularInclude_iff, (h.reorder hfs hroots).circularInclude_iff, hedge]
  simp only [(hroots.map canon).mem_iff]

theorem tooLong_reorder {limit : Int} (hfs : Reordered fs fs') (hroots : roots'.Perm roots) :
    TooLong fs' canon limit roots' ↔ TooLong fs canon limit roots := by
  simp only [TooLong, hroots.mem_iff, DepthFirst.chain_congr fun a b => hfs.mem_includesOf_iff a b]

/-- On files without an include cycle: in every order of the lists the resolution succeeds if and only if no chain is
longer than the limit, exactly when no chain is, or when in every order there is one that is too long and ends in a file
that nothing listed before it leads to. -/
theorem resolveMultiple_depth_iff (h : FileSet fs basePath canon files roots)
    (hacyclic : ¬ CircularInclude fs canon roots) (limit : Int) :
    (∀ fs' roots' order, Reordered fs fs' → roots'.Perm roots → (∀ st, (order st).Perm (st.nodes.map Prod.fst)) →
      (Succeeds fs' basePath limit order roots' ↔ ¬ TooLong fs canon limit roots)) ↔
    ¬ TooLong fs canon limit roots ∨
      ∀ fs' roots', Reordered fs fs' → roots'.Perm roots → TooLongExposed fs' canon limit roots' := by
  have hsucceeds : ∀ fs' roots' order, Reordered fs fs' → roots'.Perm roots →
      (∀ st, (order st).Perm (st.nodes.map Prod.fst)) →
      (Succeeds fs' basePath limit order roots' ↔ ¬ TooLongExposed fs' canon limit roots') := by
    intro fs' roots' order hfs hroots horder
    exact (h.reorder hfs hroots).succeeds_iff (fun hc => hacyclic ((h.circularInclude_reorder hfs hroots).1 hc)) limit
      order horder
  constructor
  · intro hall
    by_cases hlong : TooLong fs canon limit roots
    · refine .inr fun fs' roots' hfs hroots => ?_
      have horder : ∀ st : ResolverState, (st.nodes.map Prod.fst).Perm (st.nodes.map Prod.fst) := fun _ => .refl _
      have hfails := mt (hall fs' roots' _ hfs hroots horder).1 (not_not_intro hlong)
      rwa [hsucceeds fs' roots' _ hfs hroots horder, not_not] at hfails
    · exact .inl hlong
  · rintro (hshort | hexposed) fs' roots' order hfs hroots horder
    · rw [hsucceeds fs' roots' order hfs hroots horder]
      refine iff_of_true (fun hex => hshort ?_) hshort
      exact (tooLong_reorder hfs hroots).1 hex.tooLong
    · rw [hsucceeds fs' roots' order hfs hroots horder]
      have hex := hexposed fs' roots' hfs hroots
      exact iff_of_false (not_not_intro hex) (not_not_intro ((tooLong_reorder hfs hroots).1 hex.tooLong))

theorem not_circularInclude_three : ¬ CircularInclude (chainOfThree []) id [["policies", "a.yaml"]] := by
  have hset : FileSet (chainOfThree []) ["policies"] id pathsOfThree [["policies", "a.yaml"]] :=
    fileSet_chainOfThree (by decide) (by decide)
  rw [hset.circularInclude_iff]
  rintro ⟨a, ha, hreturns⟩
  have hsort : DepthFirst.sort (includesOf (chainOfThree []) id) 3 [["policies", "a.yaml"]] =
      .ok pathsOfThree.reverse := rfl
  exact Cycle.not_returns_of_acc (DepthFirst.acc_of_sort hsort ha) hreturns

theorem resolveMultiple_depth_three :
    Succeeds (chainOfThree []) ["policies"] 2 (fun st => st.nodes.map Prod.fst) [["policies", "a.yaml"]] := by
  have hshort : ¬ TooLong (chainOfThree []) id 2 [["policies", "a.yaml"]] := by
    rw [tooLong_iff]
    decide
  have hset : FileSet (chainOfThree []) ["policies"] id pathsOfThree [["policies", "a.yaml"]] :=
    fileSet_chainOfThree (by decide) (by decide)
  have hsame : Reordered (chainOfThree []) (chainOfThree []) := ⟨rfl, fun _ => .inl rfl⟩
  exact ((resolveMultiple_depth_iff hset not_circularInclude_three 2).2 (.inl hshort) _ _ _ hsame (.refl _)
    fun _ => .refl _).2 hshort

/-- With a limit of one include, the chain of two is not noticed when its second file is resolved first. -/
theorem depth_depends_on_root_order :
    Succeeds (chainOfThree []) ["policies"] 1 (fun st => st.nodes.map Prod.fst)
        [["policies", "b.yaml"], ["policies", "a.yaml"]] ∧
      ¬ Succeeds (chainOfThree []) ["policies"] 1 (fun st => st.nodes.map Prod.fst)
        [["policies", "a.yaml"], ["policies", "b.yaml"]] ∧
      TooLong (chainOfThree []) id 1 [["policies", "b.yaml"], ["policies", "a.yaml"]] := by
  refine ⟨⟨_, _, rfl⟩, ?_, ?_⟩
  · rintro ⟨sortedPaths, st, heq⟩
    cases heq
  · rw [tooLong_iff]
    decide

end Jupiter.Manager
