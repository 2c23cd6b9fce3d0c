/-
`pkg/mpl/parser/composition.go`: composing a policy from a main file and its includes.

The parser is a parameter, and a path is made absolute before it is looked at. `ComposeFromIncludes` loads the main file
and the files on the list it is given. It does not look at the include lists inside them.
-/
import Jupiter.Lib.Table
import Jupiter.Manager.Resolver
import Mathlib.Data.List.Dedup

namespace Jupiter.Mpl

open Jupiter.Go Jupiter.Lib Relation
open Jupiter.Manager (Path)

/-- "Circular import detected: …", an error of the parser, or "failed to load include …: …". -/
inductive ComposeError where
  | circular (cycle : List Path)
  | parse (message : String)
  | include (includePath : String) (err : ComposeError)

def ComposeError.isCircular : ComposeError → Bool
  | .circular _ => true
  | .parse _ => false
  | .include _ err => err.isCircular

/-- Visited files, and the current import stack. -/
structure Composer where
  visited : List Path := []
  stack : List Path := []

namespace Composer

variable (parse : Path → Except String Manager.Policy)

def loadPolicyWithTracking (c : Composer) (absPath : Path) : Except ComposeError (Option Manager.Policy) × Composer :=
  if c.stack.contains absPath then (.error (.circular (c.stack ++ [absPath])), c)
  else if c.visited.contains absPath then (.ok none, c)
  else
    let c : Composer := { visited := absPath :: c.visited, stack := c.stack ++ [absPath] }
    match parse absPath with
    | .error message => (.error (.parse message), c)
    | .ok policy => (.ok (some policy), { c with stack := c.stack.dropLast })

/-- `mergePolicy`: the variables of the included policy override, its rules come after. -/
def mergePolicy (main : Manager.Policy) : Option Manager.Policy → Manager.Policy
  | none => main
  | some included =>
    { main with
      variableMap := included.variableMap.foldl (fun map x => Table.upsert x.1 (fun _ => x.2) map) main.variableMap
      rules := main.rules ++ included.rules }

/-- The loop over the includes, relative ones being taken from the directory of the main file. -/
def processIncludes (baseDir : Path) : List String → Manager.Policy → Composer → Except ComposeError Manager.Policy
  | [], policy, _ => .ok policy
  | includePath :: includes, policy, c =>
    match c.loadPolicyWithTracking parse (Path.absolute baseDir includePath) with
    | (.error err, _) => .error (.include includePath err)
    | (.ok included, c) => processIncludes baseDir includes (mergePolicy policy included) c

def composeFromIncludes (cwd : Path) (mainPath : String) (includes : List String) : Except ComposeError Manager.Policy :=
  match ({} : Composer).loadPolicyWithTracking parse (Path.absolute cwd mainPath) with
  | (.error err, _) => .error err
  | (.ok none, _) => .error (.parse "")  -- never: nothing has been visited
  | (.ok (some policy), c) => processIncludes parse (Path.absoluteDir cwd mainPath) includes policy c

/-! ## The files that are loaded -/

/-- The files of a list that are loaded when `visited` have been: those not visited, each at its first place. -/
def fresh (visited : List Path) : List Path → List Path
  | [] => []
  | f :: fs => if visited.contains f then fresh visited fs else f :: fresh (f :: visited) fs

theorem mem_fresh {f : Path} {fs : List Path} : ∀ {visited : List Path}, f ∈ fresh visited fs ↔ f ∈ fs ∧ f ∉ visited := by
  induction fs with
  | nil => simp [fresh]
  | cons g fs ih =>
    intro visited
    simp only [fresh, List.contains_iff_mem]
    by_cases hg : g ∈ visited
    · rw [if_pos hg, ih, List.mem_cons]
      constructor
      · rintro ⟨hf, hfv⟩
        exact ⟨.inr hf, hfv⟩
      · rintro ⟨rfl | hf, hfv⟩
        · exact absurd hg hfv
        · exact ⟨hf, hfv⟩
    · rw [if_neg hg, List.mem_cons, ih, List.mem_cons, List.mem_cons]
      by_cases hfg : f = g
      · subst hfg
        simp [hg]
      · simp [hfg]

theorem nodup_fresh (fs : List Path) : ∀ visited : List Path, (fresh visited fs).Nodup := by
  induction fs with
  | nil => exact fun _ => List.nodup_nil
  | cons g fs ih =>
    intro visited
    unfold fresh
    split
    · exact ih visited
    · exact List.nodup_cons.2 ⟨fun hg => (mem_fresh.1 hg).2 List.mem_cons_self, ih _⟩

def rulesOf (f : Path) : List Rule :=
  match parse f with
  | .ok policy => policy.rules
  | .error _ => []

variable {parse}

theorem loadPolicyWithTracking_fresh {c : Composer} (hstack : c.stack = []) {f : Path} (hf : f ∉ c.visited)
    {policy : Manager.Policy} (hparse : parse f = .ok policy) :
    c.loadPolicyWithTracking parse f = (.ok (some policy), { visited := f :: c.visited, stack := [] }) := by
  simp [loadPolicyWithTracking, hstack, hf, hparse]

theorem loadPolicyWithTracking_visited {c : Composer} (hstack : c.stack = []) {f : Path} (hf : f ∈ c.visited) :
    c.loadPolicyWithTracking parse f = (.ok none, c) := by
  simp [loadPolicyWithTracking, hstack, hf]

/-- The stack is empty whenever a file is looked up on it, so the loop over the includes does not fail when they can
be parsed. -/
theorem processIncludes_ok {baseDir : Path} : ∀ (includes : List String) (policy : Manager.Policy) (c : Composer),
    c.stack = [] → (∀ f ∈ includes.map (Path.absolute baseDir), ∃ p, parse f = .ok p) →
    ∃ composed, processIncludes parse baseDir includes policy c = .ok composed ∧
      composed.rules = policy.rules ++ (fresh c.visited (includes.map (Path.absolute baseDir))).flatMap (rulesOf parse)
  | [], policy, c, _, _ => ⟨policy, rfl, (List.append_nil _).symm⟩
  | includePath :: includes, policy, c, hstack, hparsed => by
    rw [List.map_cons, List.forall_mem_cons] at hparsed
    obtain ⟨⟨included, hparse⟩, hparsed⟩ := hparsed
    unfold processIncludes
    by_cases hv : Path.absolute baseDir includePath ∈ c.visited
    · obtain ⟨composed, hrun, hrules⟩ := processIncludes_ok includes policy c hstack hparsed
      refine ⟨composed, ?_, ?_⟩
      · rw [loadPolicyWithTracking_visited hstack hv]
        exact hrun
      · rw [hrules, List.map_cons, fresh, if_pos (List.contains_iff_mem.2 hv)]
    · obtain ⟨composed, hrun, hrules⟩ := processIncludes_ok includes (mergePolicy policy (some included))
        { visited := Path.absolute baseDir includePath :: c.visited, stack := [] } rfl hparsed
      refine ⟨composed, ?_, ?_⟩
      · rw [loadPolicyWithTracking_fresh hstack hv hparse]
        exact hrun
      · have hincluded : rulesOf parse (Path.absolute baseDir includePath) = included.rules := by
          simp only [rulesOf, hparse]
        rw [hrules, List.map_cons, fresh, if_neg (mt List.contains_iff_mem.1 hv), List.flatMap_cons, hincluded]
        exact List.append_assoc ..

/-! ## Everything that is included -/

section Includes

variable (parse) (cwd : Path) (mainPath : String) (includes : List String)

def directIncludes : List Path := includes.map (Path.absolute (Path.absoluteDir cwd mainPath))

/-- The files that a file includes: the main file those on its include list, any other file those that its own text
lists. -/
def includedBy (f : Path) : List Path :=
  if f = Path.absolute cwd mainPath then directIncludes cwd mainPath includes
  else
    match parse f with
    | .ok policy => policy.includes.map (Path.absolute f.dir)
    | .error _ => []

def Includes : Path → Path → Prop := DepthFirst.Edge (includedBy parse cwd mainPath includes)

/-- A finite set of policy files with their include lists. -/
structure PolicyFiles (files : List Path) : Prop where
  main : Path.absolute cwd mainPath ∈ files
  parsed : ∀ f ∈ files, ∃ policy, parse f = .ok policy
  closed : ∀ f ∈ files, ∀ g ∈ includedBy parse cwd mainPath includes f, g ∈ files

/-- What composing is for: a circular import is reported exactly when there is one, and otherwise the rules are those of
the main file and then those of all files it includes, also through others, each file once. -/
def ComposesAll : Prop :=
  ((∃ err, composeFromIncludes parse cwd mainPath includes = .error err ∧ err.isCircular = true) ↔
    Cycle.Returns (Includes parse cwd mainPath includes) (Path.absolute cwd mainPath)) ∧
  (¬ Cycle.Returns (Includes parse cwd mainPath includes) (Path.absolute cwd mainPath) →
    ∃ policy, ∃ l : List Path, composeFromIncludes parse cwd mainPath includes = .ok policy ∧ l.Nodup ∧
      (∀ f, f ∈ l ↔ TransGen (Includes parse cwd mainPath includes) (Path.absolute cwd mainPath) f) ∧
      policy.rules = rulesOf parse (Path.absolute cwd mainPath) ++ l.flatMap (rulesOf parse))

end Includes

variable {cwd : Path} {mainPath : String} {includes : List String} {files : List Path}

theorem includes_main_iff {f : Path} :
    Includes parse cwd mainPath includes (Path.absolute cwd mainPath) f ↔ f ∈ directIncludes cwd mainPath includes := by
  unfold Includes DepthFirst.Edge includedBy
  rw [if_pos rfl]

theorem PolicyFiles.reached (h : PolicyFiles parse cwd mainPath includes files) {f : Path}
    (hf : TransGen (Includes parse cwd mainPath includes) (Path.absolute cwd mainPath) f) : f ∈ files := by
  induction hf with
  | single hstep => exact h.closed _ h.main _ hstep
  | tail _ hstep ih => exact h.closed _ ih _ hstep

theorem composeFromIncludes_ok (h : PolicyFiles parse cwd mainPath includes files) :
    ∃ policy, composeFromIncludes parse cwd mainPath includes = .ok policy ∧
      policy.rules = rulesOf parse (Path.absolute cwd mainPath) ++
        (fresh [Path.absolute cwd mainPath] (directIncludes cwd mainPath includes)).flatMap (rulesOf parse) := by
  obtain ⟨main, hmain⟩ := h.parsed _ h.main
  have hparsed : ∀ f ∈ directIncludes cwd mainPath includes, ∃ p, parse f = .ok p := by
    intro f hf
    exact h.parsed f (h.closed _ h.main f (includes_main_iff.2 hf))
  obtain ⟨policy, hrun, hrules⟩ := processIncludes_ok includes main
    { visited := [Path.absolute cwd mainPath], stack := [] } rfl hparsed
  refine ⟨policy, ?_, ?_⟩
  · unfold composeFromIncludes
    rw [loadPolicyWithTracking_fresh rfl List.not_mem_nil hmain]
    exact hrun
  · rw [hrules]
    simp only [rulesOf, hmain, directIncludes]

theorem composeFromIncludes_not_circular (h : PolicyFiles parse cwd mainPath includes files) :
    ¬ ∃ err, composeFromIncludes parse cwd mainPath includes = .error err ∧ err.isCircular = true := by
  rintro ⟨err, herr, -⟩
  obtain ⟨policy, hok, -⟩ := composeFromIncludes_ok h
  cases herr.symm.trans hok

theorem ComposesAll.not_returns (h : PolicyFiles parse cwd mainPath includes files)
    (hall : ComposesAll parse cwd mainPath includes) :
    ¬ Cycle.Returns (Includes parse cwd mainPath includes) (Path.absolute cwd mainPath) :=
  fun hreturns => composeFromIncludes_not_circular h (hall.1.2 hreturns)

theorem no_rules_of_flatMap_eq {rules : Path → List Rule} {d l : List Path} (hd : d.Nodup) (hl : l.Nodup)
    (hsub : ∀ f ∈ d, f ∈ l) (heq : l.flatMap rules = d.flatMap rules) {f : Path} (hf : f ∈ l) (hfd : f ∉ d) :
    rules f = [] := by
  have hperm : l.Perm (d ++ l.filter (· ∉ d)) := by
    refine (List.perm_ext_iff_of_nodup hl (hd.append (hl.filter _) ?_)).2 fun g => ?_
    · intro g hg hg'
      simp [hg] at hg'
    · by_cases hg : g ∈ d
      · simp [hg, hsub g hg]
      · simp [hg]
  have hlength := (hperm.flatMap_right rules).length_eq
  rw [heq, List.flatMap_append, List.length_append] at hlength
  have hnil : (l.filter (· ∉ d)).flatMap rules = [] := List.eq_nil_of_length_eq_zero (by omega)
  exact List.flatMap_eq_nil_iff.1 hnil f (by simp [hf, hfd])

theorem ComposesAll.no_rules (h : PolicyFiles parse cwd mainPath includes files)
    (hall : ComposesAll parse cwd mainPath includes) {f : Path}
    (hf : TransGen (Includes parse cwd mainPath includes) (Path.absolute cwd mainPath) f)
    (hdirect : f ∉ directIncludes cwd mainPath includes) : rulesOf parse f = [] := by
  obtain ⟨policy, l, hok, hnodup, hl, hrules⟩ := hall.2 (hall.not_returns h)
  obtain ⟨policy', hok', hrules'⟩ := composeFromIncludes_ok h
  cases hok.symm.trans hok'
  refine no_rules_of_flatMap_eq (nodup_fresh _ _) hnodup ?_ (List.append_cancel_left (hrules.symm.trans hrules'))
    ((hl f).2 hf) (fun hfresh => hdirect (mem_fresh.1 hfresh).1)
  intro g hg
  exact (hl g).2 (.single (includes_main_iff.2 (mem_fresh.1 hg).1))

/-- Composing includes everything once exactly when the include lists lead from the main file back to no file, and
a file that is only on the list of another included file has no rules. -/
theorem composeFromIncludes_composesAll_iff (h : PolicyFiles parse cwd mainPath includes files) :
    ComposesAll parse cwd mainPath includes ↔
      ¬ Cycle.Returns (Includes parse cwd mainPath includes) (Path.absolute cwd mainPath) ∧
      ∀ f, TransGen (Includes parse cwd mainPath includes) (Path.absolute cwd mainPath) f →
        f ∉ directIncludes cwd mainPath includes → rulesOf parse f = [] := by
  classical
  constructor
  · intro hall
    exact ⟨hall.not_returns h, fun f hf hdirect => hall.no_rules h hf hdirect⟩
  · rintro ⟨hreturns, hrules⟩
    refine ⟨⟨fun herr => absurd herr (composeFromIncludes_not_circular h), fun hr => absurd hr hreturns⟩, fun _ => ?_⟩
    obtain ⟨policy, hok, hpolicy⟩ := composeFromIncludes_ok h
    have hfresh : ∀ f, f ∈ fresh [Path.absolute cwd mainPath] (directIncludes cwd mainPath includes) ↔
        f ∈ directIncludes cwd mainPath includes := by
      intro f
      refine mem_fresh.trans (and_iff_left_of_imp fun hf hmain => ?_)
      cases List.mem_singleton.1 hmain
      exact hreturns ⟨_, .refl, .single (includes_main_iff.2 hf)⟩
    -- the files on the main file's list, and after them those that only others list
    refine ⟨policy, fresh [Path.absolute cwd mainPath] (directIncludes cwd mainPath includes) ++
      files.dedup.filter fun f => TransGen (Includes parse cwd mainPath includes) (Path.absolute cwd mainPath) f ∧
        f ∉ directIncludes cwd mainPath includes, hok, ?_, fun f => ?_, ?_⟩
    · refine (nodup_fresh _ _).append (files.nodup_dedup.filter _) fun f hf hf' => ?_
      exact (of_decide_eq_true (List.mem_filter.1 hf').2).2 ((hfresh f).1 hf)
    · rw [List.mem_append, hfresh, List.mem_filter, List.mem_dedup, decide_eq_true_iff]
      constructor
      · rintro (hf | ⟨-, hf, -⟩)
        · exact .single (includes_main_iff.2 hf)
        · exact hf
      · intro hf
        by_cases hdirect : f ∈ directIncludes cwd mainPath includes
        · exact .inl hdirect
        · exact .inr ⟨h.reached hf, hf, hdirect⟩
    · rw [hpolicy, List.flatMap_append]
      have hnil : (files.dedup.filter fun f =>
          TransGen (Includes parse cwd mainPath includes) (Path.absolute cwd mainPath) f ∧
            f ∉ directIncludes cwd mainPath includes).flatMap (rulesOf parse) = [] := by
        refine List.flatMap_eq_nil_iff.2 fun f hf => ?_
        have hf := of_decide_eq_true (List.mem_filter.1 hf).2
        exact hrules f hf.1 hf.2
      rw [hnil, List.append_nil]

def sampleFiles (f : Path) : Except String Manager.Policy :=
  if f = ["p", "base.yaml"] then .ok { name := "base", includes := ["more.yaml"] }
  else if f = ["p", "more.yaml"] then .ok { name := "more", rules := [{ name := "limit" }] }
  else .ok { name := "main" }

theorem policyFiles_sample (includes : List String)
    (hincludes : ∀ f ∈ directIncludes ["p"] "main.yaml" includes,
      f ∈ [["p", "main.yaml"], ["p", "base.yaml"], ["p", "more.yaml"]]) :
    PolicyFiles sampleFiles ["p"] "main.yaml" includes [["p", "main.yaml"], ["p", "base.yaml"], ["p", "more.yaml"]] where
  main := by decide
  parsed f _ := by
    unfold sampleFiles
    split
    · exact ⟨_, rfl⟩
    · split <;> exact ⟨_, rfl⟩
  closed f hf g hg := by
    simp only [List.mem_cons, List.not_mem_nil, or_false] at hf
    rcases hf with rfl | rfl | rfl
    · exact hincludes g (includes_main_iff.1 hg)
    · cases (List.mem_singleton.1 hg : g = ["p", "more.yaml"])
      decide
    · cases hg

theorem composeFromIncludes_composes_shared :
    ComposesAll sampleFiles ["p"] "main.yaml" ["base.yaml", "more.yaml"] := by
  have hsort : DepthFirst.sort (includedBy sampleFiles ["p"] "main.yaml" ["base.yaml", "more.yaml"]) 3
      [["p", "main.yaml"]] = .ok [["p", "more.yaml"], ["p", "base.yaml"], ["p", "main.yaml"]] := rfl
  have hfiles := policyFiles_sample ["base.yaml", "more.yaml"] (by decide)
  have hreturns := Cycle.not_returns_of_acc (DepthFirst.acc_of_sort hsort List.mem_cons_self)
  refine (composeFromIncludes_composesAll_iff hfiles).2 ⟨hreturns, fun f hf hdirect => ?_⟩
  have hmem := hfiles.reached hf
  simp only [List.mem_cons, List.not_mem_nil, or_false] at hmem
  rcases hmem with rfl | rfl | rfl
  · exact absurd ⟨_, .refl, hf⟩ hreturns
  · exact absurd (by decide) hdirect
  · exact absurd (by decide) hdirect

/-- The rule of a file that only an included file lists is lost, and a main file that includes itself is not reported. -/
theorem composeFromIncludes_misses_nested_and_circular :
    ¬ ComposesAll sampleFiles ["p"] "main.yaml" ["base.yaml"] ∧
    ¬ ComposesAll sampleFiles ["p"] "main.yaml" ["main.yaml"] := by
  constructor
  · intro hall
    have hbase : Includes sampleFiles ["p"] "main.yaml" ["base.yaml"] ["p", "main.yaml"] ["p", "base.yaml"] :=
      includes_main_iff.2 (by decide)
    have hmore : Includes sampleFiles ["p"] "main.yaml" ["base.yaml"] ["p", "base.yaml"] ["p", "more.yaml"] :=
      List.mem_singleton.2 rfl
    have hnone := hall.no_rules (policyFiles_sample ["base.yaml"] (by decide)) (.tail (.single hbase) hmore) (by decide)
    cases (hnone : [({ name := "limit" } : Rule)] = [])
  · intro hall
    have hself : Includes sampleFiles ["p"] "main.yaml" ["main.yaml"] ["p", "main.yaml"] ["p", "main.yaml"] :=
      includes_main_iff.2 (by decide)
    exact hall.not_returns (policyFiles_sample ["main.yaml"] (by decide)) ⟨_, .refl, .single hself⟩

end Composer

end Jupiter.Mpl
