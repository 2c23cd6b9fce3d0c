/-
What the version of the registry says about the policies in it.

`updateVersion` hashes the names, versions and source files one after the other without anything between them. A
registry that nothing was ever stored in has no version.
-/
import Jupiter.Lib.Table
import Jupiter.Manager.Registry
import Mathlib.Data.List.ReduceOption

namespace Jupiter.Manager.PolicyRegistry

open Jupiter.Go Jupiter.Lib

/-! ## Runs -/

inductive Call where
  | register (policy : Option Policy)
  | registerMultiple (policies : List (Option Policy))
  | unregister (name : String)
  | replace (now : Time) (policies : Option (List Policy))
  | clear

namespace Call

/-- The call changes a registry that has no policies. -/
def accepted : Call → Bool
  | .register policy => (refusal "register" policy).isNone
  | .registerMultiple policies =>
    !policies.isEmpty && (policies.findSome? (refusal "register_multiple")).isNone
  | .unregister _ => false
  | .replace _ none => false
  | .replace _ (some policies) => !policies.any fun policy => policy.name = ""
  | .clear => true

end Call

def next (sha256 : Digest) (r : PolicyRegistry) : Call → PolicyRegistry
  | .register policy => (r.register sha256 policy).2
  | .registerMultiple policies => (r.registerMultiple sha256 policies).2
  | .unregister name => (r.unregister sha256 name).2
  | .replace now policies => (replace sha256 now r policies).2
  | .clear => r.clear sha256

def after (sha256 : Digest) (created : Time) (calls : List Call) : PolicyRegistry :=
  calls.foldl (next sha256) { loadTime := created }

def Untouched (calls : List Call) : Prop := ∀ call ∈ calls, call.accepted = false

instance (calls : List Call) : Decidable (Untouched calls) := List.decidableBAll _ _

/-! ## Contents -/

def SameContents (r r' : PolicyRegistry) : Prop :=
  ∀ name, (r.get name).map (fun p => (p.version, p.sourceFile)) = (r'.get name).map fun p => (p.version, p.sourceFile)

def contents (r : PolicyRegistry) : List (String × String × String) :=
  ((r.policies.map Prod.fst).mergeSort (· ≤ ·)).map fun name =>
    (name, ((r.get name).map fun p => (p.version, p.sourceFile)).getD ("", ""))

def spelled (contents : List (String × String × String)) : String :=
  String.join (contents.map fun x => x.1 ++ x.2.1 ++ x.2.2)

/-- Every policy is stored under its name, which is not empty, and no name twice. -/
structure Sound (r : PolicyRegistry) : Prop where
  nodup : (r.policies.map Prod.fst).Nodup
  named : ∀ x ∈ r.policies, x.2.name = x.1 ∧ x.1 ≠ ""

variable {sha256 : Digest} {r r' : PolicyRegistry}

theorem nodup_put {policies : List (String × Policy)} (h : (policies.map Prod.fst).Nodup) (policy : Policy) :
    ((put policies policy).map Prod.fst).Nodup := by
  rw [put, List.map_append, List.nodup_append]
  refine ⟨h.sublist (List.filter_sublist.map _), by simp, ?_⟩
  rintro name hname name' hname' rfl
  obtain rfl : name = policy.name := by simpa using hname'
  exact Table.lookup_eq_none.1 (Table.lookup_erase_self policy.name policies) hname

theorem Sound.put (h : Sound r) {policy : Policy} (hname : policy.name ≠ "") :
    Sound { r with policies := PolicyRegistry.put r.policies policy } where
  nodup := nodup_put h.nodup policy
  named x hx := by
    rcases List.mem_append.1 hx with hx | hx
    · exact h.named x (List.mem_of_mem_filter hx)
    · obtain rfl := List.mem_singleton.1 hx
      exact ⟨rfl, hname⟩

theorem Sound.foldl_put (policies : List Policy) (hnames : ∀ policy ∈ policies, policy.name ≠ "") (h : Sound r) :
    Sound { r with policies := policies.foldl PolicyRegistry.put r.policies } := by
  induction policies generalizing r with
  | nil => exact h
  | cons policy policies ih =>
    exact ih (fun p hp => hnames p (List.mem_cons_of_mem _ hp)) (h.put (hnames policy List.mem_cons_self))

theorem refusal_some_eq_none {operation : String} {policy : Policy} :
    refusal operation (some policy) = none ↔ policy.name ≠ "" := by
  unfold refusal
  dsimp only
  split
  · next h => simp [h]
  · next h => simp [h]

theorem Sound.filter (h : Sound r) (keep : String × Policy → Bool) :
    Sound { r with policies := r.policies.filter keep } where
  nodup := h.nodup.sublist (List.filter_sublist.map _)
  named x hx := h.named x (List.mem_of_mem_filter hx)

theorem Sound.updateVersion (h : Sound r) (sha256 : Digest) : Sound (r.updateVersion sha256) := ⟨h.nodup, h.named⟩

theorem sound_empty (version : String) (loadTime : Time) : Sound ⟨[], version, loadTime⟩ :=
  ⟨List.nodup_nil, by simp⟩

/-! ## One call -/

/-- What a call does: nothing, when it is refused, or it brings the version up to date with the new contents. -/
inductive Outcome (sha256 : Digest) (r : PolicyRegistry) : Bool → PolicyRegistry → Prop
  | kept : Outcome sha256 r false r
  | changed (accepted : Bool) (r' : PolicyRegistry) (hsound : Sound r')
      (hversion : r'.version = versionOf sha256 r'.policies) (h : accepted = false → r.policies ≠ []) : Outcome sha256 r accepted r'

theorem names_ne_of_findSome {policies : List (Option Policy)}
    (h : policies.findSome? (refusal "register_multiple") = none) :
    ∀ policy ∈ policies.reduceOption, policy.name ≠ "" := by
  intro policy hpolicy
  rw [List.findSome?_eq_none_iff] at h
  exact refusal_some_eq_none.1 (h (some policy) (List.reduceOption_mem_iff.1 hpolicy))

theorem outcome_next (sha256 : Digest) (h : Sound r) (call : Call) :
    Outcome sha256 r call.accepted (r.next sha256 call) := by
  cases call with
  | register policy =>
    cases policy with
    | none => exact .kept
    | some policy =>
      simp only [next, PolicyRegistry.register, Call.accepted]
      cases hrefusal : refusal "register" (some policy) with
      | some err => exact .kept
      | none =>
        have hput := h.put (refusal_some_eq_none.1 hrefusal)
        exact .changed _ _ (hput.updateVersion sha256) rfl (by simp)
  | registerMultiple policies =>
    simp only [next, PolicyRegistry.registerMultiple, Call.accepted]
    cases hempty : policies.isEmpty with
    | true => exact .kept
    | false =>
      cases hrefusal : policies.findSome? (refusal "register_multiple") with
      | some err => exact .kept
      | none =>
        have hput := h.foldl_put _ (names_ne_of_findSome hrefusal)
        exact .changed _ _ (hput.updateVersion sha256) rfl (by simp)
  | unregister name =>
    simp only [next, PolicyRegistry.unregister, Call.accepted]
    cases hlookup : r.policies.lookup name with
    | none => exact .kept
    | some policy =>
      refine .changed _ _ ((h.filter _).updateVersion sha256) rfl fun _ hnil => ?_
      rw [hnil] at hlookup
      cases hlookup
  | replace now policies =>
    cases policies with
    | none => exact .kept
    | some policies =>
      simp only [next, PolicyRegistry.replace, Call.accepted]
      by_cases hname : ∃ policy ∈ policies, policy.name = ""
      · rw [if_pos hname]
        have hany : (policies.any fun policy => decide (policy.name = "")) = true := by simpa using hname
        rw [hany]
        exact .kept
      · rw [if_neg hname]
        have hnames : ∀ policy ∈ policies, policy.name ≠ "" := fun policy hp he => hname ⟨policy, hp, he⟩
        have hany : (policies.any fun policy => decide (policy.name = "")) = false := by simpa using hnames
        rw [hany]
        have hsound := Sound.foldl_put policies hnames (sound_empty "" now)
        exact .changed _ _ ⟨hsound.nodup, hsound.named⟩ rfl (by simp)
  | clear => exact .changed _ _ (sound_empty _ _) rfl (by simp [Call.accepted])

/-! ## Every run -/

theorem untouched_append {calls : List Call} {call : Call} :
    Untouched (calls ++ [call]) ↔ Untouched calls ∧ call.accepted = false := by
  unfold Untouched
  rw [List.forall_mem_append, List.forall_mem_singleton]

theorem after_spec (sha256 : Digest) (created : Time) (calls : List Call) :
    Sound (after sha256 created calls) ∧
      (Untouched calls → after sha256 created calls = { loadTime := created }) ∧
      (¬ Untouched calls → (after sha256 created calls).version =
        versionOf sha256 (after sha256 created calls).policies) := by
  induction calls using List.reverseRecOn with
  | nil => exact ⟨sound_empty _ _, fun _ => rfl, fun h => absurd (by simp [Untouched]) h⟩
  | append_singleton calls call ih =>
    obtain ⟨hsound, hfresh, hversion⟩ := ih
    have hnext : after sha256 created (calls ++ [call]) = (after sha256 created calls).next sha256 call := by
      simp [after]
    have houtcome := outcome_next sha256 hsound call
    rw [hnext, untouched_append]
    generalize (after sha256 created calls).next sha256 call = r' at houtcome ⊢
    generalize call.accepted = accepted at houtcome ⊢
    cases houtcome with
    | kept => exact ⟨hsound, fun h => hfresh h.1, fun h => hversion fun hu => h ⟨hu, rfl⟩⟩
    | changed _ _ hsound' hversion' hold =>
      refine ⟨hsound', fun ⟨hu, hrefused⟩ => absurd ?_ (hold hrefused), fun _ => hversion'⟩
      rw [hfresh hu]

/-! ## The text that is hashed -/

theorem exists_of_mem_names (h : Sound r) {name : String} (hname : name ∈ r.policies.map Prod.fst) :
    ∃ policy, r.get name = some policy ∧ policy.name = name := by
  obtain ⟨x, hx, rfl⟩ := List.mem_map.1 hname
  exact ⟨x.2, (Table.lookup_eq_some_iff_mem h.nodup).2 hx, (h.named x hx).1⟩

theorem versionInput_eq (h : Sound r) : versionInput r.policies = spelled (contents r) := by
  unfold versionInput spelled contents
  rw [List.map_map]
  congr 1
  refine List.map_congr_left fun name hname => ?_
  obtain ⟨policy, hget, hpolicy⟩ := exists_of_mem_names h (List.mem_mergeSort.1 hname)
  have hlookup : r.policies.lookup name = some policy := hget
  simp [hlookup, hget, hpolicy]

theorem mergeSort_eq_of_perm {names names' : List String} (h : names.Perm names') :
    names.mergeSort (· ≤ ·) = names'.mergeSort (· ≤ ·) := by
  have hsorted : ∀ l : List String, (l.mergeSort (· ≤ ·)).Pairwise fun a b => decide (a ≤ b) = true := by
    refine fun l => List.pairwise_mergeSort ?_ ?_ l
    · intro a b c hab hbc
      simp only [decide_eq_true_eq] at hab hbc ⊢
      exact String.le_trans hab hbc
    · intro a b
      simpa using String.le_total a b
  refine List.Perm.eq_of_pairwise ?_ (hsorted names) (hsorted names') ?_
  · intro a b _ _ hab hba
    simp only [decide_eq_true_eq] at hab hba
    exact String.le_antisymm hab hba
  · exact ((List.mergeSort_perm _ _).trans h).trans (List.mergeSort_perm _ _).symm

theorem contents_eq_of_same (h : Sound r) (h' : Sound r') (hsame : SameContents r r') : contents r = contents r' := by
  have hmem : ∀ r : PolicyRegistry, Sound r → ∀ name, name ∈ r.policies.map Prod.fst ↔
      ((r.get name).map fun p => (p.version, p.sourceFile)).isSome := by
    intro r h name
    rw [Option.isSome_map]
    constructor
    · intro hname
      obtain ⟨policy, hget, -⟩ := exists_of_mem_names h hname
      rw [hget]
      rfl
    · intro hget
      obtain ⟨policy, hget⟩ := Option.isSome_iff_exists.1 hget
      exact List.mem_map_of_mem (Table.mem_of_lookup hget)
  have hperm : (r.policies.map Prod.fst).Perm (r'.policies.map Prod.fst) := by
    refine (List.perm_ext_iff_of_nodup h.nodup h'.nodup).2 fun name => ?_
    rw [hmem r h, hmem r' h', hsame name]
  have hsorted := mergeSort_eq_of_perm hperm
  unfold contents
  rw [hsorted]
  refine List.map_congr_left fun name _ => ?_
  rw [hsame name]

theorem spelled_ne_empty (h : Sound r) (hne : r.policies ≠ []) : spelled (contents r) ≠ "" := by
  have hnames : (r.policies.map Prod.fst).mergeSort (· ≤ ·) ≠ [] := by
    intro hnil
    have hlen := congrArg List.length hnil
    rw [List.length_mergeSort, List.length_map, List.length_nil, List.length_eq_zero_iff] at hlen
    exact hne hlen
  unfold spelled contents
  cases hsort : (r.policies.map Prod.fst).mergeSort (· ≤ ·) with
  | nil => exact absurd hsort hnames
  | cons name names =>
    have hmem : name ∈ r.policies.map Prod.fst := by
      rw [← List.mem_mergeSort, hsort]
      exact List.mem_cons_self
    obtain ⟨x, hx, rfl⟩ := List.mem_map.1 hmem
    rw [List.map_cons, List.map_cons, String.join_cons]
    intro hempty
    simp only [String.append_eq_empty_iff] at hempty
    exact (h.named x hx).2 hempty.1.1.1

/-! ## The version -/

def truncated (sha256 : Digest) (text : String) : String := String.ofList ((sha256 text).toList.take 16)

theorem truncated_ne_empty {sha256 : Digest} (hdigest : ∀ text, (sha256 text).toList.length = 64) (text : String) :
    truncated sha256 text ≠ "" := by
  intro hempty
  have hlen := congrArg (fun s => s.toList.length) hempty
  simp [truncated, hdigest] at hlen

theorem versionOf_eq (sha256 : Digest) (h : Sound r) :
    versionOf sha256 r.policies = truncated sha256 (spelled (contents r)) := by
  rw [versionOf, versionInput_eq h, truncated]

theorem same_of_empty (h : r.policies = []) (h' : r'.policies = []) : SameContents r r' := by
  intro name
  simp [PolicyRegistry.get, h, h']

theorem empty_of_same (h : Sound r') (hempty : r.policies = []) (hsame : SameContents r r') : r'.policies = [] := by
  by_contra hne
  obtain ⟨x, hx⟩ := List.exists_mem_of_ne_nil _ hne
  have hget : r'.get x.1 = some x.2 := (Table.lookup_eq_some_iff_mem h.nodup).2 hx
  have hnone := hsame x.1
  rw [hget] at hnone
  simp [PolicyRegistry.get, hempty] at hnone

theorem SameContents.symm (h : SameContents r r') : SameContents r' r := fun name => (h name).symm

theorem spelled_of_empty (h : r.policies = []) : spelled (contents r) = "" := by
  rw [contents, h, List.map_nil, List.mergeSort_nil]
  rfl

theorem unversioned_iff (hempty : r.policies = []) (hversion : r.version = "") (h' : Sound r')
    (hversion' : r'.version ≠ "") :
    ((r.version = r'.version ↔ SameContents r r') ↔ r'.policies ≠ []) ∧
      (r'.policies ≠ [] → spelled (contents r) ≠ spelled (contents r')) := by
  have hdiffer : r.version ≠ r'.version := fun heq => hversion' (heq ▸ hversion)
  constructor
  · rw [iff_false_left hdiffer]
    exact ⟨fun hsame hnil => hsame (same_of_empty hempty hnil), fun hne hsame => hne (empty_of_same h' hempty hsame)⟩
  · intro hne heq
    exact spelled_ne_empty h' hne (heq.symm.trans (spelled_of_empty hempty))

/-- For any two runs, with a digest whose first 16 digits tell the two hashed texts apart: the versions are equal if and
only if the contents are, exactly when it is not so that one of two empty registries was never changed and the other
was, and when different contents are not spelled alike. -/
theorem version_identifies_contents_iff (sha256 : Digest) (hdigest : ∀ text, (sha256 text).toList.length = 64)
    (created created' : Time) (calls calls' : List Call)
    (hinj : truncated sha256 (spelled (contents (after sha256 created calls))) =
        truncated sha256 (spelled (contents (after sha256 created' calls'))) →
      spelled (contents (after sha256 created calls)) = spelled (contents (after sha256 created' calls'))) :
    (((after sha256 created calls).version = (after sha256 created' calls').version ↔
        SameContents (after sha256 created calls) (after sha256 created' calls')) ↔
      ¬ ((Untouched calls ↔ ¬ Untouched calls') ∧ (after sha256 created calls).policies = [] ∧
          (after sha256 created' calls').policies = []) ∧
        (SameContents (after sha256 created calls) (after sha256 created' calls') ∨
          spelled (contents (after sha256 created calls)) ≠ spelled (contents (after sha256 created' calls')))) := by
  obtain ⟨hsound, hfresh, hversion⟩ := after_spec sha256 created calls
  obtain ⟨hsound', hfresh', hversion'⟩ := after_spec sha256 created' calls'
  rw [versionOf_eq sha256 hsound] at hversion
  rw [versionOf_eq sha256 hsound'] at hversion'
  generalize after sha256 created calls = r at *
  generalize after sha256 created' calls' = r' at *
  by_cases hu : Untouched calls
  · obtain rfl := hfresh hu
    by_cases hu' : Untouched calls'
    · obtain rfl := hfresh' hu'
      have hsame : SameContents { loadTime := created } { loadTime := created' } := same_of_empty rfl rfl
      exact iff_of_true (iff_of_true rfl hsame) ⟨fun h => h.1.1 hu hu', .inl hsame⟩
    · have hne := hversion' hu' ▸ truncated_ne_empty hdigest (spelled (contents r'))
      obtain ⟨hiff, hspelled⟩ := unversioned_iff (r := { loadTime := created }) rfl rfl hsound' hne
      rw [hiff]
      constructor
      · exact fun hpolicies => ⟨fun h => hpolicies h.2.2, .inr (hspelled hpolicies)⟩
      · exact fun h hnil => h.1 ⟨⟨fun _ => hu', fun _ => hu⟩, rfl, hnil⟩
  · by_cases hu' : Untouched calls'
    · obtain rfl := hfresh' hu'
      have hne := hversion hu ▸ truncated_ne_empty hdigest (spelled (contents r))
      obtain ⟨hiff, hspelled⟩ := unversioned_iff (r := { loadTime := created' }) rfl rfl hsound hne
      rw [eq_comm, show SameContents r { loadTime := created' } ↔ SameContents { loadTime := created' } r from
        ⟨.symm, .symm⟩, hiff]
      constructor
      · exact fun hpolicies => ⟨fun h => hpolicies h.2.1, .inr (hspelled hpolicies).symm⟩
      · exact fun h hnil => h.1 ⟨⟨fun hc => absurd hc hu, fun hc => absurd hu' hc⟩, hnil, rfl⟩
    · rw [hversion hu, hversion' hu']
      constructor
      · intro hiff
        refine ⟨fun h => hu (h.1.2 hu'), ?_⟩
        by_cases hsame : SameContents r r'
        · exact .inl hsame
        · exact .inr fun heq => hsame (hiff.1 (by rw [heq]))
      · rintro ⟨-, hsame | hdiffer⟩
        · exact iff_of_true (by rw [contents_eq_of_same hsound hsound' hsame]) hsame
        · refine iff_of_false (fun heq => hdiffer (hinj heq)) fun hsame => hdiffer ?_
          rw [contents_eq_of_same hsound hsound' hsame]

def sampleDigest : Digest := fun text =>
  if text = "a1.0f" then "a5b33926c00ab041db71481ea3e73290c421229b877b83aae433c5c8e4ac1e26"
  else "1419225b24b5c287a0f16ed9e66f00da334d1f0cabc80e673b631610ba473651"

theorem length_sampleDigest (text : String) : (sampleDigest text).toList.length = 64 := by
  unfold sampleDigest
  split <;> decide +kernel

def registered (name version : String) : List Call := [.register (some { name, version, sourceFile := "f" })]

theorem contents_registered {name version : String} (hname : name ≠ "") :
    contents (after sampleDigest 0 (registered name version)) = [(name, version, "f")] := by
  simp [registered, after, next, register, refusal, hname, contents, updateVersion, put, get, Table.erase,
    List.mergeSort_singleton]

theorem version_identifies_registered :
    (after sampleDigest 0 (registered "a" "1.0")).version = (after sampleDigest 0 (registered "b" "1.0")).version ↔
      SameContents (after sampleDigest 0 (registered "a" "1.0")) (after sampleDigest 0 (registered "b" "1.0")) := by
  have ha : contents (after sampleDigest 0 (registered "a" "1.0")) = _ := contents_registered (by decide)
  have hb : contents (after sampleDigest 0 (registered "b" "1.0")) = _ := contents_registered (by decide)
  refine (version_identifies_contents_iff sampleDigest length_sampleDigest 0 0 _ _ ?_).2 ⟨?_, .inr ?_⟩
  · rw [ha, hb]
    decide +kernel
  · rintro ⟨hone, -, -⟩
    exact absurd hone (by decide)
  · rw [ha, hb]
    decide

/-- A policy `a` of version `b1.0` has the version of a policy `ab` of version `1.0`; and a registry that was emptied has
another one than a new registry. -/
theorem version_confuses :
    ((after sampleDigest 0 (registered "a" "b1.0")).version = (after sampleDigest 0 (registered "ab" "1.0")).version ∧
      ¬ SameContents (after sampleDigest 0 (registered "a" "b1.0")) (after sampleDigest 0 (registered "ab" "1.0"))) ∧
    (after sampleDigest 0 []).version ≠ (after sampleDigest 0 [.clear]).version ∧
      SameContents (after sampleDigest 0 []) (after sampleDigest 0 [.clear]) := by
  have hversion : ∀ calls, ¬ Untouched calls → (after sampleDigest 0 calls).version =
      truncated sampleDigest (spelled (contents (after sampleDigest 0 calls))) := by
    intro calls hcalls
    obtain ⟨hsound, -, hversion⟩ := after_spec sampleDigest 0 calls
    rw [hversion hcalls, versionOf_eq sampleDigest hsound]
  refine ⟨⟨?_, ?_⟩, ?_, same_of_empty rfl rfl⟩
  · have hspelled : spelled [("a", "b1.0", "f")] = spelled [("ab", "1.0", "f")] := by decide
    rw [hversion _ (by decide), hversion _ (by decide), contents_registered (by decide), contents_registered (by decide),
      hspelled]
  · intro hsame
    have hcontents := contents_eq_of_same (after_spec _ _ _).1 (after_spec _ _ _).1 hsame
    rw [contents_registered (by decide), contents_registered (by decide)] at hcontents
    exact absurd hcontents (by decide)
  · rw [hversion [.clear] (by decide)]
    exact (truncated_ne_empty length_sampleDigest _).symm

end Jupiter.Manager.PolicyRegistry
