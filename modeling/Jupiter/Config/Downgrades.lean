/-
The check of the model downgrades finds a cycle exactly when there is one.

`validateEnforcement` follows the map from each of its models with one visited set for all of them. Every model in the
set leads to the model at hand, so a model met twice lies on a cycle; and a model from which the map comes to an
end leaves the set as it was, so the next start finds it empty again.
-/
import Jupiter.Config.Validate
import Jupiter.Go.Value
import Jupiter.Lib.Cycle

namespace Jupiter.Config

open Jupiter.Go Jupiter.Lib Relation

def Downgrades (downgrades : List (String × String)) (model next : String) : Prop :=
  downgrades.lookup model = some next

instance (downgrades : List (String × String)) (model next : String) : Decidable (Downgrades downgrades model next) :=
  inferInstanceAs (Decidable (_ = _))

variable (lib : Stdlib)

/-- The visited set after each start model, up to the one that ends the loop. -/
def visitedAfterStarts (downgrades : List (String × String)) : List String → List String → List (List String)
  | [], _ => []
  | model :: models, visited =>
    match checkCircularDowngrade lib downgrades model visited with
    | (some _, visited) => [visited]
    | (none, visited) => visited :: visitedAfterStarts downgrades models visited

variable {lib} {downgrades : List (String × String)} {model : String} {visited : List String}

/-- What following the map from a model gives: the set as it was, when the way ends, or an error that names a model on
a cycle the way leads to. -/
inductive Followed (lib : Stdlib) (downgrades : List (String × String)) (model : String) (visited : List String) :
    Option String × List String → Prop
  | ends (h : Acc (flip (Downgrades downgrades)) model) : Followed lib downgrades model visited (none, visited)
  | circular (c : String) (left : List String) (hreach : ReflTransGen (Downgrades downgrades) model c)
      (hcycle : TransGen (Downgrades downgrades) c c) :
      Followed lib downgrades model visited (some ("circular downgrade detected for model " ++ lib.quote c), left)

theorem filter_ne_cons (h : model ∉ visited) : (model :: visited).filter (· ≠ model) = visited := by
  rw [List.filter_cons_of_neg (by simp), List.filter_eq_self]
  intro v hv
  have hne : v ≠ model := fun hvm => h (hvm ▸ hv)
  simpa using hne

theorem path_cons {next : String} (hnext : Downgrades downgrades model next)
    (hpath : ∀ v ∈ visited, TransGen (Downgrades downgrades) v model) :
    ∀ v ∈ model :: visited, TransGen (Downgrades downgrades) v next := by
  intro v hv
  rcases List.mem_cons.1 hv with rfl | hv
  · exact .single hnext
  · exact (hpath v hv).tail hnext

theorem checkCircularDowngrade_followed (hpath : ∀ v ∈ visited, TransGen (Downgrades downgrades) v model) :
    Followed lib downgrades model visited (checkCircularDowngrade lib downgrades model visited) := by
  fun_induction checkCircularDowngrade lib downgrades model visited with
  | case1 model visited hmem => exact .circular model visited .refl (hpath model hmem)
  | case2 model visited hnew next hnext err left herr ih =>
    have hrest := ih (path_cons hnext hpath)
    rw [herr] at hrest
    cases hrest with
    | circular c left hreach hcycle => exact .circular c left (hreach.head hnext) hcycle
  | case3 model visited hnew next hnext left hok ih =>
    have hrest := ih (path_cons hnext hpath)
    rw [hok] at hrest
    cases hrest with
    | ends hacc =>
      rw [filter_ne_cons hnew]
      refine .ends ⟨model, fun next' hnext' => ?_⟩
      obtain rfl : next = next' := Option.some.inj (hnext.symm.trans hnext')
      exact hacc
  | case4 model visited hnew hnone =>
    rw [filter_ne_cons hnew]
    refine .ends ⟨model, fun next hnext => ?_⟩
    cases hnone.symm.trans hnext

/-! ## The loop over the start models -/

theorem checkCircularDowngrade_start (lib : Stdlib) (downgrades : List (String × String)) (model : String) :
    Followed lib downgrades model [] (checkCircularDowngrade lib downgrades model []) :=
  checkCircularDowngrade_followed (by simp)

theorem circularDowngrade_isSome_iff (models : List String) :
    (circularDowngrade lib downgrades models []).isSome ↔ ∃ m ∈ models, Cycle.Returns (Downgrades downgrades) m := by
  induction models with
  | nil => simp [circularDowngrade]
  | cons model models ih =>
    have hstart := checkCircularDowngrade_start lib downgrades model
    rw [circularDowngrade]
    generalize checkCircularDowngrade lib downgrades model [] = result at hstart
    cases hstart with
    | ends hacc => simpa [Cycle.not_returns_of_acc hacc] using ih
    | circular c left hreach hcycle =>
      exact iff_of_true rfl ⟨model, List.mem_cons_self, c, hreach, hcycle⟩

theorem visitedAfterStarts_of_not_returns (models : List String)
    (h : ∀ m, ¬ Cycle.Returns (Downgrades downgrades) m) :
    visitedAfterStarts lib downgrades models [] = models.map fun _ => [] := by
  induction models with
  | nil => rfl
  | cons model models ih =>
    have hstart := checkCircularDowngrade_start lib downgrades model
    rw [visitedAfterStarts]
    generalize checkCircularDowngrade lib downgrades model [] = result at hstart
    cases hstart with
    | ends hacc => rw [List.map_cons, ← ih]
    | circular c left hreach hcycle => exact absurd ⟨c, hreach, hcycle⟩ (h model)

theorem exists_key_returns_iff :
    (∃ m ∈ downgrades.map Prod.fst, Cycle.Returns (Downgrades downgrades) m) ↔
      ∃ m, Cycle.Returns (Downgrades downgrades) m := by
  constructor
  · rintro ⟨m, -, hm⟩
    exact ⟨m, hm⟩
  · rintro ⟨m, hm⟩
    obtain ⟨next, hnext⟩ := hm.exists_step
    exact ⟨m, List.mem_map.2 ⟨(m, next), Table.mem_of_lookup hnext, rfl⟩, hm⟩

def reportsDowngrades (errs : List FieldError) : Bool :=
  errs.any fun e => e.field == "limits.enforcement.model_downgrades"

theorem reportsDowngrades_validateEnforcement (cfg : EnforcementConfig) :
    reportsDowngrades (validateEnforcement lib cfg) =
      (circularDowngrade lib cfg.modelDowngrades (cfg.modelDowngrades.map Prod.fst) []).isSome := by
  have hrefuse : ∀ bad field message, field ≠ "limits.enforcement.model_downgrades" →
      (refuse bad field message).any (fun e => e.field == "limits.enforcement.model_downgrades") = false := by
    intro bad field message hfield
    unfold refuse
    split
    · simpa using hfield
    · rfl
  unfold reportsDowngrades validateEnforcement
  simp only [List.any_append, hrefuse _ _ _ (show "limits.enforcement.action" ≠ _ by decide),
    hrefuse _ _ _ (show "limits.enforcement.queue_depth" ≠ _ by decide),
    hrefuse _ _ _ (show "limits.enforcement.queue_timeout" ≠ _ by decide), Bool.false_or]
  cases circularDowngrade lib cfg.modelDowngrades (cfg.modelDowngrades.map Prod.fst) [] with
  | none => rfl
  | some err => simp

/-- Whatever the order in which the map is read: the downgrades are reported exactly when following the map from some
model comes back to a model passed, and otherwise every start leaves the visited set empty. -/
theorem validateEnforcement_reports_iff_returns (cfg : EnforcementConfig)
    (hmap : (Table.keys cfg.modelDowngrades).Nodup) (range : MapRange cfg.modelDowngrades) :
    (reportsDowngrades (validateEnforcement lib { cfg with modelDowngrades := range.order }) ↔
      ∃ m, Cycle.Returns (Downgrades cfg.modelDowngrades) m) ∧
    ((∀ m, ¬ Cycle.Returns (Downgrades cfg.modelDowngrades) m) →
      visitedAfterStarts lib range.order (Table.keys range.order) [] = range.order.map fun _ => []) := by
  have hsame : Downgrades range.order = Downgrades cfg.modelDowngrades := by
    funext model next
    rw [Downgrades, Downgrades, Table.lookup_of_perm hmap range.perm]
  rw [reportsDowngrades_validateEnforcement, circularDowngrade_isSome_iff, exists_key_returns_iff, hsame]
  refine ⟨Iff.rfl, fun h => ?_⟩
  rw [← hsame] at h
  rw [visitedAfterStarts_of_not_returns _ h, Table.keys, List.map_map]
  rfl

def mutualDowngrades : List (String × String) := [("gpt-4", "gpt-4o"), ("o1", "gpt-4"), ("gpt-4o", "gpt-4")]

theorem validateEnforcement_reports_mutual :
    reportsDowngrades (validateEnforcement plain { modelDowngrades := mutualDowngrades.reverse }) = true := by
  have hmap : (Table.keys mutualDowngrades).Nodup := by decide
  refine (validateEnforcement_reports_iff_returns { modelDowngrades := mutualDowngrades } hmap
    ⟨mutualDowngrades.reverse, List.reverse_perm mutualDowngrades⟩).1.2 ⟨"o1", "gpt-4", ?_, ?_⟩
  · exact .single (by decide)
  · exact .tail (.single (b := "gpt-4o") (by decide)) (by decide)

end Jupiter.Config
