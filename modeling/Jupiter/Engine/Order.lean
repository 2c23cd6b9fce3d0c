/-
Loading does not depend on the order policies and rules are handed over in: when names are distinct, two
orderings of the same policies normalise to the same sequence, so that the engines loaded from them are one
and the same (`load_order_irrelevant`). The sort itself may be any that `sort.Slice` allows.
-/
import Jupiter.Engine.Interpreter
import Mathlib.Data.List.Perm.Basic

namespace Jupiter.Engine

open Jupiter.Go Jupiter.Mpl Jupiter.Processing

def RulesReordered (p q : Policy) : Prop := q = { p with rules := q.rules } ∧ q.rules.Perm p.rules

def Reordered (ps qs : List Policy) : Prop := ∃ ms, List.Forall₂ RulesReordered ps ms ∧ ms.Perm qs

/-- Policy names are distinct, and so are the rule names of each policy. -/
structure DistinctNames (ps : List Policy) : Prop where
  policies : (ps.map (·.name)).Nodup
  rules : ∀ p ∈ ps, (p.rules.map (·.name)).Nodup

theorem guardedSort_eq_of_perm {α : Type} (S T : SortSlice) {less : α → α → Bool}
    (hless : StrictWeakOrder less) {l l' : List α} (h : l.Perm l')
    (hsep : ∀ a ∈ l, ∀ b ∈ l, less a b = false → less b a = false → a = b) :
    (if 1 < l.length then S.sort less l else l) = if 1 < l'.length then T.sort less l' else l' := by
  rw [← h.length_eq]
  by_cases hl : 1 < l.length
  · rw [if_pos hl, if_pos hl]
    exact S.sort_eq_of_perm T hless h hsep
  · rw [if_neg hl, if_neg hl]
    rcases l with _ | ⟨a, _ | ⟨b, l⟩⟩
    · exact (List.nil_perm.mp h).symm
    · exact List.singleton_perm.mp h
    · exact absurd (by simp) hl

theorem normalizeRules_eq (S : SortSlice) (p : Policy) :
    normalizeRules S p =
      { p with rules := if 1 < p.rules.length then S.sort ruleLess p.rules else p.rules } := by
  unfold normalizeRules sortRulesByPriority
  split <;> rfl

@[simp] theorem normalizeRules_name (S : SortSlice) (p : Policy) : (normalizeRules S p).name = p.name := by
  rw [normalizeRules_eq]

theorem normalizeRules_congr (S T : SortSlice) {p q : Policy} (h : RulesReordered p q)
    (hn : (p.rules.map (·.name)).Nodup) : normalizeRules S p = normalizeRules T q := by
  have hrules := guardedSort_eq_of_perm S T ruleLess_order h.2.symm fun a ha b hb hab hba =>
    List.inj_on_of_nodup_map hn ha hb (eq_of_not_precedes hab hba).2
  rw [normalizeRules_eq, normalizeRules_eq, hrules, h.1]

theorem map_normalizeRules_congr (S T : SortSlice) {ps ms : List Policy}
    (h : List.Forall₂ RulesReordered ps ms) (hn : ∀ p ∈ ps, (p.rules.map (·.name)).Nodup) :
    ps.map (normalizeRules S) = ms.map (normalizeRules T) := by
  induction h with
  | nil => rfl
  | cons hpq _ ih =>
    rw [List.map_cons, List.map_cons, normalizeRules_congr S T hpq (hn _ List.mem_cons_self),
      ih fun p hp => hn p (List.mem_cons_of_mem _ hp)]

theorem normalizePolicyPriorities_congr (S T : SortSlice) {ps qs : List Policy} (h : Reordered ps qs)
    (hn : DistinctNames ps) : normalizePolicyPriorities S ps = normalizePolicyPriorities T qs := by
  obtain ⟨ms, hms, hperm⟩ := h
  unfold normalizePolicyPriorities sortPoliciesByPriority
  dsimp only
  rw [map_normalizeRules_congr S T hms hn.rules]
  -- the normalised policies still have the names of `ps`
  have hnames : ((ms.map (normalizeRules T)).map (·.name)).Nodup := by
    rw [← map_normalizeRules_congr S T hms hn.rules, List.map_map]
    simpa [Function.comp_def] using hn.policies
  exact guardedSort_eq_of_perm S T policyLess_order (hperm.map _) fun a ha b hb hab hba =>
    List.inj_on_of_nodup_map hnames ha hb (eq_of_not_precedes hab hba).2

/-! ## Loading -/

theorem Reordered.length_eq {ps qs : List Policy} (h : Reordered ps qs) : ps.length = qs.length := by
  obtain ⟨ms, hms, hperm⟩ := h
  rw [hms.length_eq, hperm.length_eq]

theorem Reordered.rules_length {ps qs : List Policy} (h : Reordered ps qs) {n : Int} :
    (∀ p ∈ ps, (p.rules.length : Int) ≤ n) ↔ ∀ q ∈ qs, (q.rules.length : Int) ≤ n := by
  obtain ⟨ms, hms, hperm⟩ := h
  have hpm : (∀ p ∈ ps, (p.rules.length : Int) ≤ n) ↔ ∀ q ∈ ms, (q.rules.length : Int) ≤ n := by
    clear hperm
    induction hms with
    | nil => simp
    | cons hpq _ ih => simp [hpq.2.length_eq, ih]
  rw [hpm]
  exact forall_congr' fun q => by rw [hperm.mem_iff]

/-- Policies with distinct names, handed over in two orders with their rules in any order, normalise to
the same sequence; `ReloadPolicies` takes both or neither, and the engines then make the same decision on
every request. -/
theorem load_order_irrelevant (S T : SortSlice) {ps qs : List Policy} (h : Reordered ps qs)
    (hn : DistinctNames ps) :
    normalizePolicyPriorities S ps = normalizePolicyPriorities T qs ∧
      ∀ e : InterpreterEngine,
        ((∃ e', e.reloadPolicies S (.ok ps) = .ok e') ↔ ∃ e', e.reloadPolicies T (.ok qs) = .ok e') ∧
        ∀ e₁ e₂, e.reloadPolicies S (.ok ps) = .ok e₁ → e.reloadPolicies T (.ok qs) = .ok e₂ →
          ∀ rt d now r, e₁.evaluateRequest rt d now r = e₂.evaluateRequest rt d now r := by
  have hnorm := normalizePolicyPriorities_congr S T h hn
  refine ⟨hnorm, fun e => ⟨?_, ?_⟩⟩
  · simp only [reloadPolicies_eq_ok, h.length_eq, h.rules_length]
    constructor
    · rintro ⟨e', hl, hr, -⟩; exact ⟨_, hl, hr, rfl⟩
    · rintro ⟨e', hl, hr, -⟩; exact ⟨_, hl, hr, rfl⟩
  · intro e₁ e₂ h₁ h₂ rt d now r
    obtain ⟨-, -, rfl⟩ := reloadPolicies_eq_ok.mp h₁
    obtain ⟨-, -, rfl⟩ := reloadPolicies_eq_ok.mp h₂
    rw [hnorm]

/-- `guardPolicy` and a monitoring policy, and the other way round with the rules of the guard swapped. -/
theorem load_order_irrelevant_guard :
    normalizePolicyPriorities insertionSlice
        [guardPolicy, { name := "audit", tags := ["monitoring"], rules := [{ name := "note" }] }] =
      normalizePolicyPriorities insertionSlice
        [{ name := "audit", tags := ["monitoring"], rules := [{ name := "note" }] },
          { guardPolicy with rules := guardPolicy.rules.reverse }] :=
  (load_order_irrelevant insertionSlice insertionSlice
    ⟨[{ guardPolicy with rules := guardPolicy.rules.reverse }, _],
      .cons ⟨rfl, List.reverse_perm _⟩ (.cons ⟨rfl, .refl _⟩ .nil), .swap _ _ _⟩
    ⟨by decide, by decide⟩).1

end Jupiter.Engine
