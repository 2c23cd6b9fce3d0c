/-
The most specific entry of a table: of the entries whose key applies, the one with the largest key.

When applicable keys of one size are equal and no key stands twice, the entry is unique (`best_eq_some_iff`), so it
does not depend on the order of the table. The first applicable entry does, unless all applicable
entries hold one value (`first_eq_best_iff`).
-/
import Mathlib.Data.List.MinMax
import Mathlib.Data.List.Nodup
import Mathlib.Data.List.Perm.Basic

namespace Jupiter.Lib.MostSpecific

variable {κ α : Type} (applies : κ → Bool) (size : κ → Nat)

/-- Keys that apply are told apart by their size. -/
def Graded : Prop := ∀ k k', applies k = true → applies k' = true → size k = size k' → k = k'

def best (l : List (κ × α)) : Option (κ × α) := (l.filter fun e => applies e.1).argmax fun e => size e.1

def first (l : List (κ × α)) : Option (κ × α) := l.find? fun e => applies e.1

variable {applies size}

theorem best_eq_none {l : List (κ × α)} : best applies size l = none ↔ ∀ e ∈ l, applies e.1 = false := by
  simp only [best, List.argmax_eq_none, List.filter_eq_nil_iff, Bool.not_eq_true]

theorem mem_of_best {l : List (κ × α)} {e : κ × α} (h : best applies size l = some e) :
    e ∈ l ∧ applies e.1 = true :=
  List.mem_filter.1 (List.argmax_mem h)

theorem size_le_of_best {l : List (κ × α)} {e e' : κ × α} (h : best applies size l = some e) (he' : e' ∈ l)
    (ha : applies e'.1 = true) : size e'.1 ≤ size e.1 := by
  have hf : e' ∈ l.filter fun e => applies e.1 := List.mem_filter.2 ⟨he', ha⟩
  exact List.le_of_mem_argmax (f := fun e : κ × α => size e.1) hf h

theorem best_eq_some_iff (hg : Graded applies size) {l : List (κ × α)} (hk : (l.map Prod.fst).Nodup) {e : κ × α} :
    best applies size l = some e ↔
      e ∈ l ∧ applies e.1 = true ∧ ∀ e' ∈ l, applies e'.1 = true → size e'.1 ≤ size e.1 := by
  constructor
  · intro h
    obtain ⟨he, ha⟩ := mem_of_best h
    exact ⟨he, ha, fun e' he' ha' => size_le_of_best h he' ha'⟩
  · rintro ⟨he, ha, hmax⟩
    cases hb : best applies size l with
    | none => rw [best_eq_none.1 hb e he] at ha; cases ha
    | some b =>
      obtain ⟨hbl, hba⟩ := mem_of_best hb
      have hsize : size b.1 = size e.1 := le_antisymm (hmax b hbl hba) (size_le_of_best hb he ha)
      rw [List.inj_on_of_nodup_map hk hbl he (hg _ _ hba ha hsize)]

/-- In every order of the table the first applicable entry holds what the most specific one holds, exactly when all
applicable entries hold the same. -/
theorem first_eq_best_iff (l : List (κ × α)) :
    (∀ l' : List (κ × α), l'.Perm l → (first applies l').map Prod.snd = (best applies size l).map Prod.snd) ↔
      ∀ e ∈ l, ∀ e' ∈ l, applies e.1 = true → applies e'.1 = true → e.2 = e'.2 := by
  constructor
  · intro h
    -- Any applicable entry is the first one in some order.
    have hfirst : ∀ e ∈ l, applies e.1 = true → some e.2 = (best applies size l).map Prod.snd := by
      intro e he ha
      obtain ⟨s, t, rfl⟩ := List.append_of_mem he
      have hcons : first applies (e :: (s ++ t)) = some e :=
        List.find?_cons_of_pos (p := fun e : κ × α => applies e.1) ha
      rw [← h (e :: (s ++ t)) List.perm_middle.symm, hcons]
      rfl
    intro e he e' he' ha ha'
    exact Option.some.inj ((hfirst e he ha).trans (hfirst e' he' ha').symm)
  · intro h l' hp
    cases hf : first applies l' with
    | none =>
      have hnone : best applies size l = none := best_eq_none.2 fun e he => by
        simpa using List.find?_eq_none.1 hf e (hp.mem_iff.2 he)
      rw [hnone]
    | some e =>
      have ha : applies e.1 = true := List.find?_some (p := fun e : κ × α => applies e.1) hf
      have he : e ∈ l := hp.mem_iff.1 (List.mem_of_find?_eq_some hf)
      cases hb : best applies size l with
      | none => rw [best_eq_none.1 hb e he] at ha; cases ha
      | some b =>
        obtain ⟨hbl, hba⟩ := mem_of_best hb
        exact congrArg some (h e he b hbl ha hba)

end Jupiter.Lib.MostSpecific
