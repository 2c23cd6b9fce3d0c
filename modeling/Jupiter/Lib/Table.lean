/-
Tables keyed by a column: lists of pairs in which an upsert changes the row of its key in place or adds one.

A table read through a map of its rows is again a table when the map tells the keys apart: reading, upserting and
erasing a key commute with it (`lookup_map`, `upsert_map`, `erase_map`), so a table keyed one way can stand for one
keyed another way.
-/
import Mathlib.Data.List.Nodup

namespace Jupiter.Lib.Table

variable {κ κ' α β : Type} {k : κ} {a : α} {l : List (κ × α)}

def keys (l : List (κ × α)) : List κ := l.map Prod.fst

/-! ## Rows -/

section Lookup

variable [BEq κ] [LawfulBEq κ]

theorem mem_of_lookup (h : l.lookup k = some a) : (k, a) ∈ l := by
  obtain ⟨l₁, l₂, rfl, -⟩ := List.lookup_eq_some_iff.1 h
  exact List.mem_append_right _ List.mem_cons_self

theorem lookup_eq_none : l.lookup k = none ↔ k ∉ keys l := by
  rw [List.lookup_eq_none_iff, keys, List.mem_map, not_exists]
  exact forall_congr' fun x => by rw [not_and, bne_iff_ne, ne_comm]

theorem lookup_eq_some_iff_mem (hl : (keys l).Nodup) : l.lookup k = some a ↔ (k, a) ∈ l := by
  refine ⟨mem_of_lookup, fun h => ?_⟩
  cases hg : l.lookup k with
  | none => exact absurd (List.mem_map_of_mem h) (lookup_eq_none.1 hg)
  | some b =>
    have hpair := List.inj_on_of_nodup_map hl (mem_of_lookup hg) h rfl
    rw [(Prod.mk.inj hpair).2]

theorem lookup_of_perm {l' : List (κ × α)} (hl : (keys l).Nodup) (h : l'.Perm l) (k : κ) : l'.lookup k = l.lookup k := by
  have hl' : (keys l').Nodup := (h.map Prod.fst).nodup_iff.2 hl
  refine Option.ext fun a => ?_
  rw [lookup_eq_some_iff_mem hl, lookup_eq_some_iff_mem hl', h.mem_iff]

theorem length_unmarked_lt {marked : List κ} (hk : k ∉ marked) (hmem : (k, a) ∈ l) :
    (l.filter fun row => !(k :: marked).contains row.1).length <
      (l.filter fun row => !marked.contains row.1).length := by
  have hsub : l.filter (fun row => !(k :: marked).contains row.1) =
      (l.filter fun row => !marked.contains row.1).filter fun row => !(row.1 == k) := by
    rw [List.filter_filter]
    refine List.filter_congr fun row _ => ?_
    rw [List.contains_cons, Bool.not_or]
  rw [hsub]
  refine List.length_filter_lt_length_iff_exists.2 ⟨(k, a), ?_, by simp⟩
  exact List.mem_filter.2 ⟨hmem, by simpa using hk⟩

end Lookup

/-! ## Upserts and erasures -/

variable [DecidableEq κ] [DecidableEq κ']

def upsert (k : κ) (f : Option α → α) : List (κ × α) → List (κ × α)
  | [] => [(k, f none)]
  | x :: l => if x.1 = k then (k, f (some x.2)) :: l else x :: upsert k f l

def erase (k : κ) (l : List (κ × α)) : List (κ × α) := l.filter fun x => !decide (x.1 = k)

theorem keys_upsert (k : κ) (f : Option α → α) : ∀ l : List (κ × α),
    keys (upsert k f l) = if k ∈ keys l then keys l else keys l ++ [k]
  | [] => by simp [upsert, keys]
  | x :: l => by
    have ih := keys_upsert k f l
    rw [upsert]
    by_cases hx : x.1 = k
    · simp [keys, hx]
    · have hcons : keys (x :: upsert k f l) = x.1 :: keys (upsert k f l) := rfl
      have hkeys : keys (x :: l) = x.1 :: keys l := rfl
      rw [if_neg hx, hcons, ih, hkeys]
      by_cases hm : k ∈ keys l
      · rw [if_pos hm, if_pos (List.mem_cons_of_mem _ hm)]
      · rw [if_neg hm, if_neg (by simp [hm, Ne.symm hx]), List.cons_append]

theorem nodup_upsert {f : Option α → α} (h : (keys l).Nodup) :
    (keys (upsert k f l)).Nodup := by
  rw [keys_upsert]
  split
  · exact h
  · rename_i hk
    rw [List.nodup_append]
    exact ⟨h, List.nodup_singleton k, fun a ha b hb hab => hk (List.mem_singleton.1 hb ▸ hab ▸ ha)⟩

theorem length_upsert (k : κ) (f : Option α → α) (l : List (κ × α)) :
    (upsert k f l).length = if k ∈ keys l then l.length else l.length + 1 := by
  have h := congrArg List.length (keys_upsert k f l)
  rw [keys, List.length_map] at h
  rw [h]
  split
  · exact List.length_map _
  · rw [List.length_append, keys, List.length_map, List.length_singleton]

theorem cons_erase_perm (hl : (keys l).Nodup) (h : (k, a) ∈ l) :
    ((k, a) :: erase k l).Perm l := by
  obtain ⟨l₁, l₂, rfl⟩ := List.append_of_mem h
  rw [keys, List.map_append, List.nodup_append, List.map_cons, List.nodup_cons] at hl
  obtain ⟨-, ⟨hafter, -⟩, hbefore⟩ := hl
  have h₁ : erase k l₁ = l₁ := List.filter_eq_self.2 fun x hx => by
    simpa using hbefore x.1 (List.mem_map_of_mem hx) k List.mem_cons_self
  have h₂ : erase k l₂ = l₂ := List.filter_eq_self.2 fun x hx => by
    have hne : x.1 ≠ k := fun hk => hafter (List.mem_map.2 ⟨x, hx, hk⟩)
    simpa using hne
  have herase : erase k (l₁ ++ (k, a) :: l₂) = l₁ ++ l₂ := by
    rw [erase, List.filter_append, List.filter_cons_of_neg (by simp)]
    exact congrArg₂ _ h₁ h₂
  rw [herase]
  exact List.perm_middle.symm

theorem length_erase_lt (h : k ∈ keys l) : (erase k l).length < l.length := by
  obtain ⟨x, hx, rfl⟩ := List.mem_map.1 h
  exact List.length_filter_lt_length_iff_exists.2 ⟨x, hx, by simp⟩

section Upsert

variable {f g : Option α → α}

theorem upsert_upsert (k : κ) (f g : Option α → α) :
    ∀ l : List (κ × α), upsert k f (upsert k g l) = upsert k (fun a => f (some (g a))) l
  | [] => by simp [upsert]
  | x :: l => by
    by_cases hx : x.1 = k
    · simp [upsert, hx]
    · simp [upsert, hx, upsert_upsert k f g l]

theorem forall₂_upsert {R : α → α → Prop} (hnone : R (f none) (g none))
    (hsome : ∀ a b, R a b → R (f (some a)) (g (some b))) :
    ∀ {l m : List (κ × α)}, List.Forall₂ (fun x y => x.1 = y.1 ∧ R x.2 y.2) l m →
      List.Forall₂ (fun x y => x.1 = y.1 ∧ R x.2 y.2) (upsert k f l) (upsert k g m)
  | _, _, .nil => .cons ⟨rfl, hnone⟩ .nil
  | x :: l, y :: m, .cons hxy hlm => by
    rw [upsert, upsert, ← hxy.1]
    split
    · exact .cons ⟨rfl, hsome _ _ hxy.2⟩ hlm
    · exact .cons hxy (forall₂_upsert hnone hsome hlm)

end Upsert

/-! ## Rows after an update -/

section Rows

variable [BEq κ] [LawfulBEq κ] {k' : κ} {f g : Option α → α}

theorem lookup_cons_ite (k : κ) (x : κ × α) (l : List (κ × α)) :
    (x :: l).lookup k = if x.1 = k then some x.2 else l.lookup k := by
  by_cases hx : x.1 = k
  · rw [List.lookup_cons, if_pos hx, beq_iff_eq.2 hx.symm]
  · rw [List.lookup_cons, if_neg hx, beq_eq_false_iff_ne.2 (Ne.symm hx)]

theorem mem_upsert {x : κ × α} :
    ∀ {l : List (κ × α)}, x ∈ upsert k f l → x ∈ l ∨ x = (k, f (l.lookup k))
  | [], h => .inr (by simpa [upsert, lookup_cons_ite] using h)
  | y :: l, h => by
    unfold upsert at h
    rw [lookup_cons_ite]
    split at h
    · rename_i hy
      rw [if_pos hy]
      rcases List.mem_cons.1 h with rfl | h
      · exact .inr rfl
      · exact .inl (List.mem_cons_of_mem _ h)
    · rename_i hy
      rw [if_neg hy]
      rcases List.mem_cons.1 h with rfl | h
      · exact .inl (List.mem_cons_self ..)
      · exact (mem_upsert h).imp_left (List.mem_cons_of_mem _)

theorem lookup_upsert_ne (hk : k' ≠ k) (f : Option α → α) :
    ∀ l : List (κ × α), (upsert k f l).lookup k' = l.lookup k'
  | [] => by simp [upsert, lookup_cons_ite, Ne.symm hk]
  | x :: l => by
    unfold upsert
    split
    · rename_i hx
      rw [lookup_cons_ite, lookup_cons_ite, if_neg (Ne.symm hk), if_neg (by rw [hx]; exact Ne.symm hk)]
    · rw [lookup_cons_ite, lookup_cons_ite, lookup_upsert_ne hk f l]

theorem lookup_upsert_self (k : κ) (f : Option α → α) :
    ∀ l : List (κ × α), (upsert k f l).lookup k = some (f (l.lookup k))
  | [] => by simp [upsert, lookup_cons_ite]
  | x :: l => by
    rw [upsert]
    by_cases hx : x.1 = k
    · rw [if_pos hx, lookup_cons_ite, if_pos rfl, lookup_cons_ite, if_pos hx]
    · rw [if_neg hx, lookup_cons_ite, if_neg hx, lookup_cons_ite, if_neg hx, lookup_upsert_self k f l]

theorem lookup_erase_ne (hk : k' ≠ k) : ∀ l : List (κ × α), (erase k l).lookup k' = l.lookup k'
  | [] => rfl
  | x :: l => by
    have ih := lookup_erase_ne hk l
    unfold erase at ih ⊢
    rw [List.filter_cons]
    split
    · rw [lookup_cons_ite, lookup_cons_ite, ih]
    · rename_i hx
      rw [lookup_cons_ite, if_neg (by rw [show x.1 = k by simpa using hx]; exact Ne.symm hk), ih]

theorem lookup_erase_self (k : κ) (l : List (κ × α)) : (erase k l).lookup k = none := by
  refine lookup_eq_none.2 fun h => ?_
  obtain ⟨x, hx, hk⟩ := List.mem_map.1 h
  have hne := (List.mem_filter.1 hx).2
  simp [hk] at hne

theorem upsert_of_lookup_eq_none : ∀ {l : List (κ × α)}, l.lookup k = none →
    upsert k f l = l ++ [(k, f none)]
  | [], _ => rfl
  | x :: l, h => by
    have hx : ¬ x.1 = k := fun hx => by simp [lookup_cons_ite, hx] at h
    rw [lookup_cons_ite, if_neg hx] at h
    rw [upsert, if_neg hx, upsert_of_lookup_eq_none h]
    rfl

theorem upsert_congr : ∀ {l : List (κ × α)}, f (l.lookup k) = g (l.lookup k) → upsert k f l = upsert k g l
  | [], h => by rw [upsert, upsert, show f none = g none from h]
  | x :: l, h => by
    rw [upsert, upsert]
    rw [lookup_cons_ite] at h
    split
    · rename_i hx
      rw [if_pos hx] at h
      rw [h]
    · rename_i hx
      rw [if_neg hx] at h
      rw [upsert_congr h]

theorem upsert_comm (hk : k ≠ k') :
    ∀ {l : List (κ × α)}, (l.lookup k).isSome → upsert k f (upsert k' g l) = upsert k' g (upsert k f l)
  | x :: l, h => by
    rw [lookup_cons_ite] at h
    by_cases hx : x.1 = k
    · have hx' : ¬ x.1 = k' := fun he => hk (hx.symm.trans he)
      simp [upsert, hx, hk]
    · rw [if_neg hx] at h
      by_cases hx' : x.1 = k'
      · simp [upsert, hx', Ne.symm hk]
      · simp [upsert, hx, hx', upsert_comm hk h]

end Rows

/-! ## Tables read through a map -/

section Map

variable {h : κ × α → κ' × β} {k' : κ'}

theorem erase_map (hl : ∀ x ∈ l, (h x).1 = k' ↔ x.1 = k) :
    erase k' (l.map h) = (erase k l).map h := by
  unfold erase
  rw [List.filter_map]
  congr 1
  refine List.filter_congr fun x hx => ?_
  simp [hl x hx]

variable [BEq κ] [LawfulBEq κ]

theorem upsert_map {f : Option α → α} {g : Option β → β} (hnew : h (k, f none) = (k', g none)) :
    ∀ {l : List (κ × α)}, (∀ x ∈ l, (h x).1 = k' ↔ x.1 = k) →
      (∀ a, l.lookup k = some a → h (k, f (some a)) = (k', g (some (h (k, a)).2))) →
      upsert k' g (l.map h) = (upsert k f l).map h
  | [], _, _ => by rw [List.map_nil, upsert, upsert, List.map_cons, List.map_nil, hnew]
  | x :: l, hl, hupd => by
    have hx := hl x (List.mem_cons_self ..)
    rw [List.map_cons, upsert, upsert]
    by_cases hk : x.1 = k
    · rw [if_pos (hx.2 hk), if_pos hk, List.map_cons, hupd x.2 (by rw [lookup_cons_ite, if_pos hk]), ← hk]
    · rw [if_neg (fun he => hk (hx.1 he)), if_neg hk, List.map_cons,
        upsert_map hnew (fun y hy => hl y (List.mem_cons_of_mem _ hy))
          (fun a ha => hupd a (by rw [lookup_cons_ite, if_neg hk]; exact ha))]

theorem lookup_map [BEq κ'] [LawfulBEq κ'] : ∀ {l : List (κ × α)}, (∀ x ∈ l, (h x).1 = k' ↔ x.1 = k) →
    (l.map h).lookup k' = (l.lookup k).map fun a => (h (k, a)).2
  | [], _ => rfl
  | x :: l, hl => by
    have hx := hl x (List.mem_cons_self ..)
    rw [List.map_cons, lookup_cons_ite, lookup_cons_ite, lookup_map fun y hy => hl y (List.mem_cons_of_mem _ hy)]
    by_cases hk : x.1 = k
    · rw [if_pos (hx.2 hk), if_pos hk, ← hk]
      rfl
    · rw [if_neg (fun he => hk (hx.1 he)), if_neg hk]

end Map

def total : List (κ × Int) → Int
  | [] => 0
  | x :: l => x.2 + total l

theorem total_upsert (k : κ) (f : Option Int → Int) : ∀ l : List (κ × Int),
    total (upsert k f l) = total l - (l.lookup k).getD 0 + f (l.lookup k)
  | [] => by simp [upsert, total]
  | x :: l => by
    have ih := total_upsert k f l
    rw [upsert, lookup_cons_ite]
    split
    · simp only [total, Option.getD_some]
      omega
    · simp only [total]
      omega

end Jupiter.Lib.Table
