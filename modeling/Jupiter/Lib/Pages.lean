/-
Reading a table page by page: each page is a query of its own, with LIMIT `k` and OFFSET `0`, `k`, `2k`, …

The pages have every row once, whatever order the rows of one key come in, exactly when no page ends between two rows of
one key (`pages_partition_iff`). Where it does not, the rows before the cut are the same in every ordering
(`take_perm_of_cleanCut`).
-/
import Jupiter.Lib.Sql
import Mathlib.Data.List.Perm.Basic

namespace Jupiter.Lib.Sql

variable {ρ : Type} {key : ρ → Value} {descending : Bool} {matching rows rows' : List ρ}

/-! ## The order of the keys -/

def before (descending : Bool) (v w : Value) : Prop := if descending then w.le v else v.le w

theorem before_refl (v : Value) : before descending v v := by
  cases descending <;> exact Value.le_refl v

theorem before_trans {u v w : Value} (h : before descending u v) (h' : before descending v w) :
    before descending u w := by
  cases descending with
  | true => exact Value.le_trans _ _ _ h' h
  | false => exact Value.le_trans _ _ _ h h'

theorem before_antisymm {v w : Value} (h : before descending v w) (h' : before descending w v) : v = w := by
  cases descending with
  | true => exact Value.le_antisymm h' h
  | false => exact Value.le_antisymm h h'

theorem ordered_iff_before : Ordered key descending rows ↔ (rows.map key).Pairwise (before descending) := by
  rw [List.pairwise_map]
  cases descending <;> rfl

/-! ## Rows before a cut -/

def CleanCut (key : ρ → Value) (rows : List ρ) (i : Nat) : Prop :=
  ∀ a ∈ (rows.take i).getLast?, ∀ b ∈ (rows.drop i).head?, key a ≠ key b

theorem cleanCut_of_nodup (h : (rows.map key).Nodup) (i : Nat) : CleanCut key rows i := by
  intro a ha b hb
  rw [← List.take_append_drop i rows, List.map_append] at h
  exact (List.nodup_append.1 h).2.2 _ (List.mem_map_of_mem (List.mem_of_getLast? ha)) _
    (List.mem_map_of_mem (List.mem_of_mem_head? hb))

theorem key_ne_of_cleanCut {i : Nat} (h : Ordered key descending rows) (hcut : CleanCut key rows i) {a b : ρ}
    (ha : a ∈ rows.take i) (hb : b ∈ rows.drop i) : key a ≠ key b := by
  obtain ⟨init, last, htake⟩ := List.eq_nil_or_concat (rows.take i) |>.resolve_left (List.ne_nil_of_mem ha)
  obtain ⟨first, rest, hdrop⟩ := List.exists_cons_of_ne_nil (List.ne_nil_of_mem hb)
  rw [List.concat_eq_append] at htake
  have hne : key last ≠ key first := by
    refine hcut last ?_ first ?_
    · simp [htake]
    · simp [hdrop]
  rw [htake] at ha
  rw [hdrop] at hb
  rw [ordered_iff_before, List.pairwise_map, ← List.take_append_drop i rows, htake, hdrop, List.append_assoc,
    List.singleton_append] at h
  obtain ⟨-, hafter, hinit⟩ := List.pairwise_append.1 h
  obtain ⟨hlast, hrest⟩ := List.pairwise_cons.1 hafter
  obtain ⟨hfirst, -⟩ := List.pairwise_cons.1 hrest
  have hal : before descending (key a) (key last) := by
    rcases List.mem_append.1 ha with ha | ha
    · exact hinit a ha last List.mem_cons_self
    · rw [List.mem_singleton.1 ha]
      exact before_refl _
  have hfb : before descending (key first) (key b) := by
    rcases List.mem_cons.1 hb with rfl | hb
    · exact before_refl _
    · exact hfirst b hb
  -- between two equal keys all keys are equal, also those at the cut
  intro hkey
  rw [← hkey] at hfb
  exact hne (before_antisymm (hlast first List.mem_cons_self) (before_trans hfb hal))

theorem take_eq_filter_of_cleanCut {i : Nat} (h : Ordered key descending rows) (hcut : CleanCut key rows i) :
    rows.take i = rows.filter (((rows.map key).take i).contains <| key ·) := by
  have hmem : ∀ r ∈ rows.take i, ((rows.map key).take i).contains (key r) = true := by
    intro r hr
    rw [List.contains_iff_mem, ← List.map_take]
    exact List.mem_map_of_mem hr
  have hnot : ∀ r ∈ rows.drop i, ((rows.map key).take i).contains (key r) = false := by
    intro r hr
    rw [← Bool.not_eq_true, List.contains_iff_mem, ← List.map_take]
    intro hk
    obtain ⟨a, ha, heq⟩ := List.mem_map.1 hk
    exact key_ne_of_cleanCut h hcut ha hr heq
  calc rows.take i
      = (rows.take i).filter (((rows.map key).take i).contains <| key ·) ++
          (rows.drop i).filter (((rows.map key).take i).contains <| key ·) := by
        rw [List.filter_eq_self.2 hmem, List.filter_eq_nil_iff.2 fun r hr => Bool.not_eq_true _ ▸ hnot r hr,
          List.append_nil]
    _ = rows.filter (((rows.map key).take i).contains <| key ·) := by
        rw [← List.filter_append, List.take_append_drop]

theorem cleanCut_congr {i : Nat} (hkeys : rows.map key = rows'.map key) :
    CleanCut key rows i ↔ CleanCut key rows' i := by
  have hiff : ∀ rows : List ρ, CleanCut key rows i ↔
      ∀ v ∈ ((rows.map key).take i).getLast?, ∀ w ∈ ((rows.map key).drop i).head?, v ≠ w := by
    intro rows
    unfold CleanCut
    rw [← List.map_take, ← List.map_drop, List.getLast?_map, List.head?_map]
    simp
  rw [hiff rows, hiff rows', hkeys]

theorem take_perm_of_cleanCut {i : Nat} (hp : rows.Perm rows') (h : Ordered key descending rows)
    (h' : Ordered key descending rows') (hcut : CleanCut key rows i) : (rows.take i).Perm (rows'.take i) := by
  have hkeys := keys_eq_of_ordered hp h h'
  rw [take_eq_filter_of_cleanCut h hcut, take_eq_filter_of_cleanCut h' ((cleanCut_congr hkeys).1 hcut), hkeys]
  exact hp.filter _

/-! ## Pages -/

theorem page_perm_of_cleanCut {i k : Nat} (hp : rows.Perm rows') (h : Ordered key descending rows)
    (h' : Ordered key descending rows') (hcut : CleanCut key rows i) (hcut' : CleanCut key rows (i + k)) :
    ((rows.drop i).take k).Perm ((rows'.drop i).take k) := by
  have hbefore := take_perm_of_cleanCut hp h h' hcut
  have hupto := take_perm_of_cleanCut hp h h' hcut'
  rw [List.take_add, List.take_add] at hupto
  exact (List.perm_append_left_iff _).1 ((hbefore.symm.append_right _).trans hupto)

theorem flatMap_pages (rows : List ρ) (k n : Nat) :
    (List.range n).flatMap (fun j => (rows.drop (j * k)).take k) = rows.take (n * k) := by
  induction n with
  | zero => simp
  | succ n ih => rw [List.range_succ, List.flatMap_append, ih, List.flatMap_singleton, Nat.succ_mul, List.take_add]

/-- Querying with LIMIT `k` and OFFSET `0`, `k`, `2k`, … until a page is empty gives every matching row once. -/
def PagesPartition {ι : Type} (name : ρ → ι) (matching : List ρ) (key : ρ → Value) (descending : Bool) (k : Nat) :
    Prop :=
  ∀ pages : Nat → List ρ, (∀ j, Selects matching key descending k (j * k) (pages j)) →
    ∃ n, pages n = [] ∧ (∀ j < n, pages j ≠ []) ∧
      (((List.range n).flatMap pages).map name).Perm (matching.map name)

theorem page_ne_nil_iff {i k : Nat} (hk : 0 < k) : (rows.drop i).take k ≠ [] ↔ i < rows.length := by
  rw [ne_eq, List.take_eq_nil_iff, List.drop_eq_nil_iff]
  omega

theorem pagesPartition_of_cleanCut {ι : Type} (name : ρ → ι) {k : Nat} (hk : 0 < k)
    (h : ∀ rows : List ρ, rows.Perm matching → Ordered key descending rows → ∀ j, CleanCut key rows (j * k)) :
    PagesPartition name matching key descending k := by
  intro pages hpages
  choose order hperm hord hpage using hpages
  have hlen : ∀ j, (order j).length = matching.length := fun j => (hperm j).length_eq
  refine ⟨(matching.length + k - 1) / k, ?_, ?_, ?_⟩
  · by_contra hne
    rw [hpage] at hne
    have hlt := (page_ne_nil_iff hk).1 hne
    rw [hlen] at hlt
    have := Nat.lt_div_mul_add (a := matching.length + k - 1) hk
    omega
  · intro j hj
    rw [hpage, page_ne_nil_iff hk, hlen]
    have := (Nat.lt_div_iff_mul_lt hk).1 hj
    omega
  · refine List.Perm.map name ?_
    have hcuts := h (order 0) (hperm 0) (hord 0)
    have hsame : ∀ j, (pages j).Perm (((order 0).drop (j * k)).take k) := by
      intro j
      rw [hpage j]
      refine (page_perm_of_cleanCut ((hperm 0).trans (hperm j).symm) (hord 0) (hord j) (hcuts j) ?_).symm
      rw [← Nat.succ_mul]
      exact hcuts (j + 1)
    refine (List.Perm.flatMap_left _ fun j _ => hsame j).trans ?_
    rw [flatMap_pages, List.take_of_length_le]
    · exact hperm 0
    · rw [hlen]
      have := Nat.lt_div_mul_add (a := matching.length + k - 1) hk
      omega

theorem ordered_swap {l l' : List ρ} {a b : ρ} (hkey : key a = key b) (h : Ordered key descending (l ++ a :: b :: l')) :
    Ordered key descending (l ++ b :: a :: l') := by
  rw [ordered_iff_before] at h ⊢
  simpa [hkey] using h

theorem mem_page_last {l l' : List ρ} {a : ρ} {j k : Nat} (hk : 0 < k) (hl : l.length + 1 = (j + 1) * k) :
    a ∈ ((l ++ a :: l').drop (j * k)).take k := by
  rw [Nat.succ_mul] at hl
  refine List.mem_of_getElem? (i := k - 1) ?_
  rw [List.getElem?_take_of_lt (by omega), List.getElem?_drop, List.getElem?_append_right (by omega)]
  simp [show j * k + (k - 1) - l.length = 0 by omega]

theorem mem_page_first {l l' : List ρ} {a : ρ} {j k : Nat} (hk : 0 < k) (hl : l.length = j * k) :
    a ∈ ((l ++ a :: l').drop (j * k)).take k := by
  refine List.mem_of_getElem? (i := 0) ?_
  rw [List.getElem?_take_of_lt hk, List.getElem?_drop, List.getElem?_append_right (by omega)]
  simp [hl]

theorem disjoint_of_nodup_flatMap {ι : Type} {pages : Nat → List ι} {i j n : Nat}
    (h : ((List.range n).flatMap pages).Nodup) (hij : i < j) (hj : j < n) : (pages i).Disjoint (pages j) := by
  have hpairs := List.pairwise_iff_getElem.1 (List.nodup_flatMap.1 h).2 i j (by simp; omega) (by simpa using hj) hij
  simpa only [List.getElem_range] using hpairs

theorem cleanCut_of_pagesPartition {ι : Type} {name : ρ → ι} (hname : (matching.map name).Nodup) {k : Nat} (hk : 0 < k)
    (h : PagesPartition name matching key descending k) (hp : rows.Perm matching) (hord : Ordered key descending rows)
    (j : Nat) : CleanCut key rows (j * k) := by
  intro a ha b hb hkey
  obtain ⟨l, hl⟩ := List.getLast?_eq_some_iff.1 ha
  obtain ⟨l', hl'⟩ := List.head?_eq_some_iff.1 hb
  obtain rfl : rows = l ++ a :: b :: l' := by
    rw [← List.take_append_drop (j * k) rows, hl, hl', List.append_assoc, List.singleton_append]
  have hlt : j * k < (l ++ a :: b :: l').length := List.length_lt_of_drop_ne_nil (by simp [hl'])
  have hllen : l.length + 1 = j * k := by
    have := congrArg List.length hl
    rw [List.length_take, Nat.min_eq_left (Nat.le_of_lt hlt), List.length_append] at this
    exact this.symm
  obtain ⟨j, rfl⟩ : ∃ i, j = i + 1 := Nat.exists_eq_succ_of_ne_zero (by rintro rfl; omega)
  -- the page before the cut ends with `a`; in another ordering the page after it starts with `a`
  have hperm' : (l ++ b :: a :: l').Perm matching := ((List.Perm.swap a b l').append_left l).trans hp
  have hord' : Ordered key descending (l ++ b :: a :: l') := ordered_swap hkey hord
  obtain ⟨n, hempty, -, hall⟩ := h
    (fun m => ((if m = j + 1 then l ++ b :: a :: l' else l ++ a :: b :: l').drop (m * k)).take k) (fun m => by
      split
      · exact ⟨_, hperm', hord', rfl⟩
      · exact ⟨_, hp, hord, rfl⟩)
  have hn : j + 1 < n := by
    by_contra hle
    refine (page_ne_nil_iff hk).2 ?_ hempty
    have hmul : n * k ≤ (j + 1) * k := Nat.mul_le_mul_right k (by omega)
    split
    · rw [hperm'.length_eq, ← hp.length_eq]
      omega
    · omega
  have hnodup := hall.nodup_iff.2 hname
  rw [List.map_flatMap] at hnodup
  refine disjoint_of_nodup_flatMap hnodup (Nat.lt_succ_self j) hn (a := name a) ?_ ?_
  · rw [if_neg (by omega)]
    exact List.mem_map_of_mem (mem_page_last hk hllen)
  · rw [if_pos rfl, List.append_cons]
    exact List.mem_map_of_mem (mem_page_first hk (by rw [List.length_append]; exact hllen))

/-- The pages have every row once, whatever the order among rows of one key, exactly when no page ends between two
rows of one key. -/
theorem pages_partition_iff {ι : Type} {name : ρ → ι} (hname : (matching.map name).Nodup) {k : Nat} (hk : 0 < k) :
    PagesPartition name matching key descending k ↔
      ∀ rows : List ρ, rows.Perm matching → Ordered key descending rows → ∀ j, CleanCut key rows (j * k) :=
  ⟨fun h _ hp hord => cleanCut_of_pagesPartition hname hk h hp hord, pagesPartition_of_cleanCut name hk⟩

end Jupiter.Lib.Sql
