/-
`pkg/mpl/errors/suggestion.go`: the names proposed in place of an unknown one.

`levenshteinDistance` fills a matrix whose cell in row `i` and column `j` is the edit distance of the first `i` bytes of
one string and the first `j` of the other; `Filled` says how far it has come. A matrix is the value at every pair of
indices: all the code's indices are in range.
-/
import Jupiter.Go.Bytes
import Jupiter.Lib.EditDistance
import Jupiter.Lib.Least

namespace Jupiter.Mpl

open Jupiter.Go Jupiter.Lib

/-! ## The matrix -/

abbrev Matrix := Nat → Nat → Nat

namespace Suggestion

def set (m : Matrix) (i j value : Nat) : Matrix := fun i' j' => if i' = i ∧ j' = j then value else m i' j'

/-- The source's `min`. -/
def minOf (a b c : Nat) : Nat :=
  if a < b then
    if a < c then a else c
  else if b < c then b
  else c

section Levenshtein

variable (s1 s2 : Bytes)

/-- The first column and the first row. -/
def initialized : Matrix :=
  let matrix := (List.range (s1.length + 1)).foldl (fun m i => set m i 0 i) fun _ _ => 0
  (List.range (s2.length + 1)).foldl (fun m j => set m 0 j j) matrix

def computeCell (i j : Nat) (m : Matrix) : Matrix :=
  let cost := if s1[i - 1]? = s2[j - 1]? then 0 else 1
  set m i j (minOf (m (i - 1) j + 1) (m i (j - 1) + 1) (m (i - 1) (j - 1) + cost))

def computeRow (i : Nat) (m : Matrix) : Matrix :=
  (List.range' 1 s2.length).foldl (fun m j => computeCell s1 s2 i j m) m

def computed : Matrix := (List.range' 1 s1.length).foldl (fun m i => computeRow s1 s2 i m) (initialized s1 s2)

def levenshteinDistance : Nat := if s1 = s2 then 0 else computed s1 s2 s1.length s2.length

end Levenshtein

/-! ## Suggestions -/

def closest (unknown : Bytes) (candidates : List Bytes) : Nat × Bytes :=
  candidates.foldl (fun found candidate =>
    if levenshteinDistance unknown candidate < found.1 then (levenshteinDistance unknown candidate, candidate)
    else found) (1000, [])

def didYouMean (name : Bytes) : Bytes := Bytes.ascii "Did you mean '" ++ name ++ Bytes.ascii "'?"

def join (names : List Bytes) : Bytes := (Bytes.ascii ", ").intercalate names

def suggestFieldName (unknown : Bytes) (validFields : List Bytes) : Bytes :=
  if validFields = [] then []
  else if (closest unknown validFields).1 < 5 then didYouMean (closest unknown validFields).2
  else if 5 < validFields.length then
    Bytes.ascii "Valid fields include: " ++ join (validFields.take 5) ++ Bytes.ascii ", ..."
  else Bytes.ascii "Valid fields: " ++ join validFields

/-! ## What the matrix holds -/

section Filled

variable {s1 s2 : Bytes} {m : Matrix} {i j : Nat}

/-- The distance of the first bytes of both strings, read backwards. -/
def headDistance (s1 s2 : Bytes) (i j : Nat) : Nat := distance (s1.take i).reverse (s2.take j).reverse

/-- The rows above `i`, the first column and row `i` up to column `j` are computed. -/
def Filled (s1 s2 : Bytes) (i j : Nat) (m : Matrix) : Prop :=
  ∀ i' j', i' ≤ s1.length → j' ≤ s2.length → i' < i ∨ j' = 0 ∨ i' = i ∧ j' ≤ j → m i' j' = headDistance s1 s2 i' j'

theorem minOf_eq (a b c : Nat) : minOf a b c = min (min a b) c := by
  unfold minOf
  split <;> split <;> omega

theorem headDistance_zero_left (h : j ≤ s2.length) : headDistance s1 s2 0 j = j := by
  simp [headDistance, h]

theorem headDistance_zero_right (h : i ≤ s1.length) : headDistance s1 s2 i 0 = i := by
  simp [headDistance, h]

theorem headDistance_succ (hi : i < s1.length) (hj : j < s2.length) :
    headDistance s1 s2 (i + 1) (j + 1) =
      min (min (headDistance s1 s2 i (j + 1) + 1) (headDistance s1 s2 (i + 1) j + 1))
        (headDistance s1 s2 i j + if s1[i]? = s2[j]? then 0 else 1) := by
  have hrow : (s1.take (i + 1)).reverse = s1[i] :: (s1.take i).reverse := by
    rw [List.take_succ_eq_append_getElem hi, List.reverse_append]
    rfl
  have hcolumn : (s2.take (j + 1)).reverse = s2[j] :: (s2.take j).reverse := by
    rw [List.take_succ_eq_append_getElem hj, List.reverse_append]
    rfl
  have hcost : s1[i]? = s2[j]? ↔ s1[i] = s2[j] := by
    rw [List.getElem?_eq_getElem hi, List.getElem?_eq_getElem hj, Option.some.injEq]
  unfold headDistance
  rw [hrow, hcolumn, distance_cons_cons]
  simp only [hcost]

theorem foldl_column (m : Matrix) (n i j : Nat) :
    (List.range n).foldl (fun m i => set m i 0 i) m i j = if i < n ∧ j = 0 then i else m i j := by
  induction n with
  | zero => simp
  | succ n ih =>
    rw [List.range_succ, List.foldl_append, List.foldl_cons, List.foldl_nil, set, ih]
    split_ifs <;> omega

theorem foldl_row (m : Matrix) (n i j : Nat) :
    (List.range n).foldl (fun m j => set m 0 j j) m i j = if i = 0 ∧ j < n then j else m i j := by
  induction n with
  | zero => simp
  | succ n ih =>
    rw [List.range_succ, List.foldl_append, List.foldl_cons, List.foldl_nil, set, ih]
    split_ifs <;> omega

theorem filled_initialized (s1 s2 : Bytes) : Filled s1 s2 1 0 (initialized s1 s2) := by
  intro i j hi hj hcell
  unfold initialized
  rw [foldl_row, foldl_column]
  by_cases hrow : i = 0
  · rw [if_pos (by omega), hrow, headDistance_zero_left hj]
  · obtain rfl : j = 0 := by omega
    rw [if_neg (by omega), if_pos (by omega), headDistance_zero_right hi]

/-- A cell is computed from the three before it. -/
theorem Filled.computeCell (h : Filled s1 s2 (i + 1) j m) (hi : i < s1.length) (hj : j < s2.length) :
    Filled s1 s2 (i + 1) (j + 1) (computeCell s1 s2 (i + 1) (j + 1) m) := by
  intro i' j' hi' hj' hcell
  unfold Suggestion.computeCell set
  by_cases hself : i' = i + 1 ∧ j' = j + 1
  · obtain ⟨rfl, rfl⟩ := hself
    rw [if_pos ⟨rfl, rfl⟩, headDistance_succ hi hj, minOf_eq, Nat.add_sub_cancel, Nat.add_sub_cancel,
      h i (j + 1) (by omega) hj' (by omega), h (i + 1) j hi' (by omega) (by omega),
      h i j (by omega) (by omega) (by omega)]
  · rw [if_neg hself]
    exact h i' j' hi' hj' (by omega)

theorem Filled.computeRow (h : Filled s1 s2 (i + 1) 0 m) (hi : i < s1.length) :
    Filled s1 s2 (i + 2) 0 (computeRow s1 s2 (i + 1) m) := by
  have hcells : ∀ n ≤ s2.length, Filled s1 s2 (i + 1) n
      ((List.range' 1 n).foldl (fun m j => Suggestion.computeCell s1 s2 (i + 1) j m) m) := by
    intro n hn
    induction n with
    | zero => exact h
    | succ n ih =>
      rw [List.range'_1_concat, List.foldl_append, Nat.add_comm 1 n]
      exact (ih (Nat.le_of_succ_le hn)).computeCell hi hn
  intro i' j' hi' hj' hcell
  exact hcells s2.length (Nat.le_refl _) i' j' hi' hj' (by omega)

theorem filled_computed (s1 s2 : Bytes) : Filled s1 s2 (s1.length + 1) 0 (computed s1 s2) := by
  have hrows : ∀ n ≤ s1.length, Filled s1 s2 (n + 1) 0
      ((List.range' 1 n).foldl (fun m i => Suggestion.computeRow s1 s2 i m) (initialized s1 s2)) := by
    intro n hn
    induction n with
    | zero => exact filled_initialized s1 s2
    | succ n ih =>
      rw [List.range'_1_concat, List.foldl_append, Nat.add_comm 1 n]
      exact (ih (Nat.le_of_succ_le hn)).computeRow hn
  exact hrows s1.length (Nat.le_refl _)

theorem levenshteinDistance_eq (s1 s2 : Bytes) : levenshteinDistance s1 s2 = distance s1 s2 := by
  unfold levenshteinDistance
  split
  · rename_i heq
    rw [heq, distance_self]
  · rw [filled_computed s1 s2 _ _ (Nat.le_refl _) (Nat.le_refl _) (.inl (Nat.lt_succ_self _)), headDistance,
      List.take_length, List.take_length, distance_reverse]

end Filled

/-! ## The closest name -/

theorem closest_eq_least (unknown : Bytes) (candidates : List Bytes) :
    closest unknown candidates =
      least (fun found => (found.1 : Int)) (1000, []) (candidates.map fun c => (levenshteinDistance unknown c, c)) := by
  unfold closest least
  rw [List.foldl_map]
  simp only [Int.ofNat_lt]

theorem closest_spec {unknown name : Bytes} {candidates : List Bytes} (hname : name ∈ candidates)
    (hnear : levenshteinDistance unknown name < 1000) :
    ∃ best ∈ candidates, closest unknown candidates = (levenshteinDistance unknown best, best) ∧
      ∀ c ∈ candidates, levenshteinDistance unknown best ≤ levenshteinDistance unknown c := by
  obtain ⟨hkept, hmin⟩ := least_spec (fun found : Nat × Bytes => (found.1 : Int)) (1000, [])
    (candidates.map fun c => (levenshteinDistance unknown c, c))
  rw [← closest_eq_least] at hkept hmin
  have hle : ∀ c ∈ candidates, (closest unknown candidates).1 ≤ levenshteinDistance unknown c := by
    intro c hc
    exact Int.ofNat_le.1 (hmin _ (List.mem_cons_of_mem _ (List.mem_map_of_mem hc)))
  rcases hkept with hstart | ⟨hmem, -⟩
  · have := hle name hname
    rw [hstart] at this
    omega
  · obtain ⟨best, hbest, heq⟩ := List.mem_map.1 hmem
    refine ⟨best, hbest, heq.symm, ?_⟩
    rw [← heq] at hle
    exact hle

/-- The distance is the least number of bytes to insert, delete or replace, which makes it a metric, and the proposal
is a field that none is closer than, if some field is fewer than five edits away. -/
theorem levenshteinDistance_isLeast :
    (∀ s t : Bytes, IsLeast {n | Edits n s t} (levenshteinDistance s t)) ∧
      (∀ s t, levenshteinDistance s t = 0 ↔ s = t) ∧
      (∀ s t, levenshteinDistance s t = levenshteinDistance t s) ∧
      (∀ s t u, levenshteinDistance s u ≤ levenshteinDistance s t + levenshteinDistance t u) ∧
      ∀ unknown validFields, (∃ field ∈ validFields, levenshteinDistance unknown field < 5) →
        ∃ best ∈ validFields, suggestFieldName unknown validFields = didYouMean best ∧
          ∀ field ∈ validFields, levenshteinDistance unknown best ≤ levenshteinDistance unknown field := by
  refine ⟨?_, ?_, ?_, ?_, ?_⟩
  · intro s t
    rw [levenshteinDistance_eq]
    exact isLeast_distance s t
  · intro s t
    rw [levenshteinDistance_eq]
    exact distance_eq_zero_iff
  · intro s t
    rw [levenshteinDistance_eq, levenshteinDistance_eq]
    exact distance_comm s t
  · intro s t u
    simp only [levenshteinDistance_eq]
    exact distance_triangle s t u
  · rintro unknown validFields ⟨field, hfield, hnear⟩
    obtain ⟨best, hbest, hclosest, hmin⟩ := closest_spec hfield (Nat.lt_trans hnear (by decide))
    refine ⟨best, hbest, ?_, hmin⟩
    unfold suggestFieldName
    rw [if_neg (List.ne_nil_of_mem hfield), hclosest, if_pos (Nat.lt_of_le_of_lt (hmin field hfield) hnear)]

end Suggestion

end Jupiter.Mpl
