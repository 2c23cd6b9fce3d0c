/-
How evenly round-robin selection spreads the calls.

The strategy takes the weighted list at the counter, modulo its length, and as many consecutive counts as the list is
long give every entry once. The counter goes back to zero after one billion.
-/
import Jupiter.Routing.Eligible
import Mathlib.Data.List.Count
import Mathlib.Data.List.Rotate

namespace Jupiter.Routing.Strategy

/-! ## Consecutive positions of a list -/

section Positions

variable {α : Type}

def atPosition (slice : List α) (i : Nat) : Option α := slice[i % slice.length]?

theorem map_atPosition_perm (slice : List α) (c : Nat) :
    ((List.range slice.length).map fun i => atPosition slice (c + i)).Perm (slice.map some) := by
  have hrotate : (List.range slice.length).map (fun i => atPosition slice (c + i)) = (slice.rotate c).map some := by
    apply List.ext_getElem?
    intro i
    rw [List.getElem?_map, List.getElem?_map]
    by_cases hi : i < slice.length
    · rw [List.getElem?_range hi, List.getElem?_rotate hi, Option.map_some, atPosition, Nat.add_comm c i,
        List.getElem?_eq_getElem (Nat.mod_lt _ (by omega)), Option.map_some]
    · rw [List.getElem?_eq_none (by simpa using hi), List.getElem?_eq_none (by simpa using hi)]
      rfl
  rw [hrotate]
  exact (List.rotate_perm slice c).map some

theorem range_split (r n : Nat) :
    List.range n = List.range (min r n) ++ (List.range (n - r)).map fun j => r + j := by
  apply List.ext_getElem?
  intro i
  by_cases hi : i < min r n
  · rw [List.getElem?_append_left (by rwa [List.length_range]), List.getElem?_range hi, List.getElem?_range (by omega)]
  · rw [List.getElem?_append_right (by rw [List.length_range]; omega), List.length_range, List.getElem?_map]
    by_cases hn : i < n
    · rw [List.getElem?_range hn, List.getElem?_range (by omega), Option.map_some]
      congr 1
      omega
    · rw [List.getElem?_eq_none (by simpa using hn), List.getElem?_eq_none (by simp; omega)]
      rfl

end Positions

/-! ## The weighted list -/

variable {weights : List (String × Int)} {available : List Provider}

def weight (weights : List (String × Int)) (p : Provider) : Nat := (getWeight weights p.name).toNat

def totalWeight (weights : List (String × Int)) : List Provider → Nat
  | [] => 0
  | p :: available => weight weights p + totalWeight weights available

theorem buildWeightedList_eq (weights : List (String × Int)) (available : List Provider) :
    buildWeightedList weights available = available.flatMap fun p => List.replicate (weight weights p) p := by
  unfold buildWeightedList
  split
  · next hempty =>
    obtain rfl : weights = [] := List.isEmpty_iff.1 hempty
    have hone : (fun p => List.replicate (weight [] p) p) = fun p : Provider => [p] := by
      funext p
      rfl
    rw [hone, List.flatMap_singleton']
  · rfl

theorem length_buildWeightedList (weights : List (String × Int)) (available : List Provider) :
    (buildWeightedList weights available).length = totalWeight weights available := by
  rw [buildWeightedList_eq]
  induction available with
  | nil => rfl
  | cons p available ih => rw [List.flatMap_cons, List.length_append, List.length_replicate, ih, totalWeight]

theorem count_buildWeightedList (weights : List (String × Int)) (available : List Provider) (p : Provider) :
    (buildWeightedList weights available).count p = available.count p * weight weights p := by
  rw [buildWeightedList_eq]
  induction available with
  | nil => simp
  | cons q available ih =>
    rw [List.flatMap_cons, List.count_append, ih, List.count_replicate, List.count_cons]
    by_cases hq : q = p
    · subst hq
      simp only [beq_self_eq_true, if_true]
      rw [Nat.add_mul, Nat.one_mul, Nat.add_comm]
    · simp [hq]

/-! ## Consecutive calls -/

def selected (counter : Nat) (weights : List (String × Int)) (available : List Provider) :
    Nat → Mem → List (Option Provider)
  | 0, _ => []
  | n + 1, m =>
    let (result, m) := selectRoundRobin counter weights available m
    result.toOption :: selected counter weights available n m

def resetAt : Nat := 1000000000

/-- The count that the call uses when the counter, had it been counting on, would be at `i`. -/
def countOf (i : Nat) : Nat := i % (resetAt + 1) % resetAt

example : [resetAt - 1, resetAt, resetAt + 1, resetAt + 2].map countOf = [resetAt - 1, 0, 0, 1] := by decide

theorem nextCount_eq {c : Nat} (h : (c : Int) < 2 ^ 62) :
    nextCount c = if resetAt ≤ c then (0, 0) else (((c + 1 : Nat) : Int), (c : Int)) := by
  have hadded : Go.wrap64 (c + 1) = c + 1 := Go.wrap64_of_range (by omega) (by omega)
  have hcount : Go.wrap64 (c + 1 - 1) = c := (Go.wrap64_of_range (by omega) (by omega)).trans (by omega)
  unfold nextCount
  rw [hadded]
  dsimp only
  rw [hcount]
  unfold resetAt
  by_cases hc : 1000000000 ≤ c
  · rw [if_pos hc, if_pos (by omega)]
  · rw [if_neg hc, if_neg (by omega)]
    rfl

theorem indexed_eq (slice : List Provider) (count : Nat) : (indexed slice count).toOption = atPosition slice count := by
  have hmod : (count : Int).tmod slice.length = ((count % slice.length : Nat) : Int) := by
    rw [Int.tmod_eq_emod_of_nonneg (by omega)]
    rfl
  unfold indexed atPosition
  rw [hmod]
  dsimp only
  rw [if_neg (by omega), Int.toNat_natCast]
  cases slice[count % slice.length]? <;> rfl

theorem selectRoundRobin_spec (weights : List (String × Int)) {counter c : Nat} {m : Mem}
    (h2 : 2 ≤ available.length) (hc : m.counters counter = c) (hmax : (c : Int) < 2 ^ 62) :
    (selectRoundRobin counter weights available m).1.toOption =
        atPosition (weightedProviders weights available) (countOf (min c resetAt)) ∧
      (selectRoundRobin counter weights available m).2.counters counter =
        ((if resetAt ≤ c then 0 else c + 1 : Nat) : Int) := by
  obtain ⟨a, b, rest, rfl⟩ : ∃ a b rest, available = a :: b :: rest := by
    match available, h2 with
    | a :: b :: rest, _ => exact ⟨a, b, rest, rfl⟩
  have hnext := (congrArg nextCount hc).trans (nextCount_eq hmax)
  have hcounter : (selectRoundRobin counter weights (a :: b :: rest) m).2.counters counter =
      (nextCount (m.counters counter)).1 := if_pos rfl
  show (indexed (weightedProviders weights (a :: b :: rest)) (nextCount (m.counters counter)).2).toOption = _ ∧ _
  rw [hcounter, hnext]
  by_cases hreset : resetAt ≤ c
  · have hcount : countOf (min c resetAt) = 0 := by
      rw [Nat.min_eq_right hreset]
      rfl
    rw [if_pos hreset, if_pos hreset, hcount]
    exact ⟨indexed_eq _ 0, rfl⟩
  · have hcount : countOf (min c resetAt) = c := by
      unfold countOf
      unfold resetAt at hreset ⊢
      omega
    rw [if_neg hreset, if_neg hreset, hcount]
    exact ⟨indexed_eq _ c, rfl⟩

theorem selected_eq (weights : List (String × Int)) (n : Nat) {counter c : Nat} {m : Mem}
    (h2 : 2 ≤ available.length) (hc : m.counters counter = c) (hmax : (c : Int) < 2 ^ 62) :
    selected counter weights available n m =
      (List.range n).map fun i => atPosition (weightedProviders weights available) (countOf (min c resetAt + i)) := by
  induction n generalizing m c with
  | zero => rfl
  | succ n ih =>
    obtain ⟨hfirst, hnext⟩ := selectRoundRobin_spec weights h2 hc hmax
    have hnextMax : ((if resetAt ≤ c then 0 else c + 1 : Nat) : Int) < 2 ^ 62 := by
      unfold resetAt
      split <;> omega
    have hstep : ∀ i, countOf (min (if resetAt ≤ c then 0 else c + 1) resetAt + i) =
        countOf (min c resetAt + (i + 1)) := by
      intro i
      unfold countOf resetAt
      split <;> omega
    rw [List.range_succ_eq_map, List.map_cons, List.map_map]
    show (selectRoundRobin counter weights available m).1.toOption ::
      selected counter weights available n (selectRoundRobin counter weights available m).2 = _
    rw [hfirst, ih hnext hnextMax]
    simp only [hstep]
    rfl

/-! ## Counters that calls lead to -/

/-- The memory after calls that began with the counter at zero. -/
inductive Reached (counter : Nat) : Mem → Prop
  | start {m : Mem} (h : m.counters counter = 0) : Reached counter m
  | call {m : Mem} (weights : List (String × Int)) (available : List Provider) (h : Reached counter m) :
    Reached counter (selectRoundRobin counter weights available m).2

theorem exists_reached (counter : Nat) (a b : Provider) {c : Nat} (hc : c ≤ resetAt) :
    ∃ m, Reached counter m ∧ m.counters counter = c := by
  induction c with
  | zero => exact ⟨⟨fun _ => ⟨[], 0, 0⟩, fun _ => 0, 0⟩, .start rfl, rfl⟩
  | succ c ih =>
    obtain ⟨m, hm, hcount⟩ := ih (by omega)
    have hmax : (c : Int) < 2 ^ 62 := by
      unfold resetAt at hc
      omega
    have hnext := (selectRoundRobin_spec [] (by simp : 2 ≤ [a, b].length) hcount hmax).2
    rw [if_neg (by omega)] at hnext
    exact ⟨_, .call [] [a, b] hm, hnext⟩

/-! ## Fair windows -/

/-- As many calls as the weights add up to select every provider as often as its weight says, for each time it is
listed. -/
def Fair (counter : Nat) (weights : List (String × Int)) (available : List Provider) (m : Mem) : Prop :=
  ∀ p, (selected counter weights available (totalWeight weights available) m).count (some p) =
    available.count p * weight weights p

/-- From the reset on, so many calls take the positions 0, 0, 1, 2 and so on, instead of one billion, one billion and one
and so on. The providers are the same. -/
def SameFromReset (slice : List Provider) (calls : Nat) : Prop :=
  ((List.range calls).map fun j => atPosition slice (countOf (resetAt + j))).Perm
    ((List.range calls).map fun j => atPosition slice (resetAt + j))

instance (slice : List Provider) (calls : Nat) : Decidable (SameFromReset slice calls) :=
  inferInstanceAs (Decidable (List.Perm _ _))

/-- How many of the next calls come from the reset on, the call that makes it among them. -/
def callsFromReset (counter : Int) (calls : Nat) : Nat := min counter.toNat resetAt + calls - resetAt

theorem atPosition_ne_none {slice : List Provider} (h : slice ≠ []) (i : Nat) : atPosition slice i ≠ none := by
  have hlen : 0 < slice.length := List.length_pos_iff.2 h
  rw [atPosition, List.getElem?_eq_getElem (Nat.mod_lt i hlen)]
  simp

theorem weightedProviders_of_pos (h : ∃ p ∈ available, 0 < getWeight weights p.name) :
    buildWeightedList weights available ≠ [] ∧ weightedProviders weights available = buildWeightedList weights available := by
  obtain ⟨p, hp, hpos⟩ := h
  have hmem : p ∈ buildWeightedList weights available := by
    rw [buildWeightedList_eq, List.mem_flatMap]
    refine ⟨p, hp, List.mem_replicate.2 ⟨?_, rfl⟩⟩
    unfold weight
    omega
  have hne := List.ne_nil_of_mem hmem
  refine ⟨hne, ?_⟩
  unfold weightedProviders
  dsimp only
  rw [if_neg (by simpa using hne)]

theorem window_perm_iff (slice : List Provider) {c : Nat} (hc : c ≤ resetAt) :
    ((List.range slice.length).map fun i => atPosition slice (countOf (c + i))).Perm (slice.map some) ↔
      SameFromReset slice (c + slice.length - resetAt) := by
  have hbefore : (List.range (min (resetAt - c) slice.length)).map (fun i => atPosition slice (countOf (c + i))) =
      (List.range (min (resetAt - c) slice.length)).map fun i => atPosition slice (c + i) := by
    refine List.map_congr_left fun i hi => ?_
    rw [List.mem_range] at hi
    have hcount : countOf (c + i) = c + i := by
      unfold countOf
      unfold resetAt at hi ⊢
      omega
    rw [hcount]
  have hcalls : slice.length - (resetAt - c) = c + slice.length - resetAt := by omega
  have hfrom : ∀ j, c + (resetAt - c + j) = resetAt + j := by omega
  have hall := map_atPosition_perm slice c
  rw [range_split (resetAt - c) slice.length] at hall ⊢
  rw [List.map_append, List.map_map, hcalls] at hall ⊢
  rw [hbefore]
  simp only [Function.comp_def, hfrom] at hall ⊢
  exact (List.Perm.congr_right hall.symm _).trans (List.perm_append_left_iff _)

/-- The next calls are fair exactly when those from the reset on take the same providers as if the counter had been
counting on; a window that ends before the reset has no such calls. -/
theorem roundRobin_fair_iff {counter : Nat} {m : Mem} (h2 : 2 ≤ available.length)
    (hpos : ∃ p ∈ available, 0 < getWeight weights p.name) (h0 : 0 ≤ m.counters counter)
    (hmax : m.counters counter < 2 ^ 62) :
    Fair counter weights available m ↔
      SameFromReset (buildWeightedList weights available)
        (callsFromReset (m.counters counter) (totalWeight weights available)) := by
  obtain ⟨c, hc⟩ := Int.eq_ofNat_of_zero_le h0
  obtain ⟨hne, hweighted⟩ := weightedProviders_of_pos hpos
  rw [hc] at hmax ⊢
  have hlen := length_buildWeightedList weights available
  have hselected := selected_eq weights (totalWeight weights available) h2 hc hmax
  rw [hweighted, ← hlen] at hselected
  have hnone : none ∉ selected counter weights available (buildWeightedList weights available).length m := by
    rw [hselected, List.mem_map]
    rintro ⟨i, -, hi⟩
    exact atPosition_ne_none hne _ hi
  rw [callsFromReset, Int.toNat_natCast, ← hlen, ← window_perm_iff _ (Nat.min_le_right _ _), ← hselected,
    List.perm_iff_count, Fair, ← hlen]
  constructor
  · intro hfair o
    cases o with
    | none => rw [List.count_eq_zero.2 hnone, List.count_eq_zero.2 (by simp)]
    | some p =>
      rw [hfair p, List.count_map_of_injective _ _ (fun _ _ => Option.some.inj), count_buildWeightedList]
  · intro hcount p
    rw [hcount (some p), List.count_map_of_injective _ _ (fun _ _ => Option.some.inj), count_buildWeightedList]

def openai : Provider := ⟨0, "openai", true⟩

def anthropic : Provider := ⟨1, "anthropic", true⟩

theorem roundRobin_fair_early :
    Fair 0 [("openai", 2)] [openai, anthropic] ⟨fun _ => ⟨[], 0, 0⟩, fun _ => 5, 0⟩ := by
  refine (roundRobin_fair_iff (by decide) ⟨openai, by decide, by decide⟩ (by decide) (by decide)).2 ?_
  decide

/-- When the counter is at one billion, two calls in a row select the first of two providers. -/
theorem roundRobin_unfair_at_reset : ∃ m, Reached 0 m ∧ ¬ Fair 0 [] [openai, anthropic] m := by
  obtain ⟨m, hm, hcount⟩ := exists_reached 0 openai anthropic (Nat.le_refl resetAt)
  refine ⟨m, hm, fun hfair => ?_⟩
  have hselected := selected_eq [] 2 (by decide : 2 ≤ [openai, anthropic].length) hcount (by decide)
  have htwice : selected 0 [] [openai, anthropic] 2 m = [some openai, some openai] := by
    rw [hselected]
    decide
  have hopenai := hfair openai
  rw [show totalWeight [] [openai, anthropic] = 2 by decide, htwice] at hopenai
  exact absurd hopenai (by decide)

end Jupiter.Routing.Strategy
