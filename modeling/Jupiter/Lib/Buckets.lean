/-
Bucketed running totals: a fixed number of time-stamped buckets, each holding the amount recorded in one interval of
time. Stamp `0` marks an empty bucket. Recording finds the bucket of its stamp, or takes an empty one, or overwrites the
oldest; pruning empties the buckets stamped before a cutoff; the total is over the non-empty buckets.
-/
import Mathlib.Algebra.Order.BigOperators.Group.List
import Mathlib.Tactic.Linarith

namespace Jupiter.Lib.Buckets

/-- The amount recorded in the interval that starts at `timestamp`. -/
structure Bucket (α : Type) where
  timestamp : Int
  amount : α
  deriving DecidableEq, Repr

section Operations

variable {α : Type} [Zero α] [Add α]

def Bucket.empty : Bucket α := ⟨0, 0⟩

def prune (cutoff : Int) (bs : List (Bucket α)) : List (Bucket α) :=
  bs.map fun b => if b.timestamp ≠ 0 ∧ b.timestamp < cutoff then .empty else b

def total (bs : List (Bucket α)) : α :=
  bs.foldl (fun sum b => if b.timestamp = 0 then sum else sum + b.amount) 0

/-- The index of the first bucket with the smallest stamp, starting from a candidate `best` at
index `bestIdx`; `i` is the index of the head of the list. -/
def oldestFrom (best : Int) (bestIdx i : Nat) : List (Bucket α) → Nat
  | [] => bestIdx
  | b :: bs =>
    if b.timestamp < best then oldestFrom b.timestamp i (i + 1) bs else oldestFrom best bestIdx (i + 1) bs

def oldestIdx : List (Bucket α) → Nat
  | [] => 0
  | b :: bs => oldestFrom b.timestamp 0 1 bs

def findStamp (stamp : Int) (bs : List (Bucket α)) : Option Nat := bs.findIdx? fun b => b.timestamp == stamp

def freeSlot (bs : List (Bucket α)) : Nat :=
  match findStamp 0 bs with
  | some i => i
  | none => oldestIdx bs

/-- The bucket stamped `stamp`: its index, and the buckets with a new one put in the free slot when
there is none yet. -/
def findOrCreate (stamp : Int) (bs : List (Bucket α)) : Nat × List (Bucket α) :=
  match findStamp stamp bs with
  | some i => (i, bs)
  | none => (freeSlot bs, bs.set (freeSlot bs) ⟨stamp, 0⟩)

def addAt (i : Nat) (amount : α) (bs : List (Bucket α)) : List (Bucket α) :=
  bs.modify i fun b => { b with amount := b.amount + amount }

def record (stamp : Int) (amount : α) (bs : List (Bucket α)) : List (Bucket α) :=
  let (i, bs') := findOrCreate stamp bs
  addAt i amount bs'

def NonNeg [LE α] (bs : List (Bucket α)) : Prop := ∀ b ∈ bs, 0 ≤ b.amount

end Operations

section Sizes

variable {α : Type} {bs : List (Bucket α)}

@[simp] theorem length_prune [Zero α] (cutoff : Int) (bs : List (Bucket α)) :
    (prune cutoff bs).length = bs.length := by
  simp [prune]

@[simp] theorem length_addAt [Add α] (i : Nat) (amount : α) (bs : List (Bucket α)) :
    (addAt i amount bs).length = bs.length := by
  simp [addAt]

theorem findStamp_lt {stamp : Int} {i : Nat} (h : findStamp stamp bs = some i) :
    i < bs.length :=
  (List.findIdx?_eq_some_iff_getElem.1 h).1

theorem oldestFrom_lt {best : Int} {bestIdx i : Nat} (bs : List (Bucket α)) (h : bestIdx < i) :
    oldestFrom best bestIdx i bs < i + bs.length := by
  induction bs generalizing best bestIdx i with
  | nil => simpa [oldestFrom] using h
  | cons b bs ih =>
    unfold oldestFrom
    rw [List.length_cons, Nat.add_comm bs.length, ← Nat.add_assoc]
    split
    · exact ih (Nat.lt_succ_self i)
    · exact ih (Nat.lt_succ_of_lt h)

theorem freeSlot_lt (h : 0 < bs.length) : freeSlot bs < bs.length := by
  unfold freeSlot
  split
  · rename_i i hi; exact findStamp_lt hi
  · cases bs with
    | nil => cases h
    | cons b bs =>
      rw [List.length_cons, Nat.add_comm]
      exact oldestFrom_lt bs Nat.zero_lt_one

end Sizes

section Empty

variable {α : Type} [Zero α] {bs : List (Bucket α)}

theorem prune_of_empty (h : ∀ b ∈ bs, b = .empty) (c : Int) : prune c bs = bs := by
  unfold prune
  conv_rhs => rw [← List.map_id bs]
  apply List.map_congr_left
  intro b hb
  rw [h b hb]
  simp [Bucket.empty]

theorem total_of_empty [Add α] (h : ∀ b ∈ bs, b = .empty) : total bs = 0 := by
  unfold total
  induction bs with
  | nil => rfl
  | cons b bs ih =>
    rw [List.foldl_cons, h b List.mem_cons_self]
    exact ih fun c hc => h c (List.mem_cons_of_mem _ hc)

end Empty

section Bounds

variable {α : Type} [AddCommMonoid α]

def Bucket.share (b : Bucket α) : α := if b.timestamp = 0 then 0 else b.amount

theorem foldl_share (bs : List (Bucket α)) : ∀ init : α,
    bs.foldl (fun sum b => if b.timestamp = 0 then sum else sum + b.amount) init =
      init + (bs.map Bucket.share).sum := by
  induction bs with
  | nil => intro init; simp
  | cons b bs ih =>
    intro init
    rw [List.foldl_cons, ih, List.map_cons, List.sum_cons]
    by_cases h : b.timestamp = 0
    · simp [Bucket.share, h]
    · simp [Bucket.share, h, add_assoc]

theorem total_eq_sum (bs : List (Bucket α)) : total bs = (bs.map Bucket.share).sum := by
  unfold total; rw [foldl_share, zero_add]

@[simp] theorem share_empty : (Bucket.empty : Bucket α).share = 0 := by simp [Bucket.share, Bucket.empty]

theorem total_replicate_empty (n : Nat) : total (List.replicate n (Bucket.empty : Bucket α)) = 0 := by
  rw [total_eq_sum]; simp

theorem prune_prune {c c' : Int} (hc : c ≤ c') (bs : List (Bucket α)) : prune c' (prune c bs) = prune c' bs := by
  unfold prune
  rw [List.map_map]
  apply List.map_congr_left
  intro b _
  simp only [Function.comp]
  by_cases h : b.timestamp ≠ 0 ∧ b.timestamp < c
  · rw [if_pos h, if_pos (⟨h.1, lt_of_lt_of_le h.2 hc⟩ : b.timestamp ≠ 0 ∧ b.timestamp < c')]
    simp [Bucket.empty]
  · rw [if_neg h]

variable [PartialOrder α] {bs : List (Bucket α)}

theorem share_nonneg {b : Bucket α} (h : 0 ≤ b.amount) : 0 ≤ b.share := by
  unfold Bucket.share; split
  · exact le_refl 0
  · exact h

theorem prune_nonneg {cutoff : Int} (h : NonNeg bs) : NonNeg (prune cutoff bs) := by
  intro b hb
  obtain ⟨c, hc, rfl⟩ := List.mem_map.1 hb
  split
  · exact le_refl 0
  · exact h c hc

theorem replicate_nonneg (n : Nat) : NonNeg (List.replicate n (Bucket.empty : Bucket α)) := by
  intro b hb
  rw [List.eq_of_mem_replicate hb]; exact le_refl 0

theorem set_nonneg {stamp : Int} (h : NonNeg bs) (i : Nat) :
    NonNeg (bs.set i ⟨stamp, 0⟩) := by
  intro b hb
  rcases List.mem_or_eq_of_mem_set hb with hb | rfl
  · exact h b hb
  · exact le_refl 0

variable [IsOrderedAddMonoid α]

theorem total_nonneg (h : NonNeg bs) : 0 ≤ total bs := by
  rw [total_eq_sum]
  refine List.sum_nonneg fun x hx => ?_
  obtain ⟨b, hb, rfl⟩ := List.mem_map.1 hx
  exact share_nonneg (h b hb)

theorem total_le_of_forall₂ {bs cs : List (Bucket α)}
    (h : List.Forall₂ (fun b c => b.share ≤ c.share) bs cs) : total bs ≤ total cs := by
  rw [total_eq_sum, total_eq_sum]
  induction h with
  | nil => exact le_refl _
  | cons hbc _ ih => simpa using add_le_add hbc ih

theorem total_prune_le (c : Int) (h : NonNeg bs) : total (prune c bs) ≤ total bs := by
  apply total_le_of_forall₂
  unfold prune
  rw [List.forall₂_map_left_iff, List.forall₂_same]
  intro b hb
  split
  · rw [share_empty]; exact share_nonneg (h b hb)
  · exact le_refl _

theorem total_prune_anti {c c' : Int} (hc : c ≤ c') (h : NonNeg bs) :
    total (prune c' bs) ≤ total (prune c bs) := by
  rw [← prune_prune hc bs]
  exact total_prune_le c' (prune_nonneg h)

theorem total_addAt_le (amount : α) (h0 : 0 ≤ amount) : ∀ (i : Nat) (bs : List (Bucket α)),
    total (addAt i amount bs) ≤ total bs + amount := by
  intro i bs
  rw [total_eq_sum, total_eq_sum]
  unfold addAt
  induction bs generalizing i with
  | nil => simpa using h0
  | cons b bs ih =>
    cases i with
    | zero =>
      rw [List.modify_zero_cons, List.map_cons, List.sum_cons, List.map_cons, List.sum_cons, add_right_comm]
      gcongr
      unfold Bucket.share
      by_cases hz : b.timestamp = 0
      · simpa [hz] using h0
      · simp [hz]
    | succ i =>
      rw [List.modify_succ_cons, List.map_cons, List.sum_cons, List.map_cons, List.sum_cons, add_assoc]
      gcongr
      exact ih i

theorem addAt_nonneg {amount : α} (h0 : 0 ≤ amount) {i : Nat} (h : NonNeg bs) :
    NonNeg (addAt i amount bs) := by
  intro b hb
  obtain ⟨j, hj, rfl⟩ := List.getElem_of_mem hb
  unfold addAt at hj ⊢
  rw [List.getElem_modify]
  have hj' : j < bs.length := by simpa using hj
  split
  · exact add_nonneg (h _ (List.getElem_mem hj')) h0
  · exact h _ (List.getElem_mem hj')

theorem total_set_le (stamp : Int) (h : NonNeg bs) (i : Nat) :
    total (bs.set i ⟨stamp, 0⟩) ≤ total bs := by
  apply total_le_of_forall₂
  induction bs generalizing i with
  | nil => exact .nil
  | cons b bs ih =>
    have hb : 0 ≤ b.share := share_nonneg (h b (List.mem_cons_self ..))
    have hbs : NonNeg bs := fun c hc => h c (List.mem_cons_of_mem _ hc)
    cases i with
    | zero => exact .cons (by simpa [Bucket.share] using hb) (List.forall₂_same.2 fun _ _ => le_refl _)
    | succ i => exact .cons (le_refl _) (ih hbs i)

end Bounds

end Jupiter.Lib.Buckets
