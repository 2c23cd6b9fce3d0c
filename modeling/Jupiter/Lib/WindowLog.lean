/-
What the buckets of a window hold of everything that was recorded.

A window of `span = n * size` has `n` buckets, each for one interval of length `size`. A call at a time prunes what is
stamped more than `span` before it, and may record an amount.

Hence at every time a bucket holds all that was recorded in its interval, and whatever has no bucket any more was
recorded in an interval that started at least `span` ago (`Tracks`).
-/
import Jupiter.Lib.Buckets
import Mathlib.Data.Int.Interval

namespace Jupiter.Lib.Buckets

/-! ## Logs -/

section Log

variable {α : Type} [AddCommMonoid α]

def recorded (p : Int → Bool) (log : List (Int × α)) : α := ((log.filter fun e => p e.1).map Prod.snd).sum

variable {p q : Int → Bool} {log : List (Int × α)}

theorem recorded_cons (p : Int → Bool) (e : Int × α) (log : List (Int × α)) :
    recorded p (e :: log) = (if p e.1 then e.2 else 0) + recorded p log := by
  unfold recorded
  cases h : p e.1 <;> simp [h]

theorem recorded_append_singleton (p : Int → Bool) (log : List (Int × α)) (e : Int × α) :
    recorded p (log ++ [e]) = recorded p log + if p e.1 then e.2 else 0 := by
  unfold recorded
  cases h : p e.1 <;> simp [h]

theorem recorded_eq_zero (h : ∀ e ∈ log, p e.1 = false) : recorded p log = 0 := by
  have hnil : log.filter (fun e => p e.1) = [] := List.filter_eq_nil_iff.2 fun e he => by simp [h e he]
  rw [recorded, hnil]
  rfl

theorem recorded_or (h : ∀ e ∈ log, p e.1 = true → q e.1 = false) :
    recorded (fun t => p t || q t) log = recorded p log + recorded q log := by
  induction log with
  | nil => exact (add_zero 0).symm
  | cons e log ih =>
    have htail := ih fun x hx => h x (List.mem_cons_of_mem _ hx)
    rw [recorded_cons, recorded_cons, recorded_cons, htail]
    cases hp : p e.1 with
    | true => simp [h e List.mem_cons_self hp, add_assoc]
    | false => simp [add_left_comm]

theorem recorded_nonneg [PartialOrder α] [IsOrderedAddMonoid α] (hlog : ∀ e ∈ log, 0 ≤ e.2) : 0 ≤ recorded p log := by
  refine List.sum_nonneg fun x hx => ?_
  obtain ⟨e, he, rfl⟩ := List.mem_map.1 hx
  exact hlog e (List.mem_of_mem_filter he)

theorem recorded_mono [PartialOrder α] [IsOrderedAddMonoid α] (hlog : ∀ e ∈ log, 0 ≤ e.2)
    (h : ∀ e ∈ log, p e.1 = true → q e.1 = true) : recorded p log ≤ recorded q log := by
  induction log with
  | nil => exact le_rfl
  | cons e log ih =>
    rw [recorded_cons, recorded_cons]
    refine add_le_add ?_ (ih (fun x hx => hlog x (List.mem_cons_of_mem _ hx))
      fun x hx => h x (List.mem_cons_of_mem _ hx))
    cases hp : p e.1 with
    | true => rw [if_pos rfl, if_pos (h e List.mem_cons_self hp)]
    | false =>
      rw [if_neg Bool.false_ne_true]
      split
      · exact hlog e List.mem_cons_self
      · exact le_rfl

end Log

/-! ## Recording into a bucket -/

section Record

variable {α : Type} {bs : List (Bucket α)}

theorem oldestFrom_le (c : Bucket α) (bs pre : List (Bucket α)) {bestIdx : Nat} (hbest : bestIdx < pre.length)
    (hc : pre.get ⟨bestIdx, hbest⟩ = c) (hpre : ∀ d ∈ pre, c.timestamp ≤ d.timestamp) :
    ∃ h : oldestFrom c.timestamp bestIdx pre.length bs < (pre ++ bs).length,
      ∀ d ∈ pre ++ bs, ((pre ++ bs).get ⟨_, h⟩).timestamp ≤ d.timestamp := by
  induction bs generalizing c pre bestIdx with
  | nil =>
    rw [List.append_nil]
    exact ⟨hbest, fun d hd => hc ▸ hpre d hd⟩
  | cons b bs ih =>
    have hsplit : pre ++ b :: bs = pre ++ [b] ++ bs := by simp
    have hlen : (pre ++ [b]).length = pre.length + 1 := by simp
    rw [oldestFrom, hsplit, ← hlen]
    by_cases hb : b.timestamp < c.timestamp
    · rw [if_pos hb]
      refine ih b (pre ++ [b]) (by simp) (by simp) fun d hd => ?_
      rcases List.mem_append.1 hd with hd | hd
      · exact hb.le.trans (hpre d hd)
      · rw [List.mem_singleton.1 hd]
    · rw [if_neg hb]
      refine ih c (pre ++ [b]) (by simp; omega) ?_ fun d hd => ?_
      · simpa [List.getElem_append_left hbest] using hc
      · rcases List.mem_append.1 hd with hd | hd
        · exact hpre d hd
        · rw [List.mem_singleton.1 hd]
          exact not_lt.1 hb

theorem oldestIdx_le (hne : bs ≠ []) :
    ∃ h : oldestIdx bs < bs.length, ∀ d ∈ bs, (bs.get ⟨_, h⟩).timestamp ≤ d.timestamp := by
  cases bs with
  | nil => exact absurd rfl hne
  | cons b bs => exact oldestFrom_le b bs [b] Nat.zero_lt_one rfl fun d hd => (List.mem_singleton.1 hd).symm ▸ le_rfl

theorem findStamp_eq_some {stamp : Int} {i : Nat} (h : findStamp stamp bs = some i) :
    ∃ hi : i < bs.length, (bs.get ⟨i, hi⟩).timestamp = stamp := by
  obtain ⟨hi, hstamp, -⟩ := List.findIdx?_eq_some_iff_getElem.1 h
  exact ⟨hi, by simpa using hstamp⟩

theorem findStamp_eq_none {stamp : Int} : findStamp stamp bs = none ↔ ∀ c ∈ bs, c.timestamp ≠ stamp := by
  simp only [findStamp, List.findIdx?_eq_none_iff, beq_eq_false_iff_ne]

theorem freeSlot_spec (hne : bs ≠ []) :
    ∃ h : freeSlot bs < bs.length, (bs.get ⟨_, h⟩).timestamp = 0 ∨
      ∀ c ∈ bs, c.timestamp ≠ 0 ∧ (bs.get ⟨_, h⟩).timestamp ≤ c.timestamp := by
  unfold freeSlot
  split
  · rename_i i hi
    obtain ⟨hlt, hstamp⟩ := findStamp_eq_some hi
    exact ⟨hlt, .inl hstamp⟩
  · rename_i hnone
    obtain ⟨hlt, hmin⟩ := oldestIdx_le hne
    exact ⟨hlt, .inr fun c hc => ⟨findStamp_eq_none.1 hnone c hc, hmin c hc⟩⟩

variable [Zero α] [Add α]

/-- An amount for the stamp goes to bucket `i`, which holds `base` for it so far: the bucket with the stamp or, if there
is none, an empty one or the oldest. -/
def Receives (stamp : Int) (bs : List (Bucket α)) (i : Fin bs.length) (base : α) : Prop :=
  bs.get i = ⟨stamp, base⟩ ∨
    (∀ c ∈ bs, c.timestamp ≠ stamp) ∧ base = 0 ∧
      ((bs.get i).timestamp = 0 ∨ ∀ c ∈ bs, c.timestamp ≠ 0 ∧ (bs.get i).timestamp ≤ c.timestamp)

theorem record_eq_set (stamp : Int) (amount : α) (hne : bs ≠ []) :
    ∃ i base, Receives stamp bs i base ∧ record stamp amount bs = bs.set i ⟨stamp, base + amount⟩ := by
  unfold record findOrCreate
  cases hf : findStamp stamp bs with
  | some i =>
    obtain ⟨hi, hstamp⟩ := findStamp_eq_some hf
    refine ⟨⟨i, hi⟩, (bs.get ⟨i, hi⟩).amount, .inl ?_, ?_⟩
    · rw [← hstamp]
    · show addAt i amount bs = _
      rw [addAt, List.modify_eq_set_get _ hi, ← hstamp]
  | none =>
    obtain ⟨hi, hslot⟩ := freeSlot_spec hne
    refine ⟨⟨freeSlot bs, hi⟩, 0, .inr ⟨findStamp_eq_none.1 hf, rfl, hslot⟩, ?_⟩
    show addAt (freeSlot bs) amount (bs.set (freeSlot bs) ⟨stamp, 0⟩) = _
    rw [addAt, List.modify_eq_set_get _ (by rwa [List.length_set]), List.set_set, List.get_eq_getElem,
      List.getElem_set_self]

end Record

/-! ## Stamps -/

def stampOf (size time : Int) : Int := time - time % size

section Stamp

variable {size : Int}

theorem dvd_stampOf (size time : Int) : size ∣ stampOf size time := Int.dvd_self_sub_emod

theorem stampOf_le (hsize : 0 < size) (time : Int) : stampOf size time ≤ time := by
  have := Int.emod_nonneg time hsize.ne'
  unfold stampOf
  omega

theorem lt_stampOf_add (hsize : 0 < size) (time : Int) : time < stampOf size time + size := by
  have := Int.emod_lt_of_pos time hsize
  unfold stampOf
  omega

theorem stampOf_pos (hsize : 0 < size) {time : Int} (h : size ≤ time) : 0 < stampOf size time := by
  have := lt_stampOf_add hsize time
  omega

theorem add_le_stampOf (hsize : 0 < size) {s time : Int} (hs : size ∣ s) (hle : s ≤ time)
    (hne : s ≠ stampOf size time) : s + size ≤ stampOf size time := by
  obtain ⟨a, rfl⟩ := hs
  obtain ⟨b, hb⟩ := dvd_stampOf size time
  have hlt := lt_stampOf_add hsize time
  rw [hb] at hne hlt ⊢
  have hab : a < b := by
    have h1 : size * a < size * (b + 1) := by rw [mul_add, mul_one]; omega
    have h2 : a < b + 1 := lt_of_mul_lt_mul_left h1 hsize.le
    have h3 : a ≠ b := fun h => hne (by rw [h])
    omega
  calc size * a + size = size * (a + 1) := (mul_add_one size a).symm
    _ ≤ size * b := mul_le_mul_of_nonneg_left hab hsize.le

end Stamp

def Distinct {α : Type} (bs : List (Bucket α)) : Prop :=
  bs.Pairwise fun c d => c.timestamp = d.timestamp → c.timestamp = 0

section Distinct

variable {α : Type} {bs : List (Bucket α)}

theorem Distinct.eq_of_stamp (h : Distinct bs) {i j : Nat} (hi : i < bs.length) (hj : j < bs.length)
    (heq : (bs.get ⟨i, hi⟩).timestamp = (bs.get ⟨j, hj⟩).timestamp) (hne : (bs.get ⟨i, hi⟩).timestamp ≠ 0) : i = j := by
  have hpair := List.pairwise_iff_getElem.1 h
  rcases Nat.lt_trichotomy i j with hij | hij | hij
  · exact absurd (hpair i j hi hj hij heq) hne
  · exact hij
  · exact absurd (hpair j i hj hi hij heq.symm) (heq ▸ hne)

theorem Distinct.set (h : Distinct bs) {i : Nat} {c : Bucket α}
    (hother : ∀ j (hj : j < bs.length), j ≠ i → (bs.get ⟨j, hj⟩).timestamp ≠ c.timestamp) :
    Distinct (bs.set i c) := by
  refine List.pairwise_iff_getElem.2 fun j k hj hk hjk => ?_
  rw [List.length_set] at hj hk
  rw [List.getElem_set, List.getElem_set]
  split
  · rename_i hji
    rw [if_neg (by omega)]
    exact fun heq => absurd heq.symm (hother k hk (by omega))
  · rename_i hji
    split
    · exact fun heq => absurd heq (hother j hj (Ne.symm hji))
    · exact List.pairwise_iff_getElem.1 h j k hj hk hjk

theorem Distinct.oldest_le (h : Distinct bs) {size oldest top : Int} (hsize : 0 < size)
    (hoccupied : ∀ c ∈ bs, c.timestamp ≠ 0) (hdvd : ∀ c ∈ bs, size ∣ c.timestamp) (htop : size ∣ top)
    (hold : size ∣ oldest) (hrange : ∀ c ∈ bs, oldest ≤ c.timestamp ∧ c.timestamp + size ≤ top) (hne : bs ≠ []) :
    oldest + bs.length * size ≤ top := by
  obtain ⟨lo, rfl⟩ := hold
  obtain ⟨hi, rfl⟩ := htop
  have hquot : ∀ c ∈ bs, c.timestamp = size * (c.timestamp / size) := fun c hc =>
    (Int.mul_ediv_cancel' (hdvd c hc)).symm
  have hnodup : (bs.map fun c => c.timestamp / size).Nodup := by
    refine List.pairwise_map.2 (h.imp_of_mem fun {c d} hc hd hcd heq => hoccupied c hc (hcd ?_))
    rw [hquot c hc, hquot d hd, heq]
  have hsub : (bs.map fun c => c.timestamp / size).toFinset ⊆ Finset.Ico lo hi := by
    intro x hx
    obtain ⟨c, hc, rfl⟩ := List.mem_map.1 (List.mem_toFinset.1 hx)
    obtain ⟨hlow, hhigh⟩ := hrange c hc
    rw [hquot c hc] at hlow hhigh
    have hlow' := le_of_mul_le_mul_left hlow hsize
    have hhigh' : c.timestamp / size + 1 ≤ hi := le_of_mul_le_mul_left (by rw [mul_add, mul_one]; exact hhigh) hsize
    exact Finset.mem_Ico.2 ⟨hlow', by omega⟩
  have hcard := Finset.card_le_card hsub
  rw [List.toFinset_card_of_nodup hnodup, List.length_map, Int.card_Ico] at hcard
  have hpos : 0 < bs.length := List.length_pos_iff.2 hne
  have hle : (bs.length : Int) ≤ hi - lo := by omega
  calc size * lo + bs.length * size = size * (lo + bs.length) := by rw [mul_add, mul_comm size (bs.length : Int)]
    _ ≤ size * hi := mul_le_mul_of_nonneg_left (by omega) hsize.le

end Distinct

/-! ## Buckets that track a log -/

section Tracks

variable {α : Type} [AddCommMonoid α]

/-- At the time `now`, a window of `span` with buckets of `size` against the log of all that was recorded. -/
structure Tracks (span size now : Int) (log : List (Int × α)) (bs : List (Bucket α)) : Prop where
  distinct : Distinct bs
  dvd : ∀ c ∈ bs, size ∣ c.timestamp
  le_now : ∀ c ∈ bs, c.timestamp ≠ 0 → c.timestamp ≤ now
  amount : ∀ c ∈ bs, c.timestamp ≠ 0 → c.amount = recorded (fun t => stampOf size t == c.timestamp) log
  /-- Every entry has its bucket, or its interval started at least `span` ago. -/
  live : ∀ e ∈ log, (∃ c ∈ bs, c.timestamp = stampOf size e.1) ∨ stampOf size e.1 ≤ now - span
  /-- Entries are at least one interval after the zero time, which marks an empty bucket. -/
  late : ∀ e ∈ log, size ≤ e.1

variable {span size now time : Int} {log : List (Int × α)} {bs : List (Bucket α)}

theorem tracks_empty (n : Nat) : Tracks span size now ([] : List (Int × α)) (List.replicate n .empty) where
  distinct := List.pairwise_replicate.2 (.inr fun _ => rfl)
  dvd c hc := by rw [List.eq_of_mem_replicate hc]; exact dvd_zero size
  le_now c hc hne := by rw [List.eq_of_mem_replicate hc] at hne; exact absurd rfl hne
  amount c hc hne := by rw [List.eq_of_mem_replicate hc] at hne; exact absurd rfl hne
  live e he := absurd he List.not_mem_nil
  late e he := absurd he List.not_mem_nil

theorem mem_prune {cutoff : Int} {c : Bucket α} (hc : c ∈ prune cutoff bs) (hne : c.timestamp ≠ 0) :
    c ∈ bs ∧ cutoff ≤ c.timestamp := by
  obtain ⟨d, hd, heq⟩ := List.mem_map.1 hc
  split at heq
  · rw [← heq] at hne
    exact absurd rfl hne
  · rename_i hkept
    rw [heq] at hd hkept
    exact ⟨hd, not_lt.1 fun hlt => hkept ⟨hne, hlt⟩⟩

theorem prune_ne_nil {cutoff : Int} (h : bs ≠ []) : prune cutoff bs ≠ [] :=
  fun hnil => h (List.map_eq_nil_iff.1 hnil)

theorem Distinct.prune (h : Distinct bs) (cutoff : Int) : Distinct (prune cutoff bs) := by
  refine List.pairwise_map.2 (h.imp fun {c d} hcd heq => ?_)
  split
  · rfl
  · rename_i hc
    rw [if_neg hc] at heq
    split at heq
    · exact heq
    · exact hcd heq

theorem Tracks.mono (h : Tracks span size now log bs) (hle : now ≤ time) : Tracks span size time log bs where
  distinct := h.distinct
  dvd := h.dvd
  le_now c hc hne := (h.le_now c hc hne).trans hle
  amount := h.amount
  live e he := (h.live e he).imp_right fun hold => by omega
  late := h.late

theorem Tracks.prune (h : Tracks span size now log bs) (hle : now ≤ time) :
    Tracks span size time log (prune (time - span) bs) where
  distinct := h.distinct.prune _
  dvd c hc := by
    by_cases hne : c.timestamp = 0
    · rw [hne]
      exact dvd_zero size
    · exact h.dvd c (mem_prune hc hne).1
  le_now c hc hne := (h.le_now c (mem_prune hc hne).1 hne).trans hle
  amount c hc hne := h.amount c (mem_prune hc hne).1 hne
  live e he := by
    rcases h.live e he with ⟨c, hc, hstamp⟩ | hold
    · by_cases hcut : c.timestamp ≠ 0 ∧ c.timestamp < time - span
      · exact .inr (hstamp ▸ hcut.2.le)
      · exact .inl ⟨c, List.mem_map.2 ⟨c, hc, if_neg hcut⟩, hstamp⟩
    · exact .inr (by omega)
  late := h.late

section Record

variable {i : Fin bs.length} {base : α} (hsize : 0 < size) (hlate : size ≤ time)
  (h : Tracks span size time log bs) (hr : Receives (stampOf size time) bs i base)

include hsize hlate h hr

theorem Tracks.stamp_ne_of_receives (j : Nat) (hj : j < bs.length) (hji : j ≠ i) :
    (bs.get ⟨j, hj⟩).timestamp ≠ stampOf size time := by
  intro heq
  rcases hr with hhere | ⟨hnone, -⟩
  · have hstamp : (bs.get i).timestamp = stampOf size time := by rw [hhere]
    have hpos := stampOf_pos hsize hlate
    exact hji (h.distinct.eq_of_stamp hj i.2 (heq.trans hstamp.symm) (by rw [heq]; exact hpos.ne'))
  · exact hnone _ (List.get_mem _ _) heq

theorem Tracks.base_eq_of_receives (hspan : size ≤ span) :
    base = recorded (fun t => stampOf size t == stampOf size time) log := by
  have hpos := stampOf_pos hsize hlate
  rcases hr with hhere | ⟨hnone, hzero, -⟩
  · have hamount := h.amount (bs.get i) (List.get_mem _ _) (by rw [hhere]; exact hpos.ne')
    rwa [hhere] at hamount
  · rw [hzero, recorded_eq_zero]
    intro e he
    refine beq_eq_false_iff_ne.2 fun heq => ?_
    rcases h.live e he with ⟨c, hc, hstamp⟩ | hold
    · exact hnone c hc (hstamp.trans heq)
    · have := lt_stampOf_add hsize time
      omega

theorem Tracks.mem_set_of_receives {c new : Bucket α} (hc : c ∈ bs.set i new) :
    c = new ∨ c ∈ bs ∧ c.timestamp ≠ stampOf size time := by
  obtain ⟨j, hj, rfl⟩ := List.getElem_of_mem hc
  rw [List.length_set] at hj
  rw [List.getElem_set]
  split
  · exact .inl rfl
  · rename_i hij
    exact .inr ⟨List.getElem_mem hj, h.stamp_ne_of_receives hsize hlate hr j hj (Ne.symm hij)⟩

omit hlate in
/-- If a bucket is overwritten, there are as many stamps as fit between the time and the start of the span, so the
oldest is at its very start. -/
theorem Tracks.live_of_receives (hspan : span = bs.length * size) {new : Bucket α}
    (hnew : new.timestamp = stampOf size time) :
    ∀ e ∈ log, (∃ c ∈ bs.set i new, c.timestamp = stampOf size e.1) ∨ stampOf size e.1 ≤ time - span := by
  intro e he
  rcases h.live e he with ⟨c, hc, hstamp⟩ | hold
  · obtain ⟨j, hj, rfl⟩ := List.getElem_of_mem hc
    by_cases hji : i.1 = j
    · obtain rfl : i = ⟨j, hj⟩ := Fin.ext hji
      rcases hr with hhere | ⟨hnone, -, hempty | holdest⟩
      · refine .inl ⟨new, List.mem_set hj new, ?_⟩
        rw [hnew, ← hstamp]
        exact (congrArg Bucket.timestamp hhere).symm
      · exact absurd (hstamp.symm.trans hempty) (stampOf_pos hsize (h.late e he)).ne'
      · right
        have hrange : ∀ c ∈ bs, (bs.get ⟨j, hj⟩).timestamp ≤ c.timestamp ∧ c.timestamp + size ≤ stampOf size time :=
          fun c hc => ⟨(holdest c hc).2,
            add_le_stampOf hsize (h.dvd c hc) (h.le_now c hc (holdest c hc).1) (hnone c hc)⟩
        have hfar := h.distinct.oldest_le hsize (fun c hc => (holdest c hc).1) h.dvd (dvd_stampOf size time)
          (h.dvd _ (List.get_mem bs ⟨j, hj⟩)) hrange (List.ne_nil_of_length_pos (Nat.zero_lt_of_lt hj))
        have hle := stampOf_le hsize time
        rw [← hspan, List.get_eq_getElem, hstamp] at hfar
        omega
    · refine .inl ⟨bs[j], ?_, hstamp⟩
      exact List.mem_iff_getElem.2 ⟨j, by rwa [List.length_set], List.getElem_set_ne hji _⟩
  · exact .inr hold

end Record

theorem Tracks.record (hsize : 0 < size) (hspan : span = bs.length * size) (hne : bs ≠ [])
    (h : Tracks span size time log bs) (hlate : size ≤ time) (amount : α) :
    Tracks span size time (log ++ [(time, amount)]) (record (stampOf size time) amount bs) := by
  obtain ⟨i, base, hr, hrecord⟩ := record_eq_set (stampOf size time) amount hne
  have hspan' : size ≤ span := by
    have hlen : (1 : Int) ≤ bs.length := by exact_mod_cast List.length_pos_iff.2 hne
    rw [hspan]
    exact le_mul_of_one_le_left hsize.le hlen
  rw [hrecord]
  refine ⟨h.distinct.set (h.stamp_ne_of_receives hsize hlate hr), ?_, ?_, ?_, ?_, ?_⟩
  · intro c hc
    rcases h.mem_set_of_receives hsize hlate hr hc with rfl | ⟨hc, -⟩
    · exact dvd_stampOf size time
    · exact h.dvd c hc
  · intro c hc hne
    rcases h.mem_set_of_receives hsize hlate hr hc with rfl | ⟨hc, -⟩
    · exact stampOf_le hsize time
    · exact h.le_now c hc hne
  · intro c hc hne
    rw [recorded_append_singleton]
    rcases h.mem_set_of_receives hsize hlate hr hc with rfl | ⟨hc, hstamp⟩
    · rw [if_pos (beq_self_eq_true _), ← h.base_eq_of_receives hsize hlate hr hspan']
    · rw [if_neg (fun heq => hstamp (eq_of_beq heq).symm), add_zero]
      exact h.amount c hc hne
  · intro e he
    rcases List.mem_append.1 he with he | he
    · exact h.live_of_receives hsize hr hspan rfl e he
    · rw [List.mem_singleton.1 he]
      exact .inl ⟨_, List.mem_set i.2 _, rfl⟩
  · intro e he
    rcases List.mem_append.1 he with he | he
    · exact h.late e he
    · rw [List.mem_singleton.1 he]
      exact hlate

def covers (size : Int) (bs : List (Bucket α)) (t : Int) : Bool :=
  bs.any fun c => decide (c.timestamp ≠ 0) && stampOf size t == c.timestamp

omit [AddCommMonoid α] in
theorem covers_eq_true {t : Int} :
    covers size bs t = true ↔ ∃ c ∈ bs, c.timestamp ≠ 0 ∧ stampOf size t = c.timestamp := by
  simp only [covers, List.any_eq_true, Bool.and_eq_true, decide_eq_true_eq, beq_iff_eq]

theorem total_eq_recorded (hdistinct : Distinct bs)
    (hamount : ∀ c ∈ bs, c.timestamp ≠ 0 → c.amount = recorded (fun t => stampOf size t == c.timestamp) log) :
    total bs = recorded (covers size bs) log := by
  rw [total_eq_sum]
  induction bs with
  | nil => exact (recorded_eq_zero fun _ _ => rfl).symm
  | cons c bs ih =>
    obtain ⟨hhead, htail⟩ := List.pairwise_cons.1 hdistinct
    rw [List.map_cons, List.sum_cons, ih htail fun d hd => hamount d (List.mem_cons_of_mem _ hd)]
    have hcons : covers size (c :: bs) =
        fun t => (decide (c.timestamp ≠ 0) && stampOf size t == c.timestamp) || covers size bs t := rfl
    rw [hcons]
    by_cases hc : c.timestamp = 0
    · simp [Bucket.share, hc]
    · rw [Bucket.share, if_neg hc, hamount c List.mem_cons_self hc, ← recorded_or]
      · simp [hc]
      · intro e _ he
        -- The other buckets have other stamps.
        refine Bool.eq_false_iff.2 fun hcov => ?_
        obtain ⟨d, hd, -, hstamp⟩ := covers_eq_true.1 hcov
        exact hc (hhead d hd ((eq_of_beq he).symm.trans hstamp))

theorem Tracks.total_prune_eq (h : Tracks span size now log bs) (hle : now ≤ time) :
    total (Buckets.prune (time - span) bs) = recorded (covers size (Buckets.prune (time - span) bs)) log :=
  total_eq_recorded (h.prune hle).distinct (h.prune hle).amount

section Order

variable [PartialOrder α] [IsOrderedAddMonoid α]

theorem Tracks.total_prune_le (hsize : 0 < size) (h : Tracks span size now log bs) (hle : now ≤ time)
    (hlog : ∀ e ∈ log, 0 ≤ e.2 ∧ e.1 ≤ time) :
    total (Buckets.prune (time - span) bs) ≤ recorded (fun t => decide (time - span ≤ t ∧ t ≤ time)) log := by
  rw [h.total_prune_eq hle]
  refine recorded_mono (fun e he => (hlog e he).1) fun e he hcov => ?_
  obtain ⟨c, hc, hne, hstamp⟩ := covers_eq_true.1 hcov
  have hcut := (mem_prune hc hne).2
  have hfloor := stampOf_le hsize e.1
  exact decide_eq_true ⟨by omega, (hlog e he).2⟩

/-- Everything is counted that was recorded less than one interval after the start of the span, or later. -/
theorem Tracks.le_total_prune (hsize : 0 < size) (h : Tracks span size now log bs) (hle : now ≤ time)
    (hlog : ∀ e ∈ log, 0 ≤ e.2) :
    recorded (fun t => decide (time - span + size ≤ t)) log ≤ total (Buckets.prune (time - span) bs) := by
  rw [h.total_prune_eq hle]
  refine recorded_mono hlog fun e he hrecent => ?_
  have hceil := lt_stampOf_add hsize e.1
  have hpos := stampOf_pos hsize (h.late e he)
  rcases (h.prune hle).live e he with ⟨c, hc, hstamp⟩ | hold
  · exact covers_eq_true.2 ⟨c, hc, by rw [hstamp]; exact hpos.ne', hstamp.symm⟩
  · have := of_decide_eq_true hrecent
    omega

end Order

end Tracks

/-! ## Runs -/

inductive WindowCall (α : Type) where
  | add (time : Int) (amount : α)
  | sum (time : Int)

namespace WindowCall

variable {α : Type}

def time : WindowCall α → Int
  | .add time _ => time
  | .sum time => time

def entry : WindowCall α → Option (Int × α)
  | .add time amount => some (time, amount)
  | .sum _ => none

def act [Zero α] [Add α] (span size : Int) (bs : List (Bucket α)) : WindowCall α → List (Bucket α)
  | .add time amount => record (stampOf size time) amount (prune (time - span) bs)
  | .sum time => prune (time - span) bs

end WindowCall

def logOf {α : Type} (calls : List (WindowCall α)) : List (Int × α) := calls.filterMap WindowCall.entry

/-- The calls come in the order of their times, the first not within one interval of the zero time. -/
structure Timely {α : Type} (size : Int) (calls : List (WindowCall α)) : Prop where
  ordered : calls.Pairwise fun c d => c.time ≤ d.time
  late : ∀ c ∈ calls, size ≤ c.time

section Runs

variable {α ω : Type} [AddCommMonoid α] {span size : Int}

@[simp] theorem length_act (bs : List (Bucket α)) (c : WindowCall α) : (c.act span size bs).length = bs.length := by
  cases c with
  | sum time => exact length_prune _ _
  | add time amount =>
    have hlen : ∀ (stamp : Int) (cs : List (Bucket α)), (record stamp amount cs).length = cs.length := by
      intro stamp cs
      unfold record findOrCreate
      cases findStamp stamp cs <;> simp
    exact (hlen _ _).trans (length_prune _ _)

/-- A window whose calls act on its buckets as `act` does, whenever the buckets are distinct, tracks its log. `shape` is
what the calls leave alone. -/
theorem tracks_of_run (hsize : 0 < size) (buckets : ω → List (Bucket α)) (apply : ω → WindowCall α → ω)
    (shape : ω → Prop) (hshape : ∀ w c, shape w → shape (apply w c))
    (hact : ∀ w c, shape w → Distinct (buckets w) → size ≤ c.time →
      buckets (apply w c) = c.act span size (buckets w))
    (w : ω) (hw₀ : shape w) (n : Nat) (hn : 0 < n) (hspan : span = n * size)
    (hw : buckets w = List.replicate n .empty)
    (calls : List (WindowCall α)) (hcalls : Timely size calls) (now : Int) (hnow : ∀ c ∈ calls, c.time ≤ now) :
    shape (calls.foldl apply w) ∧ (buckets (calls.foldl apply w)).length = n ∧
      Tracks span size now (logOf calls) (buckets (calls.foldl apply w)) := by
  induction calls using List.reverseRecOn generalizing now with
  | nil =>
    rw [List.foldl_nil, hw]
    exact ⟨hw₀, List.length_replicate, tracks_empty n⟩
  | append_singleton calls c ih =>
    obtain ⟨hordered, -, hlast⟩ := List.pairwise_append.1 hcalls.ordered
    have hlate : size ≤ c.time := hcalls.late c (List.mem_append_right _ (List.mem_singleton_self c))
    have hbefore : ∀ d ∈ calls, d.time ≤ c.time := fun d hd => hlast d hd c (List.mem_singleton_self c)
    obtain ⟨hinv, hlen, htracks⟩ := ih ⟨hordered, fun d hd => hcalls.late d (List.mem_append_left _ hd)⟩ c.time hbefore
    have hnil : buckets (calls.foldl apply w) ≠ [] := fun h => by rw [h] at hlen; exact hn.ne hlen
    have hstep : Tracks span size c.time (logOf (calls ++ [c])) (c.act span size (buckets (calls.foldl apply w))) := by
      rw [logOf, List.filterMap_append]
      cases c with
      | sum time => exact (List.append_nil _).symm ▸ htracks.prune le_rfl
      | add time amount =>
        exact (htracks.prune le_rfl).record hsize (by rw [length_prune, hlen, hspan]) (prune_ne_nil hnil) hlate amount
    have hle : c.time ≤ now := hnow c (List.mem_append_right _ (List.mem_singleton_self c))
    rw [List.foldl_append, List.foldl_cons, List.foldl_nil, hact _ c hinv htracks.distinct hlate]
    exact ⟨hshape _ c hinv, (length_act _ c).trans hlen, hstep.mono hle⟩

end Runs

end Jupiter.Lib.Buckets
