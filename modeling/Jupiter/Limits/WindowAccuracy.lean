/-
How accurate the windows of the rate limits and of the budgets are: the sum at a time lies between what was added less
than the window minus one bucket ago and what was added within the window, over every run of calls.

Both windows act on their buckets as `WindowCall.act` does. The sliding window tries the bucket it created last before
it searches, which finds the same bucket because no two have the same timestamp.
-/
import Jupiter.Lib.WindowLog
import Jupiter.Limits.Budget
import Jupiter.Limits.RateLimit

namespace Jupiter.Limits

open Jupiter.Go Jupiter.Lib.Buckets Jupiter.Limits.RateLimit Jupiter.Limits.Budget

theorem truncate_eq_stampOf {size : Int} (hsize : 0 < size) (now : Time) :
    Time.truncate now size = stampOf size now := by
  rw [Time.truncate, if_neg (not_le.2 hsize)]
  rfl

/-! ## The sliding window -/

def applySliding (sw : SlidingWindow) : WindowCall Int → SlidingWindow
  | .add time value => sw.add time value
  | .sum time => (sw.sum time).2

theorem findStamp_of_get {bs : List (Bucket Int)} (hd : Distinct bs) {stamp : Int} (hne : stamp ≠ 0) {i : Nat}
    (hi : i < bs.length) (h : (bs.get ⟨i, hi⟩).timestamp = stamp) : findStamp stamp bs = some i := by
  cases hf : findStamp stamp bs with
  | none => exact absurd h (findStamp_eq_none.1 hf _ (List.get_mem _ _))
  | some j =>
    obtain ⟨hj, hstamp⟩ := findStamp_eq_some hf
    rw [hd.eq_of_stamp hj hi (hstamp.trans h.symm) (hstamp ▸ hne)]

theorem sliding_add_buckets (sw : SlidingWindow) (now : Time) (value : Int) (hsize : 0 < sw.bucketSize)
    (hd : Distinct sw.buckets) (hne : stampOf sw.bucketSize now ≠ 0) :
    (sw.add now value).buckets =
      record (stampOf sw.bucketSize now) value (prune (now - sw.window) sw.buckets) := by
  have htime : Time.truncate now (sw.pruneLocked now).bucketSize = stampOf sw.bucketSize now :=
    truncate_eq_stampOf hsize now
  have hd' : Distinct (sw.pruneLocked now).buckets := hd.prune _
  unfold SlidingWindow.add SlidingWindow.findOrCreateBucketLocked record findOrCreate
  simp only [htime]
  split
  · rename_i hhead
    rw [show prune (now - sw.window) sw.buckets = (sw.pruneLocked now).buckets from rfl,
      findStamp_of_get hd' hne (sw.pruneLocked now).head_lt hhead]
  · rw [show prune (now - sw.window) sw.buckets = (sw.pruneLocked now).buckets from rfl]
    cases findStamp (stampOf sw.bucketSize now) (sw.pruneLocked now).buckets <;> rfl

theorem sliding_add_shape (sw : SlidingWindow) (now : Time) (value : Int) :
    (sw.add now value).window = sw.window ∧ (sw.add now value).bucketSize = sw.bucketSize := by
  unfold SlidingWindow.add SlidingWindow.findOrCreateBucketLocked
  dsimp only
  split
  · exact ⟨rfl, rfl⟩
  · split <;> exact ⟨rfl, rfl⟩

/-! ## The rolling window -/

def applyRolling (rw : RollingWindow ℚ) : WindowCall ℚ → RollingWindow ℚ
  | .add time amount => rw.add time amount
  | .sum time => (rw.sum time).2

theorem rolling_add_buckets (rw : RollingWindow ℚ) (now : Time) (amount : ℚ) (hsize : 0 < rw.bucketSize) :
    (rw.add now amount).buckets =
      record (stampOf rw.bucketSize now) amount (prune (now - rw.window) rw.buckets) := by
  show record (Time.truncate now rw.bucketSize) _ _ = _
  rw [truncate_eq_stampOf hsize]
  rfl

/-! ## Accuracy -/

/-- The sum at `time` of a window of `span` with buckets of `size`, after the calls. -/
structure Accurate {F : Type} [AddCommMonoid F] [LE F] (span size time : Int) (calls : List (WindowCall F)) (sum : F)
    (buckets : List (Bucket F)) : Prop where
  lower : recorded (fun t => decide (time - span + size ≤ t)) (logOf calls) ≤ sum
  upper : sum ≤ recorded (fun t => decide (time - span ≤ t ∧ t ≤ time)) (logOf calls)
  distinct : Distinct buckets

theorem mem_logOf {F : Type} {calls : List (WindowCall F)} {e : Int × F} (h : e ∈ logOf calls) :
    ∃ c ∈ calls, c.time = e.1 := by
  obtain ⟨c, hc, hentry⟩ := List.mem_filterMap.1 h
  refine ⟨c, hc, ?_⟩
  cases c with
  | add time amount => cases hentry; rfl
  | sum time => cases hentry

theorem Tracks.accurate {F : Type} [AddCommMonoid F] [PartialOrder F] [IsOrderedAddMonoid F] {span size time : Int}
    (hsize : 0 < size) {calls : List (WindowCall F)} {bs : List (Bucket F)}
    (h : Tracks span size time (logOf calls) bs) (htime : ∀ c ∈ calls, c.time ≤ time)
    (hamounts : ∀ e ∈ logOf calls, 0 ≤ e.2) :
    Accurate span size time calls (total (prune (time - span) bs)) bs where
  lower := h.le_total_prune hsize le_rfl hamounts
  upper := h.total_prune_le hsize le_rfl fun e he => ⟨hamounts e he, by
    obtain ⟨c, hc, hce⟩ := mem_logOf he
    exact hce ▸ htime c hc⟩
  distinct := h.distinct

theorem numBuckets_eq {n : Nat} (hn : 0 < n) {size : Int} (hsize : 0 < size) :
    (if (n * size / size).toNat = 0 then 1 else (n * size / size).toNat) = n := by
  rw [Int.mul_ediv_cancel _ hsize.ne', Int.toNat_natCast, if_neg hn.ne']

section Runs

variable {size time : Int} {n : Nat}

theorem sliding_shape (w : SlidingWindow) (c : WindowCall Int) (hw : w.window = n * size ∧ w.bucketSize = size) :
    (applySliding w c).window = n * size ∧ (applySliding w c).bucketSize = size := by
  cases c with
  | add t v =>
    show (w.add t v).window = _ ∧ (w.add t v).bucketSize = _
    rw [(sliding_add_shape w t v).1, (sliding_add_shape w t v).2]
    exact hw
  | sum t => exact hw

theorem sliding_act (hsize : 0 < size) (w : SlidingWindow) (c : WindowCall Int)
    (hw : w.window = n * size ∧ w.bucketSize = size) (hd : Distinct w.buckets) (hlate : size ≤ c.time) :
    (applySliding w c).buckets = c.act (n * size) size w.buckets := by
  obtain ⟨hwindow, hbucket⟩ := hw
  cases c with
  | add t v =>
    have hne : stampOf w.bucketSize t ≠ 0 := hbucket ▸ (stampOf_pos hsize hlate).ne'
    have hadd := sliding_add_buckets w t v (hbucket ▸ hsize) hd hne
    rwa [hwindow, hbucket] at hadd
  | sum t =>
    show prune (t - w.window) w.buckets = _
    rw [hwindow]
    rfl

theorem sliding_tracks (hsize : 0 < size) (hn : 0 < n) {calls : List (WindowCall Int)} (hcalls : Timely size calls)
    (htime : ∀ c ∈ calls, c.time ≤ time) :
    let sw := calls.foldl applySliding (newSlidingWindow (n * size) size)
    sw.window = n * size ∧ Tracks (n * size) size time (logOf calls) sw.buckets := by
  intro sw
  have hnew : (newSlidingWindow (n * size) size).buckets = List.replicate n .empty :=
    congrArg (List.replicate · Bucket.empty) (numBuckets_eq hn hsize)
  obtain ⟨⟨hwindow, -⟩, -, htracks⟩ := tracks_of_run hsize SlidingWindow.buckets applySliding
    (fun w => w.window = n * size ∧ w.bucketSize = size) sliding_shape (sliding_act hsize)
    (newSlidingWindow (n * size) size) ⟨rfl, rfl⟩ n hn rfl hnew calls hcalls time htime
  exact ⟨hwindow, htracks⟩

theorem rolling_act (hsize : 0 < size) (w : RollingWindow ℚ) (c : WindowCall ℚ)
    (hw : w.window = n * size ∧ w.bucketSize = size) :
    (applyRolling w c).buckets = c.act (n * size) size w.buckets := by
  obtain ⟨hwindow, hbucket⟩ := hw
  cases c with
  | add t a =>
    have hadd := rolling_add_buckets w t a (hbucket ▸ hsize)
    rwa [hwindow, hbucket] at hadd
  | sum t =>
    show prune (t - w.window) w.buckets = _
    rw [hwindow]
    rfl

theorem rolling_tracks (hsize : 0 < size) (hn : 0 < n) {calls : List (WindowCall ℚ)} (hcalls : Timely size calls)
    (htime : ∀ c ∈ calls, c.time ≤ time) :
    let rw := calls.foldl applyRolling (newRollingWindow (n * size) size)
    rw.window = n * size ∧ Tracks (n * size) size time (logOf calls) rw.buckets := by
  intro rw
  have hnew : (newRollingWindow (n * size) size : RollingWindow ℚ).buckets = List.replicate n .empty :=
    congrArg (List.replicate · Bucket.empty) (numBuckets_eq hn hsize)
  obtain ⟨⟨hwindow, -⟩, -, htracks⟩ := tracks_of_run hsize RollingWindow.buckets applyRolling
    (fun w => w.window = n * size ∧ w.bucketSize = size) (fun w c hw => by cases c <;> exact hw)
    (fun w c hw _ _ => rolling_act hsize w c hw) (newRollingWindow (n * size) size) ⟨rfl, rfl⟩ n hn rfl hnew calls
    hcalls time htime
  exact ⟨hwindow, htracks⟩

end Runs

/-- The sums of both windows, for a window of `n` buckets and calls at least one bucket size after the zero time. What was
added within the sliding window has to fit an `int64`. -/
theorem window_accuracy (size : Int) (hsize : 0 < size) (n : Nat) (hn : 0 < n) :
    (∀ calls : List (WindowCall Int), Timely size calls → (∀ e ∈ logOf calls, 0 ≤ e.2) →
      ∀ time, (∀ c ∈ calls, c.time ≤ time) →
        recorded (fun t => decide (time - n * size ≤ t ∧ t ≤ time)) (logOf calls) < 2 ^ 63 →
        let sw := calls.foldl applySliding (newSlidingWindow (n * size) size)
        Accurate (n * size) size time calls (sw.sum time).1 sw.buckets) ∧
    ∀ calls : List (WindowCall ℚ), Timely size calls → (∀ e ∈ logOf calls, 0 ≤ e.2) →
      ∀ time, (∀ c ∈ calls, c.time ≤ time) →
        let rw := calls.foldl applyRolling (newRollingWindow (n * size) size)
        Accurate (n * size) size time calls (rw.sum time).1 rw.buckets := by
  refine ⟨?_, ?_⟩
  · intro calls hcalls hamounts time htime hfits sw
    obtain ⟨hwindow, htracks⟩ := sliding_tracks hsize hn hcalls htime
    have haccurate := Tracks.accurate hsize htracks htime hamounts
    have hheld : sw.held time = total (prune (time - n * size) sw.buckets) := by
      rw [← hwindow]
      rfl
    rw [← hheld] at haccurate
    have hnonneg := (recorded_nonneg hamounts).trans haccurate.lower
    rw [show (sw.sum time).1 = sw.held time from
      wrap64_of_range (by omega) (haccurate.upper.trans_lt hfits)]
    exact haccurate
  · intro calls hcalls hamounts time htime rw
    obtain ⟨hwindow, htracks⟩ := rolling_tracks hsize hn hcalls htime
    have hsum : (rw.sum time).1 = total (prune (time - n * size) rw.buckets) := by
      rw [← hwindow]
      rfl
    rw [hsum]
    exact Tracks.accurate hsize htracks htime hamounts

theorem minute_window_accuracy :
    let calls : List (WindowCall Int) := [.add (10 * Duration.second) 3, .add (11 * Duration.second) 4]
    let sw := calls.foldl applySliding (newSlidingWindow Duration.minute Duration.second)
    4 ≤ (sw.sum (70 * Duration.second)).1 ∧ (sw.sum (70 * Duration.second)).1 ≤ 7 := by
  intro calls sw
  have h := (window_accuracy Duration.second (by decide) 60 (by decide)).1 calls
    ⟨by simp [calls, WindowCall.time, Duration.second], by simp [calls, WindowCall.time, Duration.second]⟩
    (by simp [calls, logOf, WindowCall.entry]) (70 * Duration.second)
    (by simp [calls, WindowCall.time, Duration.second]) (by decide +kernel)
  exact ⟨h.lower, h.upper⟩

/-- An addition one nanosecond after the zero time goes to the bucket of the zero time, which is not counted. -/
theorem first_bucket_not_counted :
    let sw := (newSlidingWindow Duration.minute Duration.second).add 1 5
    let rw := (newRollingWindow Duration.hour Duration.minute : RollingWindow ℚ).add 1 5
    recorded (fun t => decide (1 - Duration.minute + Duration.second ≤ t)) [((1 : Int), (5 : Int))] = 5 ∧
      (sw.sum 1).1 = 0 ∧
      recorded (fun t => decide (1 - Duration.hour + Duration.minute ≤ t)) [((1 : Int), (5 : ℚ))] = 5 ∧
      (rw.sum 1).1 = 0 := by
  decide +kernel

end Jupiter.Limits
