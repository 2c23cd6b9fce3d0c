/-
`pkg/limits/budget`: the rolling window and the three-window budget tracker.

Amounts are `float64` in the source. The model leaves their type open: a linear order with a zero and with addition,
subtraction and division about which nothing is assumed (`NaN` is left out).

Every call takes the instant at which the source reads `time.Now()` and returns the new state.
-/
import Jupiter.Go.Time
import Jupiter.Lib.Buckets

namespace Jupiter.Limits.Budget

open Jupiter.Go Jupiter.Lib.Buckets

/-! ## The rolling window -/

structure RollingWindow (F : Type) where
  window : Duration
  bucketSize : Duration
  buckets : List (Bucket F)

section Window

variable {F : Type} [Zero F] [Add F]

def newRollingWindow (window bucketSize : Duration) : RollingWindow F :=
  let numBuckets := (window / bucketSize).toNat
  { window, bucketSize, buckets := List.replicate (if numBuckets = 0 then 1 else numBuckets) .empty }

namespace RollingWindow

def pruneLocked (rw : RollingWindow F) (now : Time) : RollingWindow F :=
  { rw with buckets := prune (now - rw.window) rw.buckets }

def add (rw : RollingWindow F) (now : Time) (amount : F) : RollingWindow F :=
  let rw := rw.pruneLocked now
  { rw with buckets := record (Time.truncate now rw.bucketSize) amount rw.buckets }

def sum (rw : RollingWindow F) (now : Time) : F × RollingWindow F :=
  let rw := rw.pruneLocked now
  (total rw.buckets, rw)

/-- `OldestTimestamp`: the smallest stamp of a non-empty bucket, the zero time if there is none. -/
def oldestTimestamp (rw : RollingWindow F) : Time :=
  rw.buckets.foldl (fun oldest b =>
    if Time.isZero b.timestamp then oldest
    else if Time.isZero oldest ∨ b.timestamp < oldest then b.timestamp else oldest) 0

end RollingWindow

end Window

/-! ## The tracker -/

structure Config (F : Type) where
  hourly : F
  daily : F
  monthly : F
  alertThreshold : F

structure Status (F : Type) [Zero F] where
  allowed : Bool
  reason : String := ""
  limit : F := 0
  used : F := 0
  remaining : F := 0
  percentage : F := 0
  reset : Time := 0
  window : Duration := 0
  alertTriggered : Bool := false

/-- `budget.Tracker`. A window is there exactly when its limit is positive. -/
structure Tracker (F : Type) [Zero F] [LT F] where
  config : Config F
  hourly : Option (RollingWindow F)
  daily : Option (RollingWindow F)
  monthly : Option (RollingWindow F)
  totalSpent : F
  hourly_iff : hourly.isSome ↔ 0 < config.hourly
  daily_iff : daily.isSome ↔ 0 < config.daily
  monthly_iff : monthly.isSome ↔ 0 < config.monthly

section Tracker

variable {F : Type} [LinearOrder F] [Zero F] [Add F] [Sub F] [Div F]

omit [Add F] [Sub F] [Div F] in
theorem isSome_if_pos (limit : F) (rw : RollingWindow F) :
    (if 0 < limit then some rw else none).isSome ↔ 0 < limit := by
  split <;> simp [*]

def newTracker (config : Config F) : Tracker F where
  config := config
  hourly := if 0 < config.hourly then some (newRollingWindow Duration.hour Duration.minute) else none
  daily := if 0 < config.daily then some (newRollingWindow (24 * Duration.hour) Duration.hour) else none
  monthly := if 0 < config.monthly then
    some (newRollingWindow (30 * 24 * Duration.hour) (24 * Duration.hour)) else none
  totalSpent := 0
  hourly_iff := isSome_if_pos _ _
  daily_iff := isSome_if_pos _ _
  monthly_iff := isSome_if_pos _ _

namespace Tracker

def add (t : Tracker F) (now : Time) (amount : F) : Tracker F :=
  { t with
    hourly := t.hourly.map (·.add now amount)
    daily := t.daily.map (·.add now amount)
    monthly := t.monthly.map (·.add now amount)
    totalSpent := t.totalSpent + amount
    hourly_iff := by rw [Option.isSome_map]; exact t.hourly_iff
    daily_iff := by rw [Option.isSome_map]; exact t.daily_iff
    monthly_iff := by rw [Option.isSome_map]; exact t.monthly_iff }

def calculateReset (now : Time) (window : RollingWindow F) : Time :=
  let oldest := window.oldestTimestamp
  if Time.isZero oldest then now else oldest + window.window

/-- The block of `Check` for one window: a verdict if the window is over its limit or at the alert
threshold, and the window, pruned by `Sum`. -/
def checkWindow (threshold : F) (now : Time) (reason : String) (span : Duration) (limit : F)
    (window : Option (RollingWindow F)) : Option (Status F) × Option (RollingWindow F) :=
  match window with
  | none => (none, none)
  | some rw =>
    if 0 < limit then
      let (used, rw) := rw.sum now
      let percentage := used / limit
      if limit < used then
        (some { allowed := false, reason, limit, used, percentage, reset := calculateReset now rw,
                window := span }, some rw)
      else if 0 < threshold ∧ threshold ≤ percentage then
        (some { allowed := true, limit, used, remaining := limit - used, percentage,
                reset := calculateReset now rw, window := span, alertTriggered := true }, some rw)
      else (none, some rw)
    else (none, some rw)

theorem isSome_checkWindow (threshold : F) (now : Time) (reason : String) (span : Duration) (limit : F)
    (window : Option (RollingWindow F)) :
    (checkWindow threshold now reason span limit window).2.isSome = window.isSome := by
  unfold checkWindow
  split
  · rfl
  · split
    · simp only []
      split
      · rfl
      · split <;> rfl
    · rfl

def check (t : Tracker F) (now : Time) : Status F × Tracker F :=
  let hourly := checkWindow t.config.alertThreshold now "hourly budget limit exceeded" Duration.hour
    t.config.hourly t.hourly
  let t := { t with hourly := hourly.2, hourly_iff := by rw [isSome_checkWindow]; exact t.hourly_iff }
  match hourly.1 with
  | some status => (status, t)
  | none =>
    let daily := checkWindow t.config.alertThreshold now "daily budget limit exceeded" (24 * Duration.hour)
      t.config.daily t.daily
    let t := { t with daily := daily.2, daily_iff := by rw [isSome_checkWindow]; exact t.daily_iff }
    match daily.1 with
    | some status => (status, t)
    | none =>
      let monthly := checkWindow t.config.alertThreshold now "monthly budget limit exceeded"
        (30 * 24 * Duration.hour) t.config.monthly t.monthly
      let t := { t with monthly := monthly.2, monthly_iff := by rw [isSome_checkWindow]; exact t.monthly_iff }
      match monthly.1 with
      | some status => (status, t)
      | none => ({ allowed := true }, t)

@[simp] theorem check_config (t : Tracker F) (now : Time) : (t.check now).2.config = t.config := by
  unfold check
  simp only []
  split
  · rfl
  · split
    · rfl
    · split <;> rfl

omit [Sub F] [Div F] in
@[simp] theorem add_config (t : Tracker F) (now : Time) (amount : F) : (t.add now amount).config = t.config := rfl

end Tracker

end Tracker

end Jupiter.Limits.Budget
