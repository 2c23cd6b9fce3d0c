/-
The `Debouncer` of `pkg/policy/manager/watcher.go`, with its timers and one call of `Stop`.

A timer that fires starts a goroutine, which looks at `stopCh`, then reads the stored callback under the lock, and then
calls it. `Trigger` stops a timer that has not fired; a goroutine that has started it cannot stop.

A callback goes by the number of its `Trigger`. The last four fields of the state are read by no code.
-/
import Jupiter.Go.Time
import Jupiter.Lib.Machine
import Mathlib.Data.List.Basic

namespace Jupiter.Manager

open Jupiter.Go Jupiter.Lib

/-- Where the goroutine of a timer is: before its `select`, before the lock, or before the call. -/
inductive TimerTask
  | fired
  | passed
  | read (callback : Nat)
  deriving DecidableEq

/-- The start of a callback: when, after how many `Trigger`s, the time of the latest, whether `Stop` had returned. -/
structure CallbackStart where
  callback : Nat
  at_ : Time
  triggers : Nat
  since : Time
  afterStop : Bool

structure Debouncer where
  now : Time := 0
  callback : Option Nat := none
  /-- When the timer will fire, unless it is stopped or has fired. -/
  timer : Option Time := none
  tasks : List TimerTask := []
  stopCh : Bool := false
  stopped : Bool := false
  triggers : Nat := 0
  since : Time := 0
  starts : List CallbackStart := []
  /-- The `Trigger`s after which the interval passed before the next one, or before `Stop` was called. -/
  quiet : List Nat := []

inductive DebouncerStep
  | trigger (now : Time)
  | fire (now : Time)
  | select (i : Nat)
  | read (i : Nat)
  | start (i : Nat) (now : Time)
  /-- `Stop`, which first closes `stopCh` and then takes the lock. -/
  | stop (now : Time)
  | stopReturns

namespace Debouncer

variable (interval : Duration)

def noteQuiet (d : Debouncer) (now : Time) : List Nat :=
  if d.stopCh = false ∧ 0 < d.triggers ∧ d.since + interval ≤ now then d.triggers :: d.quiet else d.quiet

def step (d : Debouncer) : DebouncerStep → Option Debouncer
  | .trigger now =>
    if d.now ≤ now then
      some { d with now, callback := some (d.triggers + 1), timer := some (now + interval), triggers := d.triggers + 1,
                    since := now, quiet := d.noteQuiet interval now }
    else none
  | .fire now =>
    match d.timer with
    | some due =>
      if d.now ≤ now ∧ due ≤ now then some { d with now, timer := none, tasks := d.tasks ++ [.fired] } else none
    | none => none
  | .select i =>
    if d.tasks[i]? = some .fired then
      some { d with tasks := if d.stopCh then d.tasks.eraseIdx i else d.tasks.set i .passed }
    else none
  | .read i =>
    if d.tasks[i]? = some .passed then
      some { d with tasks := match d.callback with
                      | some callback => d.tasks.set i (.read callback)
                      | none => d.tasks.eraseIdx i }
    else none
  | .start i now =>
    match d.tasks[i]? with
    | some (.read callback) =>
      if d.now ≤ now then
        some { d with now, tasks := d.tasks.eraseIdx i,
                      starts := ⟨callback, now, d.triggers, d.since, d.stopped⟩ :: d.starts }
      else none
    | _ => none
  | .stop now =>
    if d.now ≤ now ∧ d.stopCh = false then some { d with now, stopCh := true, quiet := d.noteQuiet interval now }
    else none
  | .stopReturns =>
    if d.stopCh = true ∧ d.stopped = false then some { d with timer := none, callback := none, stopped := true }
    else none

def started (d : Debouncer) : List Nat := d.starts.map (·.callback)

def Settled (d : Debouncer) : Prop := d.timer = none ∧ d.tasks = []

/-- What debouncing promises of everything that has happened so far. -/
structure Debounced (d : Debouncer) : Prop where
  onTime : ∀ x ∈ d.starts, x.callback = x.triggers ∧ x.since + interval ≤ x.at_
  beforeStop : ∀ x ∈ d.starts, x.afterStop = false
  once : d.started.Nodup
  quiet : ∀ k ∈ d.quiet, k ∈ d.started
  settled : d.stopCh = false → 0 < d.triggers → d.Settled → d.triggers ∈ d.started

/-- Until `Stop` is called, a `Trigger` comes, and `Stop` is called, only when no timer is due and no goroutine of one
is on its way to its callback. -/
def Undisturbed (d : Debouncer) : DebouncerStep → Prop
  | .trigger now | .stop now => d.stopCh = false → (∀ due, d.timer = some due → now < due) ∧ d.tasks = []
  | _ => True

def DebouncerStep.own : DebouncerStep → Prop
  | .trigger _ | .stop _ | .stopReturns => False
  | _ => True

/-! ## Undisturbed runs -/

/-- Until `Stop` is called, the latest callback waits for its timer, is on its way or has been started. -/
inductive Situation (d : Debouncer) : Prop
  | unused (hnone : d.triggers = 0) (htimer : d.timer = none) (htasks : d.tasks = [])
  | armed (hcallback : d.callback = some d.triggers) (htimer : d.timer = some (d.since + interval))
      (htasks : d.tasks = []) (hnew : d.triggers ∉ d.started)
  | running (task : TimerTask) (hcallback : d.callback = some d.triggers) (htimer : d.timer = none)
      (htasks : d.tasks = [task]) (hread : ∀ k, task = .read k → k = d.triggers) (hdue : d.since + interval ≤ d.now)
      (hnew : d.triggers ∉ d.started)
  | done (htimer : d.timer = none) (htasks : d.tasks = []) (hdone : d.triggers ∈ d.started)

structure Inv (d : Debouncer) : Prop where
  debounced : d.Debounced interval
  known : ∀ k ∈ d.started, k ≤ d.triggers
  stopped : d.stopCh = false → d.stopped = false
  situation : d.stopCh = false → d.Situation interval
  leaving : d.stopCh = true → ∀ task ∈ d.tasks, task = .fired

variable {interval} {d d' : Debouncer}

theorem inv_new : Inv interval {} where
  debounced := ⟨by simp, by simp, by simp [started], by simp, by simp⟩
  known := by simp [started]
  stopped _ := rfl
  situation _ := .unused rfl rfl rfl
  leaving := by simp

/-- When the next `Trigger` or `Stop` comes undisturbed, the interval has passed only if the callback was started. -/
theorem Inv.noteQuiet (h : Inv interval d) {now : Time}
    (hok : d.stopCh = false → (∀ due, d.timer = some due → now < due) ∧ d.tasks = []) :
    ∀ k ∈ d.noteQuiet interval now, k ∈ d.started := by
  unfold Debouncer.noteQuiet
  split
  · rename_i hquiet
    obtain ⟨hopen, hpos, hdue⟩ := hquiet
    obtain ⟨htimer, htasks⟩ := hok hopen
    refine List.forall_mem_cons.2 ⟨?_, h.debounced.quiet⟩
    cases h.situation hopen with
    | unused hnone => omega
    | armed _ harmed => exact absurd (htimer _ harmed) (Int.not_lt.2 hdue)
    | running task _ _ hrunning =>
      rw [hrunning] at htasks
      cases htasks
    | done _ _ hdone => exact hdone
  · exact h.debounced.quiet

/-- Before `Stop` is called at most one goroutine is on its way, to the latest callback. -/
theorem Inv.running (h : Inv interval d) (hopen : d.stopCh = false) {i : Nat} {task : TimerTask}
    (hi : d.tasks[i]? = some task) :
    i = 0 ∧ d.tasks = [task] ∧ d.callback = some d.triggers ∧ d.timer = none ∧ (∀ k, task = .read k → k = d.triggers) ∧
      d.since + interval ≤ d.now ∧ d.triggers ∉ d.started := by
  cases h.situation hopen with
  | unused _ _ htasks | armed _ _ htasks | done _ htasks =>
    rw [htasks] at hi
    cases hi
  | running task' hcallback htimer htasks hread hdue hnew =>
    rw [htasks] at hi
    cases i with
    | succ i => cases hi
    | zero =>
      cases hi
      exact ⟨rfl, htasks, hcallback, htimer, hread, hdue, hnew⟩

theorem Inv.open_of_task (h : Inv interval d) {i : Nat} {task : TimerTask} (hi : d.tasks[i]? = some task)
    (htask : task ≠ .fired) : d.stopCh = false := by
  cases hch : d.stopCh with
  | false => rfl
  | true => exact absurd (h.leaving hch task (List.mem_of_getElem? hi)) htask

theorem Inv.moved (h : Inv interval d) (hopen : d.stopCh = false) {i : Nat} {task next : TimerTask}
    (hi : d.tasks[i]? = some task) (hnext : ∀ k, next = .read k → k = d.triggers) :
    Inv interval { d with tasks := d.tasks.set i next } := by
  obtain ⟨rfl, htasks, hcallback, htimer, -, hdue, hnew⟩ := h.running hopen hi
  rw [htasks]
  refine ⟨⟨h.debounced.1, h.debounced.2, h.debounced.3, h.debounced.4, ?_⟩, h.known, h.stopped,
    fun _ => .running next hcallback htimer rfl hnext hdue hnew, fun hch => ?_⟩
  · rintro - - ⟨-, hnone⟩
    cases hnone
  · cases hopen.symm.trans hch

/-- Once `stopCh` is closed, goroutines can only leave. -/
theorem Inv.closed (h : Inv interval d) (hch : d'.stopCh = true) (hstarts : d'.starts = d.starts)
    (htriggers : d'.triggers = d.triggers) (hquiet : ∀ k ∈ d'.quiet, k ∈ d.started)
    (htasks : ∀ task ∈ d'.tasks, task = .fired) : Inv interval d' := by
  have hopen {P : Prop} (hopen : d'.stopCh = false) : P := by cases hch.symm.trans hopen
  have hstarted : d'.started = d.started := congrArg (List.map CallbackStart.callback) hstarts
  exact ⟨⟨hstarts ▸ h.debounced.1, hstarts ▸ h.debounced.2, hstarted ▸ h.debounced.3, hstarted ▸ hquiet, hopen⟩,
    hstarted ▸ htriggers ▸ h.known, hopen, hopen, fun _ => htasks⟩

theorem Inv.step (h : Inv interval d) {l : DebouncerStep} (hok : d.Undisturbed l)
    (hstep : d.step interval l = some d') : Inv interval d' := by
  obtain ⟨⟨honTime, hbefore, honce, hquiet, hsettled⟩, hknown, hstopped, hsituation, hleaving⟩ := id h
  cases l <;> simp only [Debouncer.step, Option.ite_none_right_eq_some, Option.some.injEq] at hstep
  case trigger now =>
    obtain ⟨-, rfl⟩ := hstep
    have hnew : d.triggers + 1 ∉ d.started := fun hmem => absurd (hknown _ hmem) (by omega)
    refine ⟨⟨honTime, hbefore, honce, h.noteQuiet hok, ?_⟩, fun k hk => Nat.le_succ_of_le (hknown k hk), hstopped,
      fun hopen => .armed rfl rfl (hok hopen).2 hnew, hleaving⟩
    rintro - - ⟨htimer, -⟩
    cases htimer
  case fire now =>
    split at hstep
    · rename_i due hdue
      simp only [Option.ite_none_right_eq_some, Option.some.injEq] at hstep
      obtain ⟨⟨-, hnow⟩, rfl⟩ := hstep
      refine ⟨⟨honTime, hbefore, honce, hquiet, ?_⟩, hknown, hstopped, fun hopen => ?_, fun hclosed => ?_⟩
      · rintro - - ⟨-, htasks⟩
        simp at htasks
      · cases hsituation hopen with
        | unused _ htimer | running _ _ htimer | done htimer =>
          rw [htimer] at hdue
          cases hdue
        | armed hcallback htimer htasks hnew =>
          cases htimer.symm.trans hdue
          exact .running .fired hcallback rfl (by simp [htasks]) (by simp) hnow hnew
      · simpa [or_imp, forall_and] using hleaving hclosed
    · cases hstep
  case select i =>
    obtain ⟨hi, rfl⟩ := hstep
    rcases Bool.eq_false_or_eq_true d.stopCh with hch | hch
    · rw [if_pos hch]
      exact h.closed hch rfl rfl hquiet fun task htask => hleaving hch task (List.mem_of_mem_eraseIdx htask)
    · rw [if_neg (Bool.not_eq_true _ ▸ hch)]
      exact h.moved hch hi (by rintro k ⟨⟩)
  case read i =>
    obtain ⟨hi, rfl⟩ := hstep
    have hopen := h.open_of_task hi (by simp)
    obtain ⟨-, -, hcallback, -⟩ := h.running hopen hi
    split
    · rename_i callback heq
      cases heq.symm.trans hcallback
      exact h.moved hopen hi (by rintro k ⟨⟩; rfl)
    · rename_i heq
      cases heq.symm.trans hcallback
  case start i now =>
    split at hstep
    · rename_i callback hi
      simp only [Option.ite_none_right_eq_some, Option.some.injEq] at hstep
      obtain ⟨hnow, rfl⟩ := hstep
      have hopen := h.open_of_task hi (by simp)
      obtain ⟨rfl, htasks, -, htimer, hread, hdue, hnew⟩ := h.running hopen hi
      obtain rfl := hread callback rfl
      refine ⟨⟨?_, ?_, List.nodup_cons.2 ⟨hnew, honce⟩, ?_, ?_⟩, ?_, hstopped, ?_, ?_⟩
      · exact List.forall_mem_cons.2 ⟨⟨rfl, Int.le_trans hdue hnow⟩, honTime⟩
      · exact List.forall_mem_cons.2 ⟨hstopped hopen, hbefore⟩
      · exact fun k hk => List.mem_cons_of_mem _ (hquiet k hk)
      · exact fun _ _ _ => List.mem_cons_self
      · exact List.forall_mem_cons.2 ⟨Nat.le_refl _, hknown⟩
      · exact fun _ => .done htimer (by rw [htasks]; rfl) List.mem_cons_self
      · intro hch
        cases hopen.symm.trans hch
    · cases hstep
  case stop now =>
    obtain ⟨⟨-, hopen⟩, rfl⟩ := hstep
    refine h.closed rfl rfl rfl (h.noteQuiet hok) fun task htask => ?_
    rw [show d.tasks = [] from (hok hopen).2] at htask
    cases htask
  case stopReturns =>
    obtain ⟨⟨hch, -⟩, rfl⟩ := hstep
    exact h.closed hch rfl rfl hquiet (hleaving hch)

def begun (d : Debouncer) (now : Time) : Debouncer :=
  { d with now, timer := none, tasks := [], starts := ⟨d.triggers, now, d.triggers, d.since, d.stopped⟩ :: d.starts }

/-- The timer and its goroutine can go on until the latest callback has been started. -/
theorem Inv.exists_settled (h : Inv interval d) (hopen : d.stopCh = false) :
    ∃ ls d', (∀ l ∈ ls, DebouncerStep.own l) ∧ run (Debouncer.step interval) d ls = some d' ∧ d'.Settled ∧
      d'.triggers = d.triggers := by
  cases h.situation hopen with
  | unused _ htimer htasks | done htimer htasks => exact ⟨[], d, by simp, rfl, ⟨htimer, htasks⟩, rfl⟩
  | armed hcallback htimer htasks =>
    obtain ⟨now, hlate⟩ : ∃ now : Time, d.now ≤ now ∧ d.since + interval ≤ now :=
      ⟨max d.now (d.since + interval), Int.le_max_left .., Int.le_max_right ..⟩
    refine ⟨[.fire now, .select 0, .read 0, .start 0 now], d.begun now, by simp [DebouncerStep.own], ?_, ⟨rfl, rfl⟩,
      rfl⟩
    simp [Debouncer.step, begun, htimer, htasks, hcallback, hopen, hlate]
  | running task hcallback htimer htasks hread =>
    refine ⟨match task with
      | .fired => [.select 0, .read 0, .start 0 d.now]
      | .passed => [.read 0, .start 0 d.now]
      | .read _ => [.start 0 d.now], d.begun d.now, ?_, ?_, ⟨rfl, rfl⟩, rfl⟩
    · cases task <;> simp [DebouncerStep.own]
    · cases task <;> simp [Debouncer.step, begun, htimer, htasks, hcallback, hopen]
      exact hread _ rfl

/-- In every undisturbed run callbacks start when they should, and what is on its way to one can get there. -/
theorem debounced_of_undisturbed (labels : List DebouncerStep) (hok : Meets (step interval) Undisturbed {} labels)
    (hrun : run (step interval) {} labels = some d) :
    d.Debounced interval ∧ (d.stopCh = false → ∃ ls d', (∀ l ∈ ls, DebouncerStep.own l) ∧
      run (step interval) d ls = some d' ∧ d'.Settled ∧ d'.triggers = d.triggers) := by
  have hinv : Inv interval d :=
    run_invariant_of_meets (fun _ _ _ h hl hstep => h.step hl hstep) labels {} d inv_new hok hrun
  exact ⟨hinv.debounced, hinv.exists_settled⟩

def twoTriggers : List DebouncerStep :=
  [.trigger 0, .trigger 5, .fire 15, .select 0, .read 0, .start 0 16, .stop 20, .stopReturns]

theorem debounced_twoTriggers : ∃ d, run (step 10) {} twoTriggers = some d ∧ d.started = [2] ∧ d.Debounced 10 := by
  refine ⟨_, rfl, rfl, (debounced_of_undisturbed twoTriggers ?_ rfl).1⟩
  simp [twoTriggers, Meets, step, Undisturbed]

/-- A `Trigger` between the firing of a timer and its goroutine's look at the callback, and a `Stop` between that look
and the call. -/
theorem callback_starts_early_or_after_stop :
    (∃ d, run (step 10) {} [.trigger 0, .fire 10, .select 0, .trigger 11, .read 0, .start 0 11] = some d ∧
      ¬ d.Debounced 10) ∧
    ∃ d, run (step 10) {} [.trigger 0, .fire 10, .select 0, .read 0, .stop 11, .stopReturns, .start 0 12] = some d ∧
      ¬ d.Debounced 10 := by
  refine ⟨⟨_, rfl, fun h => ?_⟩, _, rfl, fun h => ?_⟩
  · exact absurd (h.onTime _ List.mem_cons_self).2 (by decide)
  · exact absurd (h.beforeStop _ List.mem_cons_self) (by decide)

end Debouncer

end Jupiter.Manager
