/-
When the budget verdict is right: `Tracker.Check` against what the windows hold.

The tracker walks its windows from the shortest to the longest and returns at the first one that is over its limit or at
the alert threshold.
-/
import Jupiter.Limits.Manager

namespace Jupiter.Limits

open Jupiter.Go Jupiter.Limits.Budget

/-- One configured window: its limit and what its `Sum` is. -/
structure Load (F : Type) where
  limit : F
  used : F

section Verdict

variable {F : Type} [LinearOrder F] [Zero F] [Div F]

namespace Load

def Over (w : Load F) : Prop := w.limit < w.used

def Alerts (threshold : F) (w : Load F) : Prop := 0 < threshold ∧ threshold ≤ w.used / w.limit

instance (w : Load F) : Decidable w.Over := inferInstanceAs (Decidable (_ < _))

instance (threshold : F) (w : Load F) : Decidable (w.Alerts threshold) := inferInstanceAs (Decidable (_ ∧ _))

end Load

/-- The verdict of the walk: the first window that is over its limit or alerts decides. -/
def walk (threshold : F) : List (Load F) → Bool
  | [] => true
  | w :: ws => if w.Over then false else if w.Alerts threshold then true else walk threshold ws

/-- Some window alerts, neither it nor a window before it is over its limit, and one after it is. -/
def AlertHides (threshold : F) (ws : List (Load F)) : Prop :=
  ∃ pre v post, ws = pre ++ v :: post ∧ (∀ u ∈ pre, ¬ u.Over) ∧ ¬ v.Over ∧ v.Alerts threshold ∧
    ∃ u ∈ post, u.Over

theorem alertHides_cons_of_alerts {threshold : F} {w : Load F} {ws : List (Load F)} (hw : ¬ w.Over)
    (ha : w.Alerts threshold) : AlertHides threshold (w :: ws) ↔ ∃ u ∈ ws, u.Over := by
  constructor
  · rintro ⟨pre, v, post, heq, _, _, _, u, hu, ho⟩
    refine ⟨u, ?_, ho⟩
    -- the window after the alerting one is never the head
    cases pre with
    | nil => cases heq; exact hu
    | cons p pre =>
      obtain ⟨_, rfl⟩ := List.cons.inj heq
      exact List.mem_append_right _ (List.mem_cons_of_mem _ hu)
  · rintro ⟨u, hu, ho⟩
    exact ⟨[], w, ws, rfl, by simp, hw, ha, u, hu, ho⟩

theorem alertHides_cons_of_quiet {threshold : F} {w : Load F} {ws : List (Load F)} (hw : ¬ w.Over)
    (ha : ¬ w.Alerts threshold) : AlertHides threshold (w :: ws) ↔ AlertHides threshold ws := by
  constructor
  · rintro ⟨pre, v, post, heq, hpre, hv, hva, hpost⟩
    cases pre with
    | nil => cases heq; exact absurd hva ha
    | cons p pre =>
      obtain ⟨_, rfl⟩ := List.cons.inj heq
      exact ⟨pre, v, post, rfl, fun u hu => hpre u (List.mem_cons_of_mem _ hu), hv, hva, hpost⟩
  · rintro ⟨pre, v, post, rfl, hpre, hv, hva, hpost⟩
    refine ⟨w :: pre, v, post, rfl, ?_, hv, hva, hpost⟩
    intro u hu
    rcases List.mem_cons.1 hu with rfl | hu
    · exact hw
    · exact hpre u hu

theorem not_alertHides_cons_of_over {threshold : F} {w : Load F} {ws : List (Load F)} (hw : w.Over) :
    ¬ AlertHides threshold (w :: ws) := by
  rintro ⟨pre, v, post, heq, hpre, hv, _⟩
  cases pre with
  | nil => cases heq; exact hv hw
  | cons p pre => cases heq; exact hpre w (List.mem_cons_self ..) hw

theorem walk_iff (threshold : F) : ∀ ws : List (Load F),
    (walk threshold ws = true ↔ ∀ w ∈ ws, ¬ w.Over) ↔ ¬ AlertHides threshold ws
  | [] => by
    have hno : ¬ AlertHides threshold ([] : List (Load F)) := by
      rintro ⟨pre, v, post, heq, _⟩; exact absurd heq (by simp)
    simp [walk, hno]
  | w :: ws => by
    unfold walk
    by_cases hw : w.Over
    · have hnot : ¬ AlertHides threshold (w :: ws) := not_alertHides_cons_of_over hw
      simp [hw, hnot]
    · by_cases ha : w.Alerts threshold
      · rw [alertHides_cons_of_alerts hw ha]
        simp [hw, ha]
      · rw [alertHides_cons_of_quiet hw ha, ← walk_iff threshold ws]
        simp [hw, ha]

/-! ## The tracker walks its configured windows -/

variable [Add F] [Sub F]

def loadOf (limit : F) (window : Option (RollingWindow F)) (now : Time) : List (Load F) :=
  window.toList.map fun rw => ⟨limit, (rw.sum now).1⟩

def Budget.Tracker.loads (t : Tracker F) (now : Time) : List (Load F) :=
  loadOf t.config.hourly t.hourly now ++
    (loadOf t.config.daily t.daily now ++ loadOf t.config.monthly t.monthly now)

theorem walk_checkWindow (threshold : F) (now : Time) (reason : String) (span : Duration) {limit : F}
    {window : Option (RollingWindow F)} (h : window.isSome ↔ 0 < limit) (rest : List (Load F)) :
    walk threshold (loadOf limit window now ++ rest) =
      match (Tracker.checkWindow threshold now reason span limit window).1 with
      | some status => status.allowed
      | none => walk threshold rest := by
  cases window with
  | none => rfl
  | some rw =>
    have hpos : 0 < limit := h.1 rfl
    show walk threshold (⟨limit, (rw.sum now).1⟩ :: rest) = _
    rw [walk, Tracker.checkWindow]
    simp only [hpos, if_true, Load.Over, Load.Alerts]
    by_cases ho : limit < (rw.sum now).1
    · simp [ho]
    · by_cases ha : 0 < threshold ∧ threshold ≤ (rw.sum now).1 / limit
      · simp [ho, ha]
      · simp [ho, ha]

theorem check_allowed (t : Tracker F) (now : Time) :
    (t.check now).1.allowed = walk t.config.alertThreshold (t.loads now) := by
  have hm := walk_checkWindow t.config.alertThreshold now "monthly budget limit exceeded"
    (30 * 24 * Duration.hour) t.monthly_iff []
  rw [List.append_nil] at hm
  unfold Tracker.loads
  rw [walk_checkWindow _ now "hourly budget limit exceeded" Duration.hour t.hourly_iff,
    walk_checkWindow _ now "daily budget limit exceeded" (24 * Duration.hour) t.daily_iff, hm]
  unfold Tracker.check
  cases hh : (Tracker.checkWindow t.config.alertThreshold now "hourly budget limit exceeded" Duration.hour
    t.config.hourly t.hourly).1 with
  | some status => simp only [hh]
  | none =>
    cases hd : (Tracker.checkWindow t.config.alertThreshold now "daily budget limit exceeded"
      (24 * Duration.hour) t.config.daily t.daily).1 with
    | some status => simp only [hh, hd]
    | none =>
      cases hmo : (Tracker.checkWindow t.config.alertThreshold now "monthly budget limit exceeded"
        (30 * 24 * Duration.hour) t.config.monthly t.monthly).1 with
      | some status => simp only [hh, hd, hmo]
      | none => simp only [hh, hd, hmo, walk]

/-! ## The verdict of the manager -/

variable {config : Config F} {m : Manager F}

theorem Manager.Ready.checkLimits_rejects (h : m.Ready config) (hb : config.enforcement.defaultAction = .block)
    {now : Time} {i : String} {t : Tracker F} (ht : m.budgets i = some t)
    (hn : (t.check now).1.allowed = false) (tokens : Int) (cost : F) (model : String) :
    (m.checkLimits now i tokens cost model).1.allowed = false := by
  rw [h.checkLimits_eq]
  simp only []
  split
  · rename_i r hr
    obtain ⟨l, _, hl⟩ := Option.bind_eq_some_iff.1 hr
    exact h.checkRate_rejects hb hl
  · rw [ht]
    show (Manager.budgetResult _ i model (t.check now).1).allowed = false
    unfold Manager.budgetResult
    rw [if_neg (by rw [hn]; exact Bool.false_ne_true)]
    exact h.enforce_block hb _ _ _

/-- After any run of calls, the budget check of an identifier allows a request exactly when none of its
configured windows is over its limit, and `CheckLimits` rejects the request when one is, if and only if
no alerting window hides one that is over its limit. -/
theorem budget_verdict_iff (config : Config F) (start : Time) (cs : List (Time × Call F))
    (hb : config.enforcement.defaultAction = .block) (identifier : String) (budget : Budget.Config F)
    (hi : config.budgets identifier = some budget) (now : Time) (tokens : Int) (cost : F) (model : String) :
    ∃ t, ((newManager start config).calls cs).budgets identifier = some t ∧ t.config = budget ∧
      ((((t.check now).1.allowed = true ↔ ∀ w ∈ t.loads now, w.used ≤ w.limit) ∧
          ((∃ w ∈ t.loads now, w.limit < w.used) →
            (((newManager start config).calls cs).checkLimits now identifier tokens cost model).1.allowed = false)) ↔
        ¬ AlertHides budget.alertThreshold (t.loads now)) := by
  have h := (Manager.newManager_ready start config).calls cs
  have hcfg := h.tracker identifier
  rw [hi] at hcfg
  obtain ⟨t, ht, rfl⟩ := Option.map_eq_some_iff.1 hcfg
  refine ⟨t, ht, rfl, ?_⟩
  have hwalk := walk_iff t.config.alertThreshold (t.loads now)
  simp only [Load.Over, not_lt, ← check_allowed] at hwalk
  constructor
  · intro hp
    exact hwalk.1 hp.1
  · intro hhide
    refine ⟨hwalk.2 hhide, ?_⟩
    rintro ⟨w, hw, ho⟩
    have hn : (t.check now).1.allowed = false := by
      rw [Bool.eq_false_iff]
      intro htrue
      exact absurd ((hwalk.2 hhide).1 htrue w hw) (not_le.2 ho)
    exact h.checkLimits_rejects hb ht hn tokens cost model

end Verdict

def hourAndDay : Config ℚ where
  rateLimits := fun _ => none
  budgets := fun _ => some { hourly := 10, daily := 15, monthly := 0, alertThreshold := 1 / 2 }
  enforcement := { defaultAction := .block }

def twoSpends : List (Time × Call ℚ) :=
  [(5 * Duration.hour, .recordUsage { identifier := "key", totalTokens := 0, cost := 8 }),
    (7 * Duration.hour + Duration.minute, .recordUsage { identifier := "key", totalTokens := 0, cost := 8 })]

/-- The hourly window holds 8 and alerts, the daily one holds 16 of 15, and the request is allowed. -/
theorem daily_limit_passed_behind_alert :
    ∃ t, ((newManager 0 hourAndDay).calls twoSpends).budgets "key" = some t ∧
      (∃ w ∈ t.loads (8 * Duration.hour), w.limit < w.used) ∧
      (t.check (8 * Duration.hour)).1.allowed = true ∧
      (((newManager 0 hourAndDay).calls twoSpends).checkLimits (8 * Duration.hour) "key" 0 0 "gpt-4").1.allowed =
        true := by
  refine ⟨_, rfl, ⟨_, List.mem_cons_of_mem _ (List.mem_cons_self ..), ?_⟩, ?_, ?_⟩
  · decide +kernel
  · decide +kernel
  · decide +kernel

theorem budget_verdict_iff_twoSpends :
    hourAndDay.enforcement.defaultAction = .block ∧
      ∃ t, ((newManager 0 hourAndDay).calls twoSpends).budgets "key" = some t ∧
        t.config = { hourly := 10, daily := 15, monthly := 0, alertThreshold := 1 / 2 } ∧
        ((((t.check (9 * Duration.hour)).1.allowed = true ↔
              ∀ w ∈ t.loads (9 * Duration.hour), w.used ≤ w.limit) ∧
            ((∃ w ∈ t.loads (9 * Duration.hour), w.limit < w.used) →
              (((newManager 0 hourAndDay).calls twoSpends).checkLimits (9 * Duration.hour) "key" 100 1
                "gpt-4").1.allowed = false)) ↔
          ¬ AlertHides (1 / 2 : ℚ) (t.loads (9 * Duration.hour))) :=
  ⟨rfl, budget_verdict_iff hourAndDay 0 twoSpends rfl "key" _ rfl (9 * Duration.hour) 100 1 "gpt-4"⟩

end Jupiter.Limits
