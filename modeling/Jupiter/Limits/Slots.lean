/-
The concurrency limiter under every interleaving of its atomic steps.

`Acquire` is not atomic: it adds one to the counter, compares what it got with the limit, and takes the one back when
the limit is passed. The counter alone may therefore stand above the limit. A client holds a slot from an increment
that stays within the limit to its release; the others will undo theirs (`Exact`).
-/
import Jupiter.Lib.Machine
import Jupiter.Limits.RateLimit

namespace Jupiter.Limits.RateLimit

open Jupiter.Lib

/-- Where a client is: outside, between its increment and its test with the value it got, past a failed test, or past
an `Acquire` that returned true. -/
inductive Client where
  | idle
  | incremented (current : Int)
  | undoing
  | holding
  deriving DecidableEq

namespace Client

def holds (limit : Int) : Client → Bool
  | .incremented current => current ≤ limit
  | .holding => true
  | .idle | .undoing => false

def willUndo (limit : Int) : Client → Bool
  | .incremented current => limit < current
  | .undoing => true
  | .idle | .holding => false

def acquiring : Client → Bool
  | .incremented _ | .undoing => true
  | .idle | .holding => false

end Client

structure Slots where
  limiter : ConcurrentLimiter
  clients : List Client
  deriving DecidableEq

inductive SlotStep where
  | increment
  | test
  | undo
  | release
  deriving DecidableEq

namespace Slots

def new (limit : Int) (clients : Nat) : Slots :=
  { limiter := newConcurrentLimiter limit, clients := List.replicate clients .idle }

def advance (cl : ConcurrentLimiter) : SlotStep → Client → Option (ConcurrentLimiter × Client)
  | .increment, .idle => some ({ cl with current := cl.current + 1 }, .incremented (cl.current + 1))
  | .test, .incremented current => some (cl, if cl.limit < current then .undoing else .holding)
  | .undo, .undoing => some ({ cl with current := cl.current - 1 }, .idle)
  | .release, .holding => some (cl.release, .idle)
  | _, _ => none

def step (s : Slots) : Nat × SlotStep → Option Slots
  | (i, l) =>
    match s.clients[i]? with
    | none => none
    | some c => (advance s.limiter l c).map fun (cl, c') => { limiter := cl, clients := s.clients.set i c' }

def holders (s : Slots) : Nat := s.clients.countP (·.holds s.limiter.limit)

def undone (s : Slots) : Nat := s.clients.countP (·.willUndo s.limiter.limit)

end Slots

/-! ## Counting -/

theorem countP_set_add {α : Type*} (p : α → Bool) {a b : α} : ∀ {l : List α} {i : Nat}, l[i]? = some a →
    (l.set i b).countP p + (if p a then 1 else 0) = l.countP p + (if p b then 1 else 0)
  | c :: l, 0, h => by
    cases h
    simp only [List.set_cons_zero, List.countP_cons]
    omega
  | c :: l, i + 1, h => by
    have ih := countP_set_add p (b := b) (l := l) (i := i) h
    simp only [List.set_cons_succ, List.countP_cons]
    omega

section Slots

variable {s s' : Slots} {l : Nat × SlotStep}

theorem Slots.step_cases (h : s.step l = some s') : ∃ c cl c', s.clients[l.1]? = some c ∧
    Slots.advance s.limiter l.2 c = some (cl, c') ∧ s' = { limiter := cl, clients := s.clients.set l.1 c' } := by
  obtain ⟨i, l⟩ := l
  simp only [Slots.step] at h
  cases hc : s.clients[i]? with
  | none =>
    rw [hc] at h
    cases h
  | some c =>
    rw [hc] at h
    obtain ⟨⟨cl, c'⟩, hadv, rfl⟩ := Option.map_eq_some_iff.1 h
    exact ⟨c, cl, c', rfl, hadv, rfl⟩

/-- A step moves the counter by what it changes of the slots held and of the increments to be undone. A slot is taken
only by an increment that stays within the limit. -/
theorem advance_exact {cl cl' : ConcurrentLimiter} {l : SlotStep} {c c' : Client}
    (h : Slots.advance cl l c = some (cl', c')) :
    cl'.limit = cl.limit ∧
      cl'.current + (if c.holds cl.limit then 1 else 0) + (if c.willUndo cl.limit then 1 else 0) =
        cl.current + (if c'.holds cl.limit then 1 else 0) + (if c'.willUndo cl.limit then 1 else 0) ∧
      (c.holds cl.limit = false → c'.holds cl.limit = true → cl'.current ≤ cl.limit) := by
  unfold Slots.advance at h
  split at h
  · -- An increment decides at once which of the two it counts as.
    cases h
    refine ⟨rfl, ?_, ?_⟩
    · by_cases hle : cl.current + 1 ≤ cl.limit
      · simp [Client.holds, Client.willUndo, hle, Int.not_lt.2 hle]
      · simp [Client.holds, Client.willUndo, hle, Int.not_le.1 hle]
    · intro _ hle
      exact of_decide_eq_true hle
  · -- The test only reads what the increment returned, so it changes neither count.
    rename_i current
    cases h
    refine ⟨rfl, ?_, ?_⟩
    · by_cases hlt : cl.limit < current
      · simp [Client.holds, Client.willUndo, hlt]
      · simp [Client.holds, Client.willUndo, hlt, Int.not_lt.1 hlt]
    · intro hno hyes
      by_cases hlt : cl.limit < current
      · rw [if_pos hlt] at hyes
        cases hyes
      · exact absurd (Int.not_lt.1 hlt) (of_decide_eq_false hno)
  · cases h
    refine ⟨rfl, ?_, ?_⟩
    · simp [Client.holds, Client.willUndo]
    · intro _ hyes
      cases hyes
  · cases h
    refine ⟨rfl, ?_, ?_⟩
    · simp [Client.holds, Client.willUndo, ConcurrentLimiter.release]
    · intro _ hyes
      cases hyes
  · cases h

/-- The counter is the slots held and the increments that will be undone. -/
structure Exact (limit : Int) (s : Slots) : Prop where
  limit_eq : s.limiter.limit = limit
  current_eq : s.limiter.current = s.holders + s.undone
  holders_le : (s.holders : Int) ≤ max limit 0

theorem Exact.new (limit : Int) (clients : Nat) : Exact limit (.new limit clients) := by
  have hholders : (Slots.new limit clients).holders = 0 := by
    simp [Slots.holders, Slots.new, List.countP_replicate, Client.holds]
  have hundone : (Slots.new limit clients).undone = 0 := by
    simp [Slots.undone, Slots.new, List.countP_replicate, Client.willUndo]
  refine ⟨rfl, ?_, ?_⟩
  · rw [hholders, hundone]
    rfl
  · rw [hholders]
    omega

theorem Exact.step {limit : Int} (h : Exact limit s) (hstep : s.step l = some s') : Exact limit s' := by
  obtain ⟨hlimit, hcurrent, hle⟩ := h
  obtain ⟨c, cl, c', hc, hadv, rfl⟩ := Slots.step_cases hstep
  obtain ⟨hsame, hexact, htake⟩ := advance_exact hadv
  rw [hlimit] at hsame hexact htake
  have hholders := countP_set_add (·.holds limit) (b := c') hc
  have hundone := countP_set_add (·.willUndo limit) (b := c') hc
  simp only [Slots.holders, Slots.undone, hlimit] at hcurrent hle
  have hsum : cl.current = ((s.clients.set l.1 c').countP (·.holds limit) : Int) +
      ((s.clients.set l.1 c').countP (·.willUndo limit) : Int) := by
    split_ifs at hexact hholders hundone <;> omega
  refine ⟨hsame, ?_, ?_⟩
  · simp only [Slots.holders, Slots.undone, hsame]
    exact hsum
  · simp only [Slots.holders, hsame]
    cases hbefore : c.holds limit with
    | true =>
      rw [if_pos hbefore] at hholders
      split at hholders <;> omega
    | false =>
      cases hafter : c'.holds limit with
      | true =>
        -- A slot is taken: the counter, and with it the holders, is within the limit after it.
        have hroom := htake hbefore hafter
        omega
      | false =>
        rw [if_neg (by rw [hbefore]; decide), if_neg (by rw [hafter]; decide)] at hholders
        omega

end Slots

/-- In every interleaving, at most `limit` clients hold a slot (none for a negative limit), the counter is the slots
held and the increments that will be undone, and outside every `Acquire` it is the number of holders. -/
theorem slots_exact (limit : Int) (clients : Nat) (steps : List (Nat × SlotStep)) (s : Slots)
    (hrun : run Slots.step (.new limit clients) steps = some s) :
    (s.holders : Int) ≤ max limit 0 ∧ s.clients.count .holding ≤ s.holders ∧
      s.limiter.current = s.holders + s.undone ∧
      ((∀ c ∈ s.clients, c.acquiring = false) → s.limiter.current = s.clients.count .holding) := by
  have h : Exact limit s := run_invariant (fun _ _ _ he hs => he.step hs) steps _ s (.new limit clients) hrun
  refine ⟨h.holders_le, ?_, h.current_eq, ?_⟩
  · refine List.countP_mono_left fun c _ hc => ?_
    rw [of_decide_eq_true hc]
    rfl
  · intro hquiet
    have hholders : s.holders = s.clients.count .holding := by
      refine List.countP_congr fun c hc => ?_
      have hq := hquiet c hc
      cases c with
      | idle | holding => simp [Client.holds]
      | incremented _ | undoing => cases hq
    have hundone : s.undone = 0 := by
      refine List.countP_eq_zero.2 fun c hc => ?_
      have hq := hquiet c hc
      cases c with
      | idle | holding => exact Bool.false_ne_true
      | incremented _ | undoing => cases hq
    rw [h.current_eq, hholders, hundone]
    rfl

/-- Two clients and one slot: between the second one's increment and its undo, the counter is above the limit. -/
theorem slots_exact_two :
    ∃ s, run Slots.step (.new 1 2) [(0, .increment), (1, .increment), (1, .test), (0, .test)] = some s ∧
      s.clients = [.holding, .undoing] ∧ (s.holders : Int) ≤ max 1 0 ∧ s.limiter.current = s.holders + s.undone := by
  have hrun : run Slots.step (.new 1 2) [(0, .increment), (1, .increment), (1, .test), (0, .test)] =
      some ⟨⟨1, 2⟩, [.holding, .undoing]⟩ := by
    decide
  obtain ⟨hle, -, hcurrent, -⟩ := slots_exact 1 2 _ _ hrun
  exact ⟨_, hrun, rfl, hle, hcurrent⟩

end Jupiter.Limits.RateLimit
