/-
When the memory and the SQLite backend for limit states agree.

As long as the texts `dimension:identifier` tell the pairs apart, a state that is saved again carries the creation time
it was stored with and no state outlives the retention period, the table of the SQLite backend is the map of the memory
backend read row by row (`Related`), and every call keeps this and gives the same answer on both sides.
-/
import Jupiter.Limits.Storage

namespace Jupiter.Limits.Storage

open Jupiter.Go Jupiter.Lib

/-! ## Whole seconds -/

def WholeSecond (t : Time) : Prop := t % Duration.second = 0

theorem ofUnix_unix {t : Time} (h : WholeSecond t) : SQLiteBackend.ofUnix (Time.unix t) = t := by
  have hmod : t % 1000000000 = 0 := h
  show (t / 1000000000 - Time.unixToInternal + Time.unixToInternal) * 1000000000 = t
  rw [Int.sub_add_cancel]
  exact Int.ediv_mul_cancel (Int.dvd_of_emod_eq_zero hmod)

theorem unix_lt_unix {t t' : Int} (h : WholeSecond t) (h' : WholeSecond t') : Time.unix t < Time.unix t' ↔ t < t' := by
  have hmod : t % 1000000000 = 0 := h
  have hmod' : t' % 1000000000 = 0 := h'
  show t / 1000000000 - Time.unixToInternal < t' / 1000000000 - Time.unixToInternal ↔ t < t'
  generalize Time.unixToInternal = epoch
  omega

/-! ## Conditions on the calls -/

def Call.pair : Call → Option (String × String)
  | .save (some s) _ _ => some (s.dimension, s.identifier)
  | .load identifier dimension => some (dimension, identifier)
  | .delete identifier dimension => some (dimension, identifier)
  | _ => none

def Used (calls : List Call) (p : String × String) : Prop := ∃ c ∈ calls, c.pair = some p

def KeysDistinct (calls : List Call) : Prop :=
  ∀ p q, Used calls p → Used calls q → MemoryBackend.makeKey p.2 p.1 = MemoryBackend.makeKey q.2 q.1 → p = q

/-- The memory backend has room, and the timestamps are whole seconds. -/
def InScope (b : Backends) : Call → Prop
  | .save (some s) now _ => (b.memory.states.length : Int) < b.memory.maxEntries ∧
      WholeSecond (s.stamped now).lastUpdated ∧ WholeSecond (s.stamped now).createdAt
  | .cleanup olderThan => WholeSecond olderThan
  | _ => True

def KeepsCreation (b : Backends) : Call → Prop
  | .save (some s) now _ => ∀ old, b.sqlite.rows.lookup (s.dimension, s.identifier) = some old →
      old.createdAt = Time.unix (s.stamped now).createdAt
  | _ => True

/-- No state has expired when the memory backend's goroutine ticks: the SQLite backend has none that would remove it. -/
def NoneExpired (b : Backends) : Call → Prop
  | .tick now => ∀ x ∈ b.memory.states, now - b.memory.retentionPeriod ≤ x.2.lastUpdated
  | _ => True

theorem cleanupExpired_eq {b : Backends} {now : Time} (h : NoneExpired b (.tick now)) :
    b.memory.cleanupExpired now = b.memory := by
  have hkept : b.memory.states.filter (fun x => !decide (x.2.lastUpdated < now - b.memory.retentionPeriod)) =
      b.memory.states :=
    List.filter_eq_self.2 fun x hx => by simpa using h x hx
  unfold MemoryBackend.cleanupExpired MemoryBackend.cleanup
  simp only [hkept]

/-! ## The table is the map -/

/-- A row of the table for an entry of the map. -/
def view (x : String × LimitState) : (String × String) × Row :=
  ((x.2.dimension, x.2.identifier), SQLiteBackend.rowOf x.2)

structure Related (calls : List Call) (b : Backends) : Prop where
  rows : b.sqlite.rows = b.memory.states.map view
  keyed : ∀ x ∈ b.memory.states, x.1 = MemoryBackend.makeKey x.2.identifier x.2.dimension
  used : ∀ x ∈ b.memory.states, Used calls (x.2.dimension, x.2.identifier)
  whole : ∀ x ∈ b.memory.states, WholeSecond x.2.lastUpdated ∧ WholeSecond x.2.createdAt
  same : ∀ r ∈ b.results, r.1.Same r.2

theorem stateOf_view {x : String × LimitState} (h : WholeSecond x.2.lastUpdated ∧ WholeSecond x.2.createdAt) :
    SQLiteBackend.stateOf (view x).1 (view x).2 = x.2 := by
  unfold SQLiteBackend.stateOf view SQLiteBackend.rowOf
  dsimp only
  rw [ofUnix_unix h.1, ofUnix_unix h.2]

section Step

variable {calls : List Call} {b : Backends}

theorem view_key_iff (hkeys : KeysDistinct calls) (h : Related calls b) {p : String × String} (hp : Used calls p)
    {x : String × LimitState} (hx : x ∈ b.memory.states) :
    (view x).1 = p ↔ x.1 = MemoryBackend.makeKey p.2 p.1 := by
  rw [h.keyed x hx]
  constructor
  · rintro rfl
    rfl
  · intro hkey
    exact hkeys _ _ (h.used x hx) hp hkey

theorem checkState_ok {state : Option LimitState} {s : LimitState} (h : checkState state = .ok s) : state = some s := by
  unfold checkState at h
  split at h
  · cases h
  · split at h
    · cases h
    · cases h
      rfl

theorem Result.same_refl (r : Result) : r.Same r := by
  cases r with
  | listed states =>
    cases states with
    | error e => rfl
    | ok l => exact List.Perm.refl l
  | _ => rfl

theorem load_same (hkeys : KeysDistinct calls) (h : Related calls b) {identifier dimension : String}
    (hp : Used calls (dimension, identifier)) :
    b.memory.load identifier dimension = b.sqlite.load identifier dimension := by
  have hview := fun x hx => view_key_iff hkeys h hp (x := x) hx
  unfold MemoryBackend.load SQLiteBackend.load
  rw [h.rows, Table.lookup_map hview]
  split
  · rfl
  · cases hget : b.memory.states.lookup (MemoryBackend.makeKey identifier dimension) with
    | none => rfl
    | some s =>
      have hmem := Table.mem_of_lookup hget
      have hpair : (view (MemoryBackend.makeKey identifier dimension, s)).1 = (dimension, identifier) :=
        (hview _ hmem).2 rfl
      have hstate := stateOf_view (h.whole _ hmem)
      rw [hpair] at hstate
      rw [Option.map_some, Option.map_some, hstate]

theorem list_same (h : Related calls b) (dimension : String) :
    b.memory.list dimension = b.sqlite.list dimension := by
  unfold MemoryBackend.list SQLiteBackend.list
  split
  · rfl
  · rw [h.rows, List.filter_map, List.filter_map, List.map_map]
    congr 1
    refine List.map_congr_left fun x hx => ?_
    exact (stateOf_view (h.whole x (List.mem_of_mem_filter hx))).symm

theorem related_save (hkeys : KeysDistinct calls) (h : Related calls b) {state : Option LimitState} {now : Time}
    {read : List (String × LimitState)} (hused : ∀ p, (Call.save state now read).pair = some p → Used calls p)
    (hscope : InScope b (.save state now read)) (hkeep : KeepsCreation b (.save state now read)) :
    Related calls (b.next (.save state now read)) := by
  unfold Backends.next MemoryBackend.save SQLiteBackend.save
  dsimp only
  cases hc : checkState state with
  | error e =>
    exact ⟨h.rows, h.keyed, h.used, h.whole, List.forall_mem_cons.2 ⟨Result.same_refl _, h.same⟩⟩
  | ok s =>
    obtain rfl := checkState_ok hc
    obtain ⟨hroom, hlast, hcreated⟩ := hscope
    have hp : Used calls (s.dimension, s.identifier) := hused _ rfl
    have hview := fun x hx => view_key_iff hkeys h hp (x := x) hx
    dsimp only
    rw [if_neg (by omega)]
    have hmem : ∀ x ∈ Table.upsert (MemoryBackend.makeKey s.identifier s.dimension) (fun _ => s.stamped now)
        b.memory.states, x ∈ b.memory.states ∨ x = (MemoryBackend.makeKey s.identifier s.dimension, s.stamped now) :=
      fun x hx => Table.mem_upsert hx
    refine ⟨?_, ?_, ?_, ?_, List.forall_mem_cons.2 ⟨Result.same_refl _, h.same⟩⟩
    · dsimp only
      rw [h.rows]
      refine Table.upsert_map rfl hview ?_
      intro old hold
      have hcreation : Time.unix old.createdAt = Time.unix (s.stamped now).createdAt := by
        refine hkeep (SQLiteBackend.rowOf old) ?_
        rw [h.rows, Table.lookup_map hview, hold]
        rfl
      show _ = (_, { SQLiteBackend.rowOf (s.stamped now) with createdAt := Time.unix old.createdAt })
      rw [hcreation]
      rfl
    · intro x hx
      rcases hmem x hx with hx | rfl
      · exact h.keyed x hx
      · rfl
    · intro x hx
      rcases hmem x hx with hx | rfl
      · exact h.used x hx
      · exact hp
    · intro x hx
      rcases hmem x hx with hx | rfl
      · exact h.whole x hx
      · exact ⟨hlast, hcreated⟩

theorem related_delete (hkeys : KeysDistinct calls) (h : Related calls b) {identifier dimension : String}
    (hp : Used calls (dimension, identifier)) : Related calls (b.next (.delete identifier dimension)) := by
  unfold Backends.next MemoryBackend.delete SQLiteBackend.delete
  dsimp only
  cases checkNames identifier dimension with
  | error e =>
    exact ⟨h.rows, h.keyed, h.used, h.whole, List.forall_mem_cons.2 ⟨Result.same_refl _, h.same⟩⟩
  | ok _ =>
    have hmem : ∀ x ∈ Table.erase (MemoryBackend.makeKey identifier dimension) b.memory.states,
        x ∈ b.memory.states := fun x hx => List.mem_of_mem_filter hx
    refine ⟨?_, fun x hx => h.keyed x (hmem x hx), fun x hx => h.used x (hmem x hx),
      fun x hx => h.whole x (hmem x hx), List.forall_mem_cons.2 ⟨Result.same_refl _, h.same⟩⟩
    dsimp only
    rw [h.rows]
    exact Table.erase_map fun x hx => view_key_iff hkeys h hp hx

theorem related_cleanup (h : Related calls b) {olderThan : Time} (hwhole : WholeSecond olderThan) :
    Related calls (b.next (.cleanup olderThan)) := by
  have hage : ∀ x ∈ b.memory.states, decide ((view x).2.lastUpdated < Time.unix olderThan) =
      decide (x.2.lastUpdated < olderThan) := by
    intro x hx
    exact decide_eq_decide.2 (unix_lt_unix (h.whole x hx).1 hwhole)
  have hmem : ∀ x ∈ b.memory.states.filter (fun x => !decide (x.2.lastUpdated < olderThan)),
      x ∈ b.memory.states := fun x hx => List.mem_of_mem_filter hx
  have hcount : (b.memory.cleanup olderThan).1 = (b.sqlite.cleanup olderThan).1 := by
    unfold MemoryBackend.cleanup SQLiteBackend.cleanup
    dsimp only
    rw [h.rows, List.countP_map]
    exact List.countP_congr fun x hx => by simp only [Function.comp_apply, hage x hx]
  refine ⟨?_, fun x hx => h.keyed x (hmem x hx), fun x hx => h.used x (hmem x hx),
    fun x hx => h.whole x (hmem x hx), List.forall_mem_cons.2 ⟨?_, h.same⟩⟩
  · show List.filter _ b.sqlite.rows = List.map view (List.filter _ b.memory.states)
    rw [h.rows, List.filter_map]
    congr 1
    exact List.filter_congr fun x hx => by simp only [Function.comp_apply, hage x hx]
  · show Result.Same (.deleted _) (.deleted _)
    rw [hcount]
    exact Result.same_refl _

theorem related_step (hkeys : KeysDistinct calls) (b : Backends) (c : Call) (b' : Backends) (h : Related calls b)
    (hok : c ∈ calls ∧ InScope b c ∧ KeepsCreation b c ∧ NoneExpired b c) (hstep : b.step c = some b') :
    Related calls b' := by
  obtain ⟨hc, hscope, hkeep, hfresh⟩ := hok
  have hused : ∀ p, c.pair = some p → Used calls p := fun p hp => ⟨c, hc, hp⟩
  cases hstep
  cases c with
  | save state now read => exact related_save hkeys h hused hscope hkeep
  | load identifier dimension =>
    refine ⟨h.rows, h.keyed, h.used, h.whole, List.forall_mem_cons.2 ⟨?_, h.same⟩⟩
    dsimp only
    rw [load_same hkeys h (hused _ rfl)]
    exact Result.same_refl _
  | delete identifier dimension => exact related_delete hkeys h (hused _ rfl)
  | list dimension =>
    refine ⟨h.rows, h.keyed, h.used, h.whole, List.forall_mem_cons.2 ⟨?_, h.same⟩⟩
    dsimp only
    rw [list_same h]
    exact Result.same_refl _
  | cleanup olderThan => exact related_cleanup h hscope
  | tick now =>
    rw [Backends.next, cleanupExpired_eq hfresh]
    exact h

/-! ## Pairs do not touch each other -/

theorem load_next_of_ne (hkeys : KeysDistinct calls) {c : Call} (hc : c ∈ calls) (hscope : InScope b c)
    (hfresh : NoneExpired b c) {p : String × String} (hp : Used calls p) (hne : c.pair ≠ some p)
    (hclean : ∀ t, c ≠ .cleanup t) :
    (b.next c).memory.load p.2 p.1 = b.memory.load p.2 p.1 ∧
      (b.next c).sqlite.load p.2 p.1 = b.sqlite.load p.2 p.1 := by
  have hkey : ∀ q, c.pair = some q → MemoryBackend.makeKey p.2 p.1 ≠ MemoryBackend.makeKey q.2 q.1 ∧ p ≠ q := by
    intro q hq
    have hpq : p ≠ q := fun h => hne (h ▸ hq)
    exact ⟨fun heq => hpq (hkeys p q hp ⟨c, hc, hq⟩ heq), hpq⟩
  cases c with
  | save state now read =>
    unfold Backends.next MemoryBackend.save SQLiteBackend.save MemoryBackend.load SQLiteBackend.load
    dsimp only
    cases hstate : checkState state with
    | error e => exact ⟨rfl, rfl⟩
    | ok s =>
      obtain rfl := checkState_ok hstate
      obtain ⟨hk, hpq⟩ := hkey _ rfl
      dsimp only
      rw [if_neg (by have := hscope.1; omega), Table.lookup_upsert_ne hk, Table.lookup_upsert_ne hpq]
      exact ⟨rfl, rfl⟩
  | delete identifier dimension =>
    unfold Backends.next MemoryBackend.delete SQLiteBackend.delete MemoryBackend.load SQLiteBackend.load
    dsimp only
    cases checkNames identifier dimension with
    | error e => exact ⟨rfl, rfl⟩
    | ok _ =>
      obtain ⟨hk, hpq⟩ := hkey _ rfl
      dsimp only
      rw [Table.lookup_erase_ne hk, Table.lookup_erase_ne hpq]
      exact ⟨rfl, rfl⟩
  | load identifier dimension => exact ⟨rfl, rfl⟩
  | list dimension => exact ⟨rfl, rfl⟩
  | cleanup olderThan => exact absurd rfl (hclean olderThan)
  | tick now =>
    rw [Backends.next, cleanupExpired_eq hfresh]
    exact ⟨rfl, rfl⟩

end Step

/-! ## Runs -/

def second (n : Int) : Time := n * 1000000000

def userState (createdAt : Int) : LimitState :=
  { identifier := "u", dimension := "user", createdAt := second createdAt, lastUpdated := second 5 }

def savedTwice : List Call :=
  [.save (some (userState 1)) 0 [], .save (some (userState 1)) 0 [], .tick (second 60), .load "u" "user"]

def colonState : LimitState :=
  { identifier := "c", dimension := "a:b", createdAt := second 1, lastUpdated := second 1 }

end Jupiter.Limits.Storage
