/-
The bound of the memory backend and what a `Save` removes.

The backend evicts before it looks whether the pair it saves is stored.

The stored states are the callers' own: between two calls a caller can change the timestamps of a state that is in the
store. The map is read in any order.
-/
import Jupiter.Go.Value
import Jupiter.Lib.Least
import Jupiter.Limits.Storage

namespace Jupiter.Limits.Storage

open Jupiter.Go Jupiter.Lib

/-! ## Pairs and runs -/

/-- An identifier and a dimension that `Save` accepts, without a colon. -/
structure Pair where
  identifier : String
  dimension : String
  identifier_ne : identifier ≠ ""
  dimension_ne : dimension ≠ ""
  identifier_plain : ':' ∉ identifier.toList
  dimension_plain : ':' ∉ dimension.toList
  deriving DecidableEq

def Pair.Names (p : Pair) (s : LimitState) : Prop := s.identifier = p.identifier ∧ s.dimension = p.dimension

def Pair.key (p : Pair) : String := MemoryBackend.makeKey p.identifier p.dimension

/-- The order in which the map is read at some point of a run. -/
structure MapOrder where
  arrange : List (String × LimitState) → List (String × LimitState)
  perm : ∀ l, (arrange l).Perm l

inductive StoreCall where
  | save (state : Option LimitState) (now : Time) (order : MapOrder)
  | delete (identifier dimension : String)
  | cleanup (olderThan : Time)
  /-- A caller changes stored states through the pointers it has. -/
  | touch (change : String → LimitState → LimitState)

/-- What is saved under names that `Save` accepts is saved under a pair. -/
def StoreCall.Plain : StoreCall → Prop
  | .save (some s) _ _ => ':' ∉ s.identifier.toList ∧ ':' ∉ s.dimension.toList
  | _ => True

namespace MemoryBackend

def next (m : MemoryBackend) : StoreCall → MemoryBackend
  | .save state now order => (m.save state now (order.arrange m.states)).2
  | .delete identifier dimension => (m.delete identifier dimension).2
  | .cleanup olderThan => (m.cleanup olderThan).2
  | .touch change => { m with states := m.states.map fun x => (x.1, change x.1 x.2) }

def step (m : MemoryBackend) (c : StoreCall) : Option MemoryBackend := some (m.next c)

def stateAt (m : MemoryBackend) (p : Pair) : Option LimitState := m.states.lookup p.key

def Full (m : MemoryBackend) : Prop := m.maxEntries ≤ m.states.length

end MemoryBackend

theorem Pair.ext_of_key {p q : Pair} (h : p.key = q.key) : p = q := by
  have hlist : p.dimension.toList ++ ':' :: p.identifier.toList = q.dimension.toList ++ ':' :: q.identifier.toList := by
    have hl := congrArg String.toList h
    simpa [Pair.key, MemoryBackend.makeKey] using hl
  have hdim : p.dimension.toList = q.dimension.toList := by
    rw [← Strings.takeWhile_ne p.identifier.toList p.dimension_plain, hlist,
      Strings.takeWhile_ne q.identifier.toList q.dimension_plain]
  rw [hdim] at hlist
  have hid : p.identifier.toList = q.identifier.toList := by
    simpa using List.append_cancel_left hlist
  obtain ⟨i, d⟩ := p
  obtain ⟨i', d'⟩ := q
  obtain rfl : d = d' := String.toList_injective hdim
  obtain rfl : i = i' := String.toList_injective hid
  rfl

theorem Pair.key_ne {p q : Pair} (h : p ≠ q) : p.key ≠ q.key := fun hk => h (ext_of_key hk)

/-! ## The oldest entry -/

section Oldest

variable {states read : List (String × LimitState)}

theorem oldestKey_cons (y : String × LimitState) (l : List (String × LimitState)) :
    ∃ e ∈ y :: l, MemoryBackend.oldestKey (y :: l) = some e.1 ∧
      (e = y ∨ e.2.lastUpdated < y.2.lastUpdated) ∧ ∀ x ∈ y :: l, e.2.lastUpdated ≤ x.2.lastUpdated := by
  obtain ⟨hkept, hmin⟩ := least_spec (fun x : String × LimitState => x.2.lastUpdated) y l
  refine ⟨_, least_mem _ y l, ?_, hkept.imp_right And.right, hmin⟩
  exact congrArg (Option.map Prod.fst)
    (foldl_eq_least (fun x : String × LimitState => some (x.1, x.2.lastUpdated)) (·.2.lastUpdated) fun _ _ _ => rfl)

theorem evictOldest_spec (hread : read.Perm states) (hne : states ≠ []) :
    ∃ e ∈ states, MemoryBackend.evictOldest read states = Table.erase e.1 states ∧
      ∀ x ∈ states, e.2.lastUpdated ≤ x.2.lastUpdated := by
  cases read with
  | nil => exact absurd (List.Perm.nil_eq hread).symm hne
  | cons y l =>
    obtain ⟨e, he, hkey, -, hmin⟩ := oldestKey_cons y l
    refine ⟨e, hread.mem_iff.1 he, by rw [MemoryBackend.evictOldest, hkey], fun x hx => hmin x (hread.mem_iff.2 hx)⟩

theorem exists_read_evicting_other {e y : String × LimitState} (hy : y ∈ states) (hne : y ≠ e)
    (hle : y.2.lastUpdated ≤ e.2.lastUpdated) :
    ∃ read, read.Perm states ∧ ∃ e' ∈ states, e' ≠ e ∧
      MemoryBackend.evictOldest read states = Table.erase e'.1 states := by
  obtain ⟨s, t, rfl⟩ := List.append_of_mem hy
  obtain ⟨e', he', hkey, hfirst, -⟩ := oldestKey_cons y (s ++ t)
  refine ⟨y :: (s ++ t), List.perm_middle.symm, e', List.perm_middle.symm.mem_iff.1 he', ?_, ?_⟩
  · rcases hfirst with rfl | hlt
    · exact hne
    · rintro rfl
      exact absurd hle (Int.not_le.2 hlt)
  · rw [MemoryBackend.evictOldest, hkey]

end Oldest

/-! ## The store along a run -/

/-- Every key is that of a pair and stands once, and there are at most `maxEntries` of them. -/
structure Sound (maxEntries : Int) (m : MemoryBackend) : Prop where
  maxEntries_eq : m.maxEntries = maxEntries
  nodup : (Table.keys m.states).Nodup
  pairs : ∀ x ∈ m.states, ∃ p : Pair, x.1 = p.key
  bounded : (m.states.length : Int) ≤ maxEntries

def MemoryBackend.roomFor (m : MemoryBackend) (read : List (String × LimitState)) : List (String × LimitState) :=
  if (m.states.length : Int) ≥ m.maxEntries then evictOldest read m.states else m.states

theorem save_eq (m : MemoryBackend) {p : Pair} {s : LimitState} (hs : p.Names s) (now : Time)
    (read : List (String × LimitState)) :
    (m.save (some s) now read).2 =
      { m with states := Table.upsert p.key (fun _ => s.stamped now) (m.roomFor read) } := by
  have hnames : checkState (some s) = .ok s := by
    rw [checkState, checkNames, if_neg (hs.1 ▸ p.identifier_ne), if_neg (hs.2 ▸ p.dimension_ne)]
  rw [MemoryBackend.save, hnames, Pair.key, ← hs.1, ← hs.2]
  rfl

section Step

variable {maxEntries : Int} {m : MemoryBackend} {read : List (String × LimitState)}

theorem roomFor_of_full (hmax : 1 ≤ maxEntries) (h : Sound maxEntries m) (hread : read.Perm m.states)
    (hfull : m.Full) :
    ∃ e ∈ m.states, m.roomFor read = Table.erase e.1 m.states ∧
      ∀ x ∈ m.states, e.2.lastUpdated ≤ x.2.lastUpdated := by
  have hne : m.states ≠ [] := by
    intro hnil
    have hzero : m.maxEntries ≤ 0 := by
      have := hfull
      rwa [MemoryBackend.Full, hnil] at this
    rw [h.maxEntries_eq] at hzero
    omega
  obtain ⟨e, he, hevict, hmin⟩ := evictOldest_spec hread hne
  exact ⟨e, he, (if_pos hfull).trans hevict, hmin⟩

theorem roomFor_of_not_full (hfull : ¬m.Full) : m.roomFor read = m.states := if_neg hfull

theorem length_roomFor_lt (hmax : 1 ≤ maxEntries) (h : Sound maxEntries m) (hread : read.Perm m.states) :
    ((m.roomFor read).length : Int) < maxEntries := by
  by_cases hfull : m.Full
  · obtain ⟨e, he, hroom, -⟩ := roomFor_of_full hmax h hread hfull
    have hlt := Table.length_erase_lt (List.mem_map_of_mem (f := Prod.fst) he)
    have hle := h.bounded
    rw [hroom]
    omega
  · rw [roomFor_of_not_full hfull]
    have hlt : ¬m.maxEntries ≤ m.states.length := hfull
    rw [h.maxEntries_eq] at hlt
    omega

theorem roomFor_sublist (m : MemoryBackend) (read : List (String × LimitState)) :
    (m.roomFor read).Sublist m.states := by
  unfold MemoryBackend.roomFor MemoryBackend.evictOldest
  split
  · split
    · exact List.Sublist.refl _
    · exact List.filter_sublist
  · exact List.Sublist.refl _

theorem Sound.save (hmax : 1 ≤ maxEntries) (h : Sound maxEntries m) {p : Pair} {s : LimitState} (hs : p.Names s)
    (now : Time) (hread : read.Perm m.states) : Sound maxEntries (m.save (some s) now read).2 := by
  have hsub := roomFor_sublist m read
  rw [save_eq m hs]
  refine ⟨h.maxEntries_eq, Table.nodup_upsert (h.nodup.sublist (hsub.map _)), ?_, ?_⟩
  · intro x hx
    rcases Table.mem_upsert hx with hx | rfl
    · exact h.pairs x (hsub.subset hx)
    · exact ⟨p, rfl⟩
  · have hroom := length_roomFor_lt hmax h hread
    rw [Table.length_upsert]
    split
    · omega
    · omega

theorem Sound.of_sublist (h : Sound maxEntries m) {states : List (String × LimitState)}
    (hsub : states.Sublist m.states) : Sound maxEntries { m with states } where
  maxEntries_eq := h.maxEntries_eq
  nodup := h.nodup.sublist (hsub.map _)
  pairs x hx := h.pairs x (hsub.subset hx)
  bounded := by
    have hle := hsub.length_le
    have hb := h.bounded
    show (states.length : Int) ≤ maxEntries
    omega

theorem Sound.next (hmax : 1 ≤ maxEntries) (h : Sound maxEntries m) {c : StoreCall} (hc : c.Plain) :
    Sound maxEntries (m.next c) := by
  cases c with
  | save state now order =>
    show Sound maxEntries (m.save state now (order.arrange m.states)).2
    cases state with
    | none => exact h
    | some s =>
      by_cases hi : s.identifier = ""
      · rw [MemoryBackend.save, checkState, checkNames, if_pos hi]
        exact h
      · by_cases hd : s.dimension = ""
        · rw [MemoryBackend.save, checkState, checkNames, if_neg hi, if_pos hd]
          exact h
        · exact h.save hmax (p := ⟨s.identifier, s.dimension, hi, hd, hc.1, hc.2⟩) ⟨rfl, rfl⟩ now (order.perm _)
  | delete identifier dimension =>
    show Sound maxEntries (m.delete identifier dimension).2
    rw [MemoryBackend.delete]
    split
    · exact h
    · exact h.of_sublist List.filter_sublist
  | cleanup olderThan => exact h.of_sublist List.filter_sublist
  | touch change =>
    refine ⟨h.maxEntries_eq, ?_, ?_, ?_⟩
    · show (List.map Prod.fst (m.states.map _)).Nodup
      rw [List.map_map]
      exact h.nodup
    · intro x hx
      obtain ⟨y, hy, rfl⟩ := List.mem_map.1 hx
      exact h.pairs y hy
    · show ((m.states.map _).length : Int) ≤ maxEntries
      rw [List.length_map]
      exact h.bounded

end Step

theorem sound_of_run {maxEntries : Int} (hmax : 1 ≤ maxEntries) {calls : List StoreCall}
    (hplain : ∀ c ∈ calls, c.Plain) {m : MemoryBackend}
    (hrun : run MemoryBackend.step { maxEntries } calls = some m) : Sound maxEntries m := by
  have hmeets : Meets MemoryBackend.step (fun _ c => c.Plain) { maxEntries } calls :=
    meets_of_forall (fun c hc _ => hplain c hc) _
  refine run_invariant_of_meets ?_ calls { maxEntries } m ?_ hmeets hrun
  · intro m c m' hm hc hstep
    cases hstep
    exact hm.next hmax hc
  · exact ⟨rfl, List.nodup_nil, fun x hx => absurd hx List.not_mem_nil, by show (0 : Int) ≤ maxEntries; omega⟩

/-! ## What a save removes -/

/-- A save of the pair, from `m` to `m'`, keeps within the bound; of a stored pair it removes no other state; and of a
new pair, when the store is full, it removes exactly one, with the smallest `LastUpdated`. -/
structure SaveFrame (m : MemoryBackend) (p : Pair) (m' : MemoryBackend) : Prop where
  bounded : (m'.states.length : Int) ≤ m.maxEntries
  stored : m.stateAt p ≠ none → ∀ q, q ≠ p → m'.stateAt q = m.stateAt q
  new : m.stateAt p = none → m.Full → ∃ q v, m.stateAt q = some v ∧
    (∀ q' w, m.stateAt q' = some w → v.lastUpdated ≤ w.lastUpdated) ∧
    m'.stateAt q = none ∧ ∀ q', q' ≠ q → q' ≠ p → m'.stateAt q' = m.stateAt q'

/-- The pair is stored, and every other stored state has a later `LastUpdated`. -/
def OnlyOldest (m : MemoryBackend) (p : Pair) : Prop :=
  ∃ v, m.stateAt p = some v ∧ ∀ q, q ≠ p → ∀ w, m.stateAt q = some w → v.lastUpdated < w.lastUpdated

section Frame

variable {maxEntries : Int} {m : MemoryBackend} {read : List (String × LimitState)} {p q : Pair} {s : LimitState}

theorem stateAt_save_ne (hs : p.Names s) (now : Time) (hq : q ≠ p) :
    (m.save (some s) now read).2.stateAt q = (m.roomFor read).lookup q.key := by
  rw [save_eq m hs, MemoryBackend.stateAt, Table.lookup_upsert_ne (Pair.key_ne hq)]

theorem Sound.stateAt_eq_some (h : Sound maxEntries m) {v : LimitState} :
    m.stateAt q = some v ↔ (q.key, v) ∈ m.states :=
  Table.lookup_eq_some_iff_mem h.nodup

theorem Sound.exists_pair (h : Sound maxEntries m) {e : String × LimitState} (he : e ∈ m.states) :
    ∃ q : Pair, e.1 = q.key ∧ m.stateAt q = some e.2 := by
  obtain ⟨q, hq⟩ := h.pairs e he
  exact ⟨q, hq, h.stateAt_eq_some.2 (hq ▸ he)⟩

theorem exists_evicted (hmax : 1 ≤ maxEntries) (h : Sound maxEntries m) (hread : read.Perm m.states)
    (hfull : m.Full) :
    ∃ q v, m.stateAt q = some v ∧ (∀ q' w, m.stateAt q' = some w → v.lastUpdated ≤ w.lastUpdated) ∧
      m.roomFor read = Table.erase q.key m.states := by
  obtain ⟨e, he, hroom, hmin⟩ := roomFor_of_full hmax h hread hfull
  obtain ⟨q, hkey, hat⟩ := h.exists_pair he
  exact ⟨q, e.2, hat, fun q' w hw => hmin _ (h.stateAt_eq_some.1 hw), hkey ▸ hroom⟩

theorem stateAt_save_of_evicted (hs : p.Names s) (now : Time) (hq : q ≠ p) {gone : Pair}
    (hroom : m.roomFor read = Table.erase gone.key m.states) :
    (m.save (some s) now read).2.stateAt q = if q = gone then none else m.stateAt q := by
  rw [stateAt_save_ne hs now hq, hroom]
  split
  · rename_i heq
    rw [heq, Table.lookup_erase_self]
  · rename_i hne
    exact Table.lookup_erase_ne (Pair.key_ne hne) m.states

theorem saveFrame_of_condition (hmax : 1 ≤ maxEntries) (h : Sound maxEntries m) (hs : p.Names s) (now : Time)
    (hread : read.Perm m.states) (hcond : m.stateAt p = none ∨ ¬m.Full ∨ OnlyOldest m p) :
    SaveFrame m p (m.save (some s) now read).2 where
  bounded := h.maxEntries_eq ▸ (h.save hmax hs now hread).bounded
  stored hp q hq := by
    by_cases hfull : m.Full
    · obtain ⟨v, hv, hlater⟩ := (hcond.resolve_left hp).resolve_left (not_not_intro hfull)
      obtain ⟨gone, w, hgone, hmin, hroom⟩ := exists_evicted hmax h hread hfull
      -- The evicted state is no later than that of the pair, so it is that of the pair.
      have hself : gone = p := by
        by_contra hne
        exact absurd (hmin p v hv) (Int.not_le.2 (hlater gone hne w hgone))
      rw [stateAt_save_of_evicted hs now hq hroom, if_neg (hself ▸ hq)]
    · rw [stateAt_save_ne hs now hq, roomFor_of_not_full hfull]
      rfl
  new hp hfull := by
    obtain ⟨gone, v, hgone, hmin, hroom⟩ := exists_evicted hmax h hread hfull
    have hne : gone ≠ p := by
      rintro rfl
      rw [hp] at hgone
      cases hgone
    refine ⟨gone, v, hgone, hmin, ?_, ?_⟩
    · rw [stateAt_save_of_evicted hs now hne hroom, if_pos rfl]
    · intro q hq hqp
      rw [stateAt_save_of_evicted hs now hqp hroom, if_neg hq]

theorem exists_read_removing_other (h : Sound maxEntries m) (hfull : m.Full) (hs : p.Names s) (now : Time)
    {v w : LimitState} (hv : m.stateAt p = some v) (hq : q ≠ p) (hw : m.stateAt q = some w)
    (hle : w.lastUpdated ≤ v.lastUpdated) :
    ∃ read, read.Perm m.states ∧ ∃ gone, gone ≠ p ∧ m.stateAt gone ≠ none ∧
      (m.save (some s) now read).2.stateAt gone = none := by
  have hne : (q.key, w) ≠ (p.key, v) := fun heq => Pair.key_ne hq (Prod.mk.inj heq).1
  obtain ⟨read, hread, e, he, hep, hevict⟩ :=
    exists_read_evicting_other (e := (p.key, v)) (h.stateAt_eq_some.1 hw) hne hle
  obtain ⟨gone, hkey, hat⟩ := h.exists_pair he
  have hgone : gone ≠ p := by
    rintro rfl
    rw [hv] at hat
    exact hep (Prod.ext hkey (Option.some.inj hat).symm)
  refine ⟨read, hread, gone, hgone, by rw [hat]; nofun, ?_⟩
  rw [stateAt_save_of_evicted hs now hgone ((if_pos hfull).trans (hkey ▸ hevict)), if_pos rfl]

end Frame

/-- After any run of calls, a save keeps the bound and the other states, in every order of the map, exactly when the
pair is new, or the store is not full, or the pair holds the one oldest state. -/
theorem save_frame_iff (maxEntries : Int) (hmax : 1 ≤ maxEntries) (calls : List StoreCall)
    (hplain : ∀ c ∈ calls, c.Plain) (m : MemoryBackend)
    (hrun : run MemoryBackend.step { maxEntries } calls = some m) (p : Pair) (s : LimitState) (hs : p.Names s)
    (now : Time) :
    (m.states.length : Int) ≤ maxEntries ∧
    ((∀ read, read.Perm m.states → SaveFrame m p (m.save (some s) now read).2) ↔
      m.stateAt p = none ∨ ¬m.Full ∨ OnlyOldest m p) := by
  have h := sound_of_run hmax hplain hrun
  refine ⟨h.bounded, ?_, fun hcond read hread => saveFrame_of_condition hmax h hs now hread hcond⟩
  intro hframe
  cases hv : m.stateAt p with
  | none => exact .inl rfl
  | some v =>
    by_cases hfull : m.Full
    · refine .inr (.inr ⟨v, hv, fun q hq w hw => Int.not_le.1 fun hle => ?_⟩)
      obtain ⟨read, hread, gone, hgone, hsome, hnone⟩ := exists_read_removing_other h hfull hs now hv hq hw hle
      have hkept := (hframe read hread).stored (by rw [hv]; nofun) gone hgone
      exact hsome (hkept ▸ hnone)
    · exact .inr (.inl hfull)

def letterPair (identifier : String) (h : identifier ≠ "" ∧ ':' ∉ identifier.toList) : Pair :=
  ⟨identifier, "api_key", h.1, by decide, h.2, by decide⟩

def savedAt (identifier : String) (t : Time) : StoreCall :=
  .save (some { identifier, dimension := "api_key" }) t ⟨id, fun _ => .refl _⟩

theorem third_pair_evicts_oldest :
    ∃ m, run MemoryBackend.step { maxEntries := 2 } [savedAt "a" 1, savedAt "b" 2] = some m ∧
      ∀ read, read.Perm m.states →
        SaveFrame m (letterPair "c" (by decide))
          (m.save (some { identifier := "c", dimension := "api_key" }) 3 read).2 := by
  refine ⟨_, rfl, ?_⟩
  exact (save_frame_iff 2 (by decide) [savedAt "a" 1, savedAt "b" 2] (by simp [savedAt, StoreCall.Plain]) _ rfl
    (letterPair "c" (by decide)) { identifier := "c", dimension := "api_key" } ⟨rfl, rfl⟩ 3).2.2 (.inl (by decide))

/-- A store for two holds `a` and `b`; saving `b` again removes `a`. -/
theorem saving_again_removes_other :
    ∃ m m', run MemoryBackend.step { maxEntries := 2 } [savedAt "a" 1, savedAt "b" 2] = some m ∧
      (m.stateAt (letterPair "a" (by decide))).isSome ∧ (m.stateAt (letterPair "b" (by decide))).isSome ∧
      run MemoryBackend.step { maxEntries := 2 } [savedAt "a" 1, savedAt "b" 2, savedAt "b" 3] = some m' ∧
      m'.stateAt (letterPair "a" (by decide)) = none := by
  refine ⟨_, _, rfl, ?_, ?_, rfl, ?_⟩
  · decide
  · decide
  · decide

end Jupiter.Limits.Storage
