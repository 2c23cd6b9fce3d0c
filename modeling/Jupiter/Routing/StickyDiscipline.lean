/-
The sticky cache along a run of calls, against what its calls say alone.

What is held of a key (`Held`) is told from the calls: the provider of the latest `Set`, when it was made and when the
key was last used, unless the key was deleted or evicted since. The cache agrees with it on every entry, and an entry
that it no longer has is one whose time to live is over, so `Get` answers from what is held (`Tracks`).
-/
import Jupiter.Lib.Least
import Jupiter.Lib.Table
import Jupiter.Routing.Types

namespace Jupiter.Routing.StickyCache

open Jupiter.Go Jupiter.Lib

/-! ## Calls -/

/-- The order in which the map is read at some point of a run. -/
structure ReadOrder where
  arrange : List (String × StickyEntry) → List (String × StickyEntry)
  perm : ∀ l, (arrange l).Perm l

inductive Call where
  | get (now accessed : Time) (key : String)
  | set (order : ReadOrder) (now : Time) (key providerName : String)
  | delete (key : String)
  | removeExpired (now : Time)

namespace Call

def times : Call → List Time
  | .get now accessed _ => [now, accessed]
  | .set _ now _ _ => [now]
  | .delete _ => []
  | .removeExpired now => [now]

def Keyed : Call → Prop
  | .get _ _ key => key ≠ ""
  | .set _ _ key _ => key ≠ ""
  | .delete key => key ≠ ""
  | .removeExpired _ => True

def CleansUp : Call → Prop
  | .removeExpired _ => True
  | _ => False

end Call

def setIn (c : StickyCache) (order : ReadOrder) (now : Time) (key providerName : String) : StickyCache :=
  c.set (order.arrange c.entries) now key providerName

def next (c : StickyCache) : Call → StickyCache
  | .get now accessed key => (c.get now accessed key).2
  | .set order now key providerName => c.setIn order now key providerName
  | .delete key => c.delete key
  | .removeExpired now => c.removeExpired now

/-! ## What is held of a key -/

structure Held where
  providerName : String
  setAt : Time
  accessedAt : Time

def evicts (c : StickyCache) (order : ReadOrder) (now : Time) (key providerName k : String) : Bool :=
  (c.entry k).isSome && ((c.setIn order now key providerName).entry k).isNone

/-- What is held of a key after a call: a `Set` replaces it, a `Get` that succeeds is an access, and it ends with
a `Delete` of the key or with its eviction. The clean-up does not change it. -/
def note (c : StickyCache) (held : String → Option Held) : Call → String → Option Held
  | .get now accessed key, k =>
    if k = key ∧ (c.get now accessed key).1.isSome then (held k).map fun h => { h with accessedAt := accessed } else held k
  | .set order now key providerName, k =>
    if k = key then some ⟨providerName, now, now⟩
    else if c.evicts order now key providerName k then none
    else held k
  | .delete key, k => if k = key then none else held k
  | .removeExpired _, k => held k

/-- A cache, and what is held by its history. -/
structure Tracked where
  cache : StickyCache
  held : String → Option Held

def Tracked.next (s : Tracked) (call : Call) : Tracked := ⟨s.cache.next call, note s.cache s.held call⟩

def after (ttl : Duration) (maxEntries : Int) (calls : List Call) : Tracked :=
  calls.foldl Tracked.next ⟨⟨[], ttl, maxEntries⟩, fun _ => none⟩

def Held.over (ttl : Duration) (now : Time) (h : Held) : Prop := 0 < ttl ∧ h.setAt + ttl < now

instance (ttl : Duration) (now : Time) (h : Held) : Decidable (h.over ttl now) := inferInstanceAs (Decidable (_ ∧ _))

/-! ## Entries after an update -/

section Entries

variable {c : StickyCache} {key k : String}

theorem entry_delete_self : (c.delete key).entry key = none := Table.lookup_erase_self key c.entries

theorem entry_delete_ne (h : k ≠ key) : (c.delete key).entry k = c.entry k := Table.lookup_erase_ne h c.entries

theorem entry_eq_some_iff (hnodup : (Table.keys c.entries).Nodup) {e : StickyEntry} :
    c.entry k = some e ↔ (k, e) ∈ c.entries := Table.lookup_eq_some_iff_mem hnodup

theorem put_nodup (hnodup : (Table.keys c.entries).Nodup) (key : String) (e : StickyEntry) :
    (Table.keys (c.put key e).entries).Nodup :=
  List.nodup_cons.2 ⟨Table.lookup_eq_none.1 (Table.lookup_erase_self key c.entries),
    hnodup.sublist (List.filter_sublist.map _)⟩

theorem length_put_le (key : String) (e : StickyEntry) : (c.put key e).entries.length ≤ c.entries.length + 1 :=
  Nat.succ_le_succ (List.length_filter_le _ _)

theorem length_put_present (key : String) (e : StickyEntry) (h : c.entry key ≠ none) :
    (c.put key e).entries.length ≤ c.entries.length :=
  Table.length_erase_lt (not_not.1 fun hkey => h (Table.lookup_eq_none.2 hkey))

theorem length_delete_lt {x : String × StickyEntry} (hx : x ∈ c.entries) :
    (c.delete x.1).entries.length < c.entries.length := Table.length_erase_lt (List.mem_map_of_mem hx)

end Entries

/-! ## Making room -/

section Room

variable {c : StickyCache} {key : String}

def roomFor (c : StickyCache) (order : ReadOrder) (key : String) : StickyCache :=
  if c.maxEntries > 0 ∧ (c.entries.length : Int) ≥ c.maxEntries ∧ c.entry key = none then
    c.evictLRU (order.arrange c.entries)
  else c

def newEntry (c : StickyCache) (now : Time) (providerName : String) : StickyEntry :=
  { providerName, expiresAt := if c.ttl > 0 then now + c.ttl else 0, createdAt := now, lastAccessedAt := now,
    accessCount := 1 }

theorem setIn_eq (c : StickyCache) (order : ReadOrder) (now : Time) (key providerName : String) :
    c.setIn order now key providerName = (c.roomFor order key).put key (c.newEntry now providerName) := rfl

theorem leastRecent_cons (y : String × StickyEntry) (l : List (String × StickyEntry)) (hnamed : ∀ x ∈ y :: l, x.1 ≠ "") :
    leastRecent (y :: l) =
      ((least (fun x => x.2.lastAccessedAt) y l).1, (least (fun x => x.2.lastAccessedAt) y l).2.lastAccessedAt) := by
  refine foldl_eq_least (fun x : String × StickyEntry => (x.1, x.2.lastAccessedAt)) (·.2.lastAccessedAt) ?_
  intro b hb x
  simp [hnamed b hb]

theorem evictLRU_spec (order : ReadOrder) (hne : c.entries ≠ []) (hnamed : ∀ x ∈ c.entries, x.1 ≠ "") :
    ∃ x ∈ c.entries, c.evictLRU (order.arrange c.entries) = c.delete x.1 ∧
      ∀ y ∈ c.entries, x.2.lastAccessedAt ≤ y.2.lastAccessedAt := by
  have hperm := order.perm c.entries
  cases hread : order.arrange c.entries with
  | nil => exact absurd (hread ▸ hperm).nil_eq.symm hne
  | cons y l =>
    have hmem : ∀ x, x ∈ y :: l ↔ x ∈ c.entries := fun x => (hread ▸ hperm).mem_iff
    have hkey := leastRecent_cons y l fun x hx => hnamed x ((hmem x).1 hx)
    have hleast := (hmem _).1 (least_mem (fun x : String × StickyEntry => x.2.lastAccessedAt) y l)
    have hmin := (least_spec (fun x : String × StickyEntry => x.2.lastAccessedAt) y l).2
    refine ⟨_, hleast, ?_, fun z hz => hmin z ((hmem z).2 hz)⟩
    rw [evictLRU, hkey]
    exact if_pos (hnamed _ hleast)

end Room

/-! ## The invariant -/

/-- The cache agrees with what is held on each of its entries, and what it does not have is over at time `t`. -/
structure Tracks (ttl : Duration) (maxEntries : Int) (t : Time) (s : Tracked) : Prop where
  ttl_eq : s.cache.ttl = ttl
  max_eq : s.cache.maxEntries = maxEntries
  nodup : (s.cache.entries.map Prod.fst).Nodup
  named : ∀ x ∈ s.cache.entries, x.1 ≠ ""
  bounded : 0 < maxEntries → (s.cache.entries.length : Int) ≤ maxEntries
  agrees : ∀ k e, s.cache.entry k = some e → s.held k = some ⟨e.providerName, e.createdAt, e.lastAccessedAt⟩
  expires : 0 < ttl → ∀ k e, s.cache.entry k = some e → e.expiresAt = e.createdAt + ttl
  gone : ∀ k h, s.held k = some h → s.cache.entry k = none → h.over ttl t

namespace Tracks

variable {ttl : Duration} {maxEntries : Int} {t : Time} {c : StickyCache} {held held' : String → Option Held}
  {key : String}

theorem put (h : Tracks ttl maxEntries t ⟨c, held⟩) (hkey : key ≠ "") {e : StickyEntry}
    (hroom : 0 < maxEntries → ((c.put key e).entries.length : Int) ≤ maxEntries)
    (hexpires : 0 < ttl → e.expiresAt = e.createdAt + ttl)
    (hself : held' key = some ⟨e.providerName, e.createdAt, e.lastAccessedAt⟩)
    (hother : ∀ k, k ≠ key → held' k = held k) : Tracks ttl maxEntries t ⟨c.put key e, held'⟩ where
  ttl_eq := h.ttl_eq
  max_eq := h.max_eq
  nodup := put_nodup h.nodup key e
  named x hx := by
    rcases List.mem_cons.1 hx with rfl | hx
    · exact hkey
    · exact h.named x (List.mem_of_mem_filter hx)
  bounded := hroom
  agrees k e' he := by
    by_cases hk : k = key
    · subst hk
      obtain rfl : e = e' := Option.some.inj ((entry_put_self c k e).symm.trans he)
      exact hself
    · exact (hother k hk).trans (h.agrees k e' ((entry_put_ne c hk e).symm.trans he))
  expires hpos k e' he := by
    by_cases hk : k = key
    · subst hk
      obtain rfl : e = e' := Option.some.inj ((entry_put_self c k e).symm.trans he)
      exact hexpires hpos
    · exact h.expires hpos k e' ((entry_put_ne c hk e).symm.trans he)
  gone k hd hheld hnone := by
    have hk : k ≠ key := by
      rintro rfl
      cases (entry_put_self c k e).symm.trans hnone
    exact h.gone k hd ((hother k hk).symm.trans hheld) ((entry_put_ne c hk e).symm.trans hnone)

theorem delete (h : Tracks ttl maxEntries t ⟨c, held⟩) (hself : held' key = none)
    (hother : ∀ k, k ≠ key → held' k = held k) : Tracks ttl maxEntries t ⟨c.delete key, held'⟩ where
  ttl_eq := h.ttl_eq
  max_eq := h.max_eq
  nodup := h.nodup.sublist (List.filter_sublist.map _)
  named x hx := h.named x (List.mem_of_mem_filter hx)
  bounded hpos := by
    have hle : (c.delete key).entries.length ≤ c.entries.length := List.length_filter_le _ _
    have hbound := h.bounded hpos
    dsimp only at hbound ⊢
    omega
  agrees k e he := by
    have hk : k ≠ key := by
      rintro rfl
      cases entry_delete_self.symm.trans he
    exact (hother k hk).trans (h.agrees k e ((entry_delete_ne hk).symm.trans he))
  expires hpos k e he := by
    have hk : k ≠ key := by
      rintro rfl
      cases entry_delete_self.symm.trans he
    exact h.expires hpos k e ((entry_delete_ne hk).symm.trans he)
  gone k hd hheld hnone := by
    have hk : k ≠ key := by
      rintro rfl
      cases hself.symm.trans hheld
    exact h.gone k hd ((hother k hk).symm.trans hheld) ((entry_delete_ne hk).symm.trans hnone)

theorem get_cases (h : Tracks ttl maxEntries t ⟨c, held⟩) (now accessed : Time) (key : String) :
    (c.get now accessed key = (none, c) ∧ ∀ hd, held key = some hd → hd.over ttl now ∨ hd.over ttl t) ∨
      ∃ e, c.entry key = some e ∧ ¬ (Held.mk e.providerName e.createdAt e.lastAccessedAt).over ttl now ∧
        c.get now accessed key = (some e.providerName,
          c.put key { e with lastAccessedAt := accessed, accessCount := e.accessCount + 1 }) := by
  unfold get
  cases he : c.entry key with
  | none => exact .inl ⟨rfl, fun hd hheld => .inr (h.gone key hd hheld he)⟩
  | some e =>
    have hexpired : c.expired now e = true ↔ (Held.mk e.providerName e.createdAt e.lastAccessedAt).over ttl now := by
      have httl : c.ttl = ttl := h.ttl_eq
      unfold expired Held.over
      rw [httl, Bool.and_eq_true, decide_eq_true_iff, decide_eq_true_iff]
      refine and_congr_right fun hpos => ?_
      rw [h.expires hpos key e he]
    dsimp only
    by_cases hover : (Held.mk e.providerName e.createdAt e.lastAccessedAt).over ttl now
    · rw [if_pos (hexpired.2 hover)]
      refine .inl ⟨rfl, fun hd hheld => .inl ?_⟩
      cases (h.agrees key e he).symm.trans hheld
      exact hover
    · rw [if_neg (mt hexpired.1 hover)]
      exact .inr ⟨e, rfl, hover, rfl⟩

theorem get (h : Tracks ttl maxEntries t ⟨c, held⟩) (now accessed : Time) (hkey : key ≠ "") :
    Tracks ttl maxEntries t (Tracked.next ⟨c, held⟩ (.get now accessed key)) := by
  rcases h.get_cases now accessed key with ⟨hget, -⟩ | ⟨e, he, -, hget⟩
  · have hsame : Tracked.next ⟨c, held⟩ (.get now accessed key) = ⟨c, held⟩ := by
      have hheld : note c held (.get now accessed key) = held := by
        funext k
        simp [note, hget]
      simp [Tracked.next, StickyCache.next, hget, hheld]
    rw [hsame]
    exact h
  · have hself : note c held (.get now accessed key) key = some ⟨e.providerName, e.createdAt, accessed⟩ := by
      have hheld : held key = _ := h.agrees key e he
      simp [note, hget, hheld]
    have hother : ∀ k, k ≠ key → note c held (.get now accessed key) k = held k :=
      fun k hk => if_neg fun hand => hk hand.1
    show Tracks ttl maxEntries t ⟨(c.get now accessed key).2, note c held (.get now accessed key)⟩
    rw [hget]
    refine h.put (e := { e with lastAccessedAt := accessed, accessCount := e.accessCount + 1 }) hkey (fun hpos => ?_)
      (fun hpos => h.expires hpos key e he) hself hother
    have hle := length_put_present key
      { e with lastAccessedAt := accessed, accessCount := e.accessCount + 1 } (by simp [he] : c.entry key ≠ none)
    have hbound := h.bounded hpos
    dsimp only at hbound
    omega

theorem length_roomFor (h : Tracks ttl maxEntries t ⟨c, held⟩) (order : ReadOrder) (hpos : 0 < maxEntries)
    (hnew : c.entry key = none) : ((c.roomFor order key).entries.length : Int) < maxEntries := by
  have hmax : c.maxEntries = maxEntries := h.max_eq
  have hbound := h.bounded hpos
  dsimp only at hbound
  unfold roomFor
  by_cases hfull : (c.entries.length : Int) ≥ c.maxEntries
  · have hne : c.entries ≠ [] := by
      intro hnil
      rw [hnil, List.length_nil] at hfull
      omega
    obtain ⟨x, hx, hevict, -⟩ := evictLRU_spec order hne h.named
    rw [if_pos ⟨by omega, hfull, hnew⟩, hevict]
    have hless := length_delete_lt hx
    omega
  · rw [if_neg fun hand => hfull hand.2.1]
    omega

theorem roomFor_cases (h : Tracks ttl maxEntries t ⟨c, held⟩) (order : ReadOrder) (key : String) :
    (c.roomFor order key = c ∧
        ¬ (0 < maxEntries ∧ maxEntries ≤ c.entries.length ∧ c.entry key = none)) ∨
      c.entry key = none ∧ ∃ x ∈ c.entries, c.roomFor order key = c.delete x.1 ∧
        ∀ y ∈ c.entries, x.2.lastAccessedAt ≤ y.2.lastAccessedAt := by
  have hmax : c.maxEntries = maxEntries := h.max_eq
  unfold roomFor
  rw [hmax]
  by_cases hfull : maxEntries > 0 ∧ (c.entries.length : Int) ≥ maxEntries ∧ c.entry key = none
  · have hne : c.entries ≠ [] := by
      intro hnil
      have hlen := hfull.2.1
      rw [hnil, List.length_nil] at hlen
      omega
    obtain ⟨x, hx, hevict, hleast⟩ := evictLRU_spec order hne h.named
    exact .inr ⟨hfull.2.2, x, hx, by rw [if_pos hfull, hevict], hleast⟩
  · exact .inl ⟨if_neg hfull, hfull⟩

theorem entry_setIn_ne (c : StickyCache) (order : ReadOrder) (now : Time) (providerName : String) {k : String}
    (hk : k ≠ key) : (c.setIn order now key providerName).entry k = (c.roomFor order key).entry k := by
  rw [setIn_eq]
  exact entry_put_ne _ hk _

theorem set (h : Tracks ttl maxEntries t ⟨c, held⟩) (order : ReadOrder) (now : Time) (providerName : String)
    (hkey : key ≠ "") : Tracks ttl maxEntries t (Tracked.next ⟨c, held⟩ (.set order now key providerName)) := by
  have httl : c.ttl = ttl := h.ttl_eq
  have hexpires : 0 < ttl → (c.newEntry now providerName).expiresAt = now + ttl := by
    intro hpos
    rw [newEntry, httl, if_pos hpos]
  have hself : note c held (.set order now key providerName) key = some ⟨providerName, now, now⟩ := if_pos rfl
  show Tracks ttl maxEntries t ⟨c.setIn order now key providerName, note c held (.set order now key providerName)⟩
  rw [setIn_eq]
  have hlength : 0 < maxEntries →
      (((c.roomFor order key).put key (c.newEntry now providerName)).entries.length : Int) ≤ maxEntries := by
    intro hpos
    by_cases hnew : c.entry key = none
    · have hless := h.length_roomFor order hpos hnew
      have hle := length_put_le (c := c.roomFor order key) key (c.newEntry now providerName)
      omega
    · have hroom : c.roomFor order key = c := if_neg fun hand => hnew hand.2.2
      have hle := length_put_present key (c.newEntry now providerName) hnew
      have hbound := h.bounded hpos
      dsimp only at hbound
      rw [hroom]
      omega
  rcases h.roomFor_cases order key with ⟨hroom, -⟩ | ⟨hnew, x, hx, hroom, -⟩
  · rw [hroom] at hlength ⊢
    refine h.put hkey hlength hexpires hself fun k hk => ?_
    have hkept : c.evicts order now key providerName k = false := by
      rw [evicts, entry_setIn_ne c order now providerName hk, hroom]
      cases c.entry k <;> rfl
    simp [note, hk, hkept]
  · rw [hroom] at hlength ⊢
    have hvictim : c.entry x.1 = some x.2 := (entry_eq_some_iff h.nodup).2 hx
    have hdeleted : Tracks ttl maxEntries t ⟨c.delete x.1, fun k => if k = x.1 then none else held k⟩ :=
      h.delete (if_pos rfl) fun k hk => if_neg hk
    refine hdeleted.put hkey hlength hexpires hself fun k hk => ?_
    have hevicted : c.evicts order now key providerName k = decide (k = x.1) := by
      rw [evicts, entry_setIn_ne c order now providerName hk, hroom]
      by_cases hkx : k = x.1
      · rw [hkx, hvictim, entry_delete_self]
        simp
      · rw [entry_delete_ne hkx]
        cases c.entry k <;> simp [hkx]
    simp [note, hk, hevicted]

theorem removeExpired (h : Tracks ttl maxEntries t ⟨c, held⟩) (hnonneg : 0 ≤ ttl) {now : Time} (hnow : now ≤ t) :
    Tracks ttl maxEntries t ⟨c.removeExpired now, held⟩ := by
  obtain rfl : c.ttl = ttl := h.ttl_eq
  unfold StickyCache.removeExpired
  by_cases hzero : c.ttl = 0
  · rw [if_pos hzero]
    exact h
  · rw [if_neg hzero]
    have hsub : (c.entries.filter fun x => !decide (now > x.2.expiresAt)).Sublist c.entries := List.filter_sublist
    have hnodup := h.nodup.sublist (hsub.map Prod.fst)
    have hentry : ∀ k e, (⟨c.entries.filter fun x => !decide (now > x.2.expiresAt), c.ttl, c.maxEntries⟩ :
        StickyCache).entry k = some e ↔ c.entry k = some e ∧ ¬ e.expiresAt < now := by
      intro k e
      refine (Table.lookup_eq_some_iff_mem hnodup).trans ?_
      rw [entry_eq_some_iff h.nodup, List.mem_filter]
      simp
    refine ⟨rfl, h.max_eq, hnodup, fun x hx => h.named x (hsub.subset hx), fun hpos => ?_,
      fun k e he => h.agrees k e ((hentry k e).1 he).1, fun hpos k e he => h.expires hpos k e ((hentry k e).1 he).1, ?_⟩
    · have hle := hsub.length_le
      have hbound := h.bounded hpos
      dsimp only at hbound ⊢
      omega
    · intro k hd hheld hnone
      cases he : c.entry k with
      | none => exact h.gone k hd hheld he
      | some e =>
        -- the entry was there and is gone, so its time was over at the clean-up
        have hpos : 0 < c.ttl := Int.lt_iff_le_and_ne.2 ⟨hnonneg, Ne.symm hzero⟩
        have hlate : e.expiresAt < now := by
          by_contra hnot
          cases hnone.symm.trans ((hentry k e).2 ⟨he, hnot⟩)
        rw [h.expires hpos k e he] at hlate
        cases (h.agrees k e he).symm.trans hheld
        exact ⟨hpos, Int.lt_of_lt_of_le hlate hnow⟩

theorem next {s : Tracked} (h : Tracks ttl maxEntries t s) (call : Call) (hkey : call.Keyed)
    (hclean : call.CleansUp → 0 ≤ ttl) (htimes : ∀ x ∈ call.times, x ≤ t) : Tracks ttl maxEntries t (s.next call) := by
  cases call with
  | get now accessed key => exact h.get now accessed hkey
  | set order now key providerName => exact h.set order now providerName hkey
  | delete key => exact h.delete (if_pos rfl) fun k hk => if_neg hk
  | removeExpired now => exact h.removeExpired (hclean trivial) (htimes now (by simp [Call.times]))

theorem run {s : Tracked} (h : Tracks ttl maxEntries t s) (calls : List Call) (hkeys : ∀ call ∈ calls, call.Keyed)
    (hclean : ∀ call ∈ calls, call.CleansUp → 0 ≤ ttl) (htimes : ∀ x ∈ calls.flatMap Call.times, x ≤ t) :
    Tracks ttl maxEntries t (calls.foldl Tracked.next s) := by
  induction calls generalizing s with
  | nil => exact h
  | cons call calls ih =>
    have hnext := h.next call (hkeys call List.mem_cons_self) (hclean call List.mem_cons_self)
      fun x hx => htimes x (List.mem_flatMap.2 ⟨call, List.mem_cons_self, hx⟩)
    refine ih hnext (fun c hc => hkeys c (List.mem_cons_of_mem _ hc)) (fun c hc => hclean c (List.mem_cons_of_mem _ hc))
      fun x hx => htimes x ?_
    rw [List.flatMap_cons]
    exact List.mem_append_right _ hx

end Tracks

theorem tracks_empty (ttl : Duration) (maxEntries : Int) (t : Time) :
    Tracks ttl maxEntries t ⟨⟨[], ttl, maxEntries⟩, fun _ => none⟩ where
  ttl_eq := rfl
  max_eq := rfl
  nodup := List.nodup_nil
  named := by simp
  bounded := Int.le_of_lt
  agrees k e he := by cases he
  expires _ k e he := by cases he
  gone k h hheld := by cases hheld

/-! ## The discipline -/

/-- What the next call does. `Get` answers with the provider that is held of the key, unless its time to live is
over. `Set` of a key that is there takes nothing out; `Set` of a new key in a full cache takes out one entry, of
those with the least access time, and no other. -/
def Disciplined (ttl : Duration) (maxEntries : Int) (s : Tracked) : Call → Prop
  | .get now accessed key =>
    (s.cache.get now accessed key).1 = (s.held key).bind fun h => if h.over ttl now then none else some h.providerName
  | .set order now key providerName =>
    (s.cache.entry key ≠ none →
      ∀ k, k ≠ key → (s.cache.setIn order now key providerName).entry k = s.cache.entry k) ∧
    (s.cache.entry key = none → 0 < maxEntries → maxEntries ≤ s.cache.entries.length →
      ∃ victim h, (s.cache.entry victim).isSome ∧ s.held victim = some h ∧
        (∀ k h', (s.cache.entry k).isSome → s.held k = some h' → h.accessedAt ≤ h'.accessedAt) ∧
        (s.cache.setIn order now key providerName).entry victim = none ∧
        ∀ k, k ≠ key → k ≠ victim → (s.cache.setIn order now key providerName).entry k = s.cache.entry k)
  | .delete _ | .removeExpired _ => True

namespace Tracks

variable {ttl : Duration} {maxEntries : Int} {t : Time} {s : Tracked}

theorem disciplined_get (h : Tracks ttl maxEntries t s) {now : Time} (hnow : t ≤ now) (accessed : Time) (key : String) :
    Disciplined ttl maxEntries s (.get now accessed key) := by
  obtain ⟨c, held⟩ := s
  show (c.get now accessed key).1 = (held key).bind fun h => if h.over ttl now then none else some h.providerName
  rcases h.get_cases now accessed key with ⟨hget, hover⟩ | ⟨e, he, hlive, hget⟩
  · rw [hget]
    cases hheld : held key with
    | none => rfl
    | some hd =>
      have hlate : hd.over ttl now := by
        rcases hover hd hheld with hlate | hlate
        · exact hlate
        · exact ⟨hlate.1, Int.lt_of_lt_of_le hlate.2 hnow⟩
      rw [Option.bind_some, if_pos hlate]
  · have hheld : held key = _ := h.agrees key e he
    rw [hget, hheld, Option.bind_some, if_neg hlive]

theorem disciplined_set (h : Tracks ttl maxEntries t s) (order : ReadOrder) (now : Time) (key providerName : String) :
    Disciplined ttl maxEntries s (.set order now key providerName) := by
  obtain ⟨c, held⟩ := s
  constructor
  · intro hpresent k hk
    have hroom : c.roomFor order key = c := if_neg fun hand => hpresent hand.2.2
    exact (entry_setIn_ne c order now providerName hk).trans (congrArg (fun c' => c'.entry k) hroom)
  · intro hnew hpos hfull
    rcases h.roomFor_cases order key with ⟨-, hnotFull⟩ | ⟨-, x, hx, hroom, hleast⟩
    · exact absurd ⟨hpos, hfull, hnew⟩ hnotFull
    · have hvictim : c.entry x.1 = some x.2 := (entry_eq_some_iff h.nodup).2 hx
      have hne : x.1 ≠ key := by
        intro heq
        cases (heq ▸ hvictim).symm.trans hnew
      refine ⟨x.1, _, by simp [hvictim], h.agrees x.1 x.2 hvictim, ?_, ?_, ?_⟩
      · intro k h' hk hheld
        obtain ⟨e, he⟩ := Option.isSome_iff_exists.1 hk
        cases (h.agrees k e he).symm.trans hheld
        exact hleast (k, e) ((entry_eq_some_iff h.nodup).1 he)
      · show (c.setIn order now key providerName).entry x.1 = none
        rw [entry_setIn_ne c order now providerName hne, hroom, entry_delete_self]
      · intro k hk hkx
        show (c.setIn order now key providerName).entry k = c.entry k
        rw [entry_setIn_ne c order now providerName hk, hroom, entry_delete_ne hkx]

end Tracks

theorem exists_latest (times : List Time) : ∃ t, ∀ x ∈ times, x ≤ t := by
  induction times with
  | nil => exact ⟨0, by simp⟩
  | cons y times ih =>
    obtain ⟨t, ht⟩ := ih
    refine ⟨max y t, List.forall_mem_cons.2 ⟨Int.le_max_left y t, fun x hx => ?_⟩⟩
    exact Int.le_trans (ht x hx) (Int.le_max_right y t)

/-- Along every run with keys that are not empty and times that do not decrease, and no clean-up with a negative time to
live: the cache stays within its bound, and the call after the run is disciplined. -/
theorem sticky_disciplined (ttl : Duration) (maxEntries : Int) (calls : List Call) (call : Call)
    (hkeys : ∀ c ∈ calls ++ [call], c.Keyed) (htimes : ((calls ++ [call]).flatMap Call.times).Pairwise (· ≤ ·))
    (hclean : ∀ c ∈ calls ++ [call], c.CleansUp → 0 ≤ ttl) :
    (0 < maxEntries → ((after ttl maxEntries calls).cache.entries.length : Int) ≤ maxEntries) ∧
      Disciplined ttl maxEntries (after ttl maxEntries calls) call := by
  have hkeys' : ∀ c ∈ calls, c.Keyed := fun c hc => hkeys c (List.mem_append_left _ hc)
  have hclean' : ∀ c ∈ calls, c.CleansUp → 0 ≤ ttl := fun c hc => hclean c (List.mem_append_left _ hc)
  rw [List.flatMap_append, List.pairwise_append] at htimes
  have htracks : ∀ t, (∀ x ∈ calls.flatMap Call.times, x ≤ t) → Tracks ttl maxEntries t (after ttl maxEntries calls) :=
    fun t ht => (tracks_empty ttl maxEntries t).run calls hkeys' hclean' ht
  obtain ⟨latest, hlatest⟩ := exists_latest (calls.flatMap Call.times)
  refine ⟨(htracks latest hlatest).bounded, ?_⟩
  cases call with
  | get now accessed key =>
    have hnow : ∀ x ∈ calls.flatMap Call.times, x ≤ now := fun x hx => htimes.2.2 x hx now (by simp [Call.times])
    exact (htracks now hnow).disciplined_get (Int.le_refl now) accessed key
  | set order now key providerName => exact (htracks latest hlatest).disciplined_set order now key providerName
  | delete key => trivial
  | removeExpired now => trivial

def inOrder : ReadOrder := ⟨id, fun _ => .refl _⟩

def crowded : List Call := [.set inOrder 0 "alice" "openai", .set inOrder 1 "bob" "anthropic"]

theorem sticky_disciplined_crowded :
    ((after 10 1 crowded).cache.entries.length : Int) ≤ 1 ∧
      Disciplined 10 1 (after 10 1 crowded) (.get 5 5 "bob") := by
  have h := sticky_disciplined 10 1 crowded (.get 5 5 "bob") (by simp [crowded, Call.Keyed]) (by decide)
    (by simp [crowded, Call.CleansUp])
  exact ⟨h.1 (by decide), h.2⟩

/-- With a negative time to live `Get` takes entries as lasting, and the clean-up removes them all. -/
theorem sticky_negative_ttl_cleaned :
    (∀ c ∈ [Call.set inOrder 0 "alice" "openai", .removeExpired 1, .get 2 2 "alice"], c.Keyed) ∧
      ([Call.set inOrder 0 "alice" "openai", .removeExpired 1, .get 2 2 "alice"].flatMap Call.times).Pairwise (· ≤ ·) ∧
      ¬ Disciplined (-1) 0 (after (-1) 0 [.set inOrder 0 "alice" "openai", .removeExpired 1]) (.get 2 2 "alice") := by
  refine ⟨by simp [Call.Keyed], by decide, fun h => ?_⟩
  have hnone : (none : Option String) = some "openai" := h
  cases hnone

end Jupiter.Routing.StickyCache
