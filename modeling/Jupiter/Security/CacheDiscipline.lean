/-
The bound of the secret cache and what a `Set` removes.

`Set` makes room before it looks whether its key is there, so on a full cache the entry set longest ago goes even when
the key is only overwritten. The loop that finds that entry starts from the empty key, and the empty key is taken for no
entry found.
-/
import Jupiter.Lib.Least
import Jupiter.Security.Secrets

namespace Jupiter.Security

open Jupiter.Go Jupiter.Lib

/-! ## Runs of `Set` -/

/-- A call of `Set`; `read` is the order in which the map is read. -/
structure SetCall where
  key : String
  value : String
  now : Time
  read : List (String × CacheEntry) → List (String × CacheEntry)
  perm : ∀ entries, (read entries).Perm entries

structure SecretCache where
  entries : List (String × CacheEntry) := []
  log : List (String × Time) := []

namespace SecretCache

variable (config : CacheConfig)

def next (s : SecretCache) (c : SetCall) : SecretCache where
  entries := Cache.set config s.entries (c.read s.entries) c.now c.key c.value
  log := (c.key, c.now) :: s.log

def step (s : SecretCache) (c : SetCall) : Option SecretCache := some (s.next config c)

def Present (s : SecretCache) (key : String) : Prop := key ∈ Table.keys s.entries

instance (s : SecretCache) (key : String) : Decidable (s.Present key) := inferInstanceAs (Decidable (key ∈ _))

def Full (s : SecretCache) : Prop := config.maxSize ≤ s.entries.length

def setAt (s : SecretCache) (key : String) : Option Time := s.log.lookup key

def Oldest (s : SecretCache) (key : String) : Prop :=
  s.Present key ∧ ∀ other, s.Present other → other ≠ key →
    ∃ t t', s.setAt key = some t ∧ s.setAt other = some t' ∧ t < t'

/-- The call, from `s` to `s'`, keeps within the bound; with a key that is present it removes no other entry; and with
a new key, when the cache is full, it removes exactly the entry that was set longest ago. -/
structure SetFrame (s : SecretCache) (key : String) (s' : SecretCache) : Prop where
  bounded : (s'.entries.length : Int) ≤ config.maxSize
  present : s.Present key → ∀ other, other ≠ key → s'.entries.lookup other = s.entries.lookup other
  new : ¬s.Present key → s.Full config → ∃ gone, s.Oldest gone ∧ s'.entries.lookup gone = none ∧
    ∀ other, other ≠ gone → other ≠ key → s'.entries.lookup other = s.entries.lookup other

/-- The call meets no full cache, or one whose oldest key is not empty when its own key is new, and is empty or its own
when that is present. -/
def Unaffected (s : SecretCache) (key : String) : Prop :=
  s.Full config → ∀ oldest, s.Oldest oldest →
    (¬s.Present key → oldest ≠ "") ∧ (s.Present key → oldest = "" ∨ oldest = key)

end SecretCache

/-! ## The entry that goes -/

theorem oldest_spec {read entries : List (String × CacheEntry)} (hread : read.Perm entries) (hne : entries ≠ []) :
    ∃ e ∈ entries, Cache.oldest read = some (e.1, e.2.expiresAt) ∧
      ∀ x ∈ entries, e.2.expiresAt ≤ x.2.expiresAt := by
  cases read with
  | nil => exact absurd hread.nil_eq.symm hne
  | cons y l =>
    obtain ⟨-, hmin⟩ := least_spec (fun x : String × CacheEntry => x.2.expiresAt) y l
    refine ⟨_, hread.mem_iff.1 (least_mem _ y l), ?_, fun x hx => hmin x (hread.mem_iff.2 hx)⟩
    exact foldl_eq_least (fun x : String × CacheEntry => some (x.1, x.2.expiresAt)) (·.2.expiresAt) fun _ _ _ => rfl

namespace SecretCache

variable {config : CacheConfig} {s : SecretCache} {c : SetCall} {key : String}

/-- A key stands once; every entry expires the TTL after its key was last set, and no two calls had the same time. -/
structure Kept (config : CacheConfig) (s : SecretCache) : Prop where
  nodup : (Table.keys s.entries).Nodup
  expires : ∀ x ∈ s.entries, ∃ t, s.setAt x.1 = some t ∧ x.2.expiresAt = t + config.ttl
  ordered : s.log.Pairwise fun x y => y.2 < x.2

theorem Kept.setAt_ne (h : Kept config s) {k k' : String} (hne : k ≠ k') {t t' : Time} (ht : s.setAt k = some t)
    (ht' : s.setAt k' = some t') : t ≠ t' := by
  rintro rfl
  have hnodup : (s.log.map Prod.snd).Nodup :=
    List.pairwise_map.2 (h.ordered.imp fun hlt heq => absurd heq (Int.ne_of_gt hlt))
  have heq := List.inj_on_of_nodup_map hnodup (Table.mem_of_lookup ht) (Table.mem_of_lookup ht') rfl
  exact hne (Prod.mk.inj heq).1

theorem Oldest.unique {k k' : String} (hk : s.Oldest k) (hk' : s.Oldest k') : k' = k := by
  by_contra hne
  obtain ⟨t, t', ht, ht', hlt⟩ := hk.2 k' hk'.1 hne
  obtain ⟨u, u', hu, hu', hlt'⟩ := hk'.2 k hk.1 (Ne.symm hne)
  rw [ht'] at hu
  rw [ht] at hu'
  obtain rfl := Option.some.inj hu
  obtain rfl := Option.some.inj hu'
  exact Int.lt_irrefl t (Int.lt_trans hlt hlt')

theorem Kept.evict_of_full (h : Kept config s) (hmax : 1 ≤ config.maxSize) (hfull : s.Full config)
    {read : List (String × CacheEntry)} (hread : read.Perm s.entries) :
    ∃ oldest, s.Oldest oldest ∧
      Cache.evict config s.entries read = if oldest ≠ "" then Table.erase oldest s.entries else s.entries := by
  have hfull' : config.maxSize ≤ s.entries.length := hfull
  have hne : s.entries ≠ [] := by
    intro hnil
    rw [hnil] at hfull'
    simp at hfull'
    omega
  obtain ⟨e, he, holdest, hmin⟩ := oldest_spec hread hne
  refine ⟨e.1, ⟨List.mem_map_of_mem he, ?_⟩, ?_⟩
  · intro other hother hdiff
    obtain ⟨x, hx, rfl⟩ := List.mem_map.1 hother
    obtain ⟨t, ht, hexp⟩ := h.expires e he
    obtain ⟨t', ht', hexp'⟩ := h.expires x hx
    have hle := hmin x hx
    have htimes := h.setAt_ne hdiff ht' ht
    rw [hexp, hexp'] at hle
    exact ⟨t, t', ht, ht', Int.lt_iff_le_and_ne.2 ⟨Int.le_of_add_le_add_right hle, Ne.symm htimes⟩⟩
  · rw [Cache.evict, if_pos hfull', holdest]

theorem evict_of_not_full (hfull : ¬s.Full config) (read : List (String × CacheEntry)) :
    Cache.evict config s.entries read = s.entries := if_neg hfull

theorem evict_sublist (config : CacheConfig) (entries read : List (String × CacheEntry)) :
    (Cache.evict config entries read).Sublist entries := by
  unfold Cache.evict
  split
  · split
    · exact List.Sublist.refl _
    · split
      · exact List.filter_sublist
      · exact List.Sublist.refl _
  · exact List.Sublist.refl _

theorem next_entries (henabled : config.enabled = true) (s : SecretCache) (c : SetCall) :
    (s.next config c).entries = Table.upsert c.key (fun _ => ⟨c.value, c.now + config.ttl⟩)
      (Cache.evict config s.entries (c.read s.entries)) := if_pos henabled

theorem setAt_next_self (s : SecretCache) (c : SetCall) : (s.next config c).setAt c.key = some c.now :=
  List.lookup_cons_self

theorem setAt_next_ne (s : SecretCache) (c : SetCall) (hne : key ≠ c.key) :
    (s.next config c).setAt key = s.setAt key :=
  (Table.lookup_cons_ite ..).trans (if_neg (Ne.symm hne))

theorem Kept.next (henabled : config.enabled = true) (h : Kept config s) (hlate : ∀ x ∈ s.log, x.2 < c.now) :
    Kept config (s.next config c) := by
  have hnodup : (Table.keys (s.next config c).entries).Nodup := by
    rw [next_entries henabled]
    exact Table.nodup_upsert (h.nodup.sublist ((evict_sublist ..).map _))
  refine ⟨hnodup, ?_, List.pairwise_cons.2 ⟨hlate, h.ordered⟩⟩
  rintro ⟨key, entry⟩ hx
  by_cases hkey : key = c.key
  · subst hkey
    refine ⟨c.now, setAt_next_self s c, ?_⟩
    have hget := (Table.lookup_eq_some_iff_mem hnodup).2 hx
    rw [next_entries henabled, Table.lookup_upsert_self] at hget
    rw [← Option.some.inj hget]
  · rw [setAt_next_ne s c hkey]
    rw [next_entries henabled] at hx
    rcases Table.mem_upsert hx with hold | hnew
    · exact h.expires _ ((evict_sublist ..).subset hold)
    · exact absurd (Prod.mk.inj hnew).1 hkey

/-! ## What one call removes -/

theorem get_next_ne (henabled : config.enabled = true) (s : SecretCache) (c : SetCall) {other : String}
    (hne : other ≠ c.key) :
    (s.next config c).entries.lookup other =
      (Cache.evict config s.entries (c.read s.entries)).lookup other := by
  rw [next_entries henabled, Table.lookup_upsert_ne hne]

theorem setFrame_of_kept_all (henabled : config.enabled = true)
    (hevict : Cache.evict config s.entries (c.read s.entries) = s.entries)
    (hbounded : ((s.next config c).entries.length : Int) ≤ config.maxSize)
    (hnew : ¬s.Present c.key → ¬s.Full config) : SetFrame config s c.key (s.next config c) where
  bounded := hbounded
  present _ other hother := by rw [get_next_ne henabled s c hother, hevict]
  new habsent hfull := absurd hfull (hnew habsent)

theorem length_next (henabled : config.enabled = true) (s : SecretCache) (c : SetCall)
    {left : List (String × CacheEntry)} (hevict : Cache.evict config s.entries (c.read s.entries) = left) :
    (s.next config c).entries.length = if c.key ∈ Table.keys left then left.length else left.length + 1 := by
  rw [next_entries henabled, Table.length_upsert, hevict]

/-- At a cache within its bound, a call is disciplined exactly when it is unaffected. -/
theorem setFrame_iff (henabled : config.enabled = true) (hmax : 1 ≤ config.maxSize) (h : Kept config s)
    (hbound : (s.entries.length : Int) ≤ config.maxSize) (c : SetCall) :
    SetFrame config s c.key (s.next config c) ↔ Unaffected config s c.key := by
  by_cases hfull : s.Full config
  · have hsize : config.maxSize ≤ s.entries.length := hfull
    obtain ⟨oldest, hold, hevict⟩ := h.evict_of_full hmax hfull (c.perm s.entries)
    have hcond : Unaffected config s c.key ↔
        (¬s.Present c.key → oldest ≠ "") ∧ (s.Present c.key → oldest = "" ∨ oldest = c.key) :=
      ⟨fun hu => hu hfull oldest hold, fun hu _ k hk => hold.unique hk ▸ hu⟩
    rw [hcond]
    by_cases hempty : oldest = ""
    · -- The empty key is not evicted: the size stays for a key that is present and exceeds the bound for a new one.
      rw [if_neg (not_not_intro hempty)] at hevict
      have hlen := length_next henabled s c hevict
      constructor
      · intro hframe
        refine ⟨fun habsent => ?_, fun _ => .inl hempty⟩
        have hb := hframe.bounded
        rw [hlen.trans (if_neg habsent)] at hb
        omega
      · rintro ⟨hnew, -⟩
        have hpresent : s.Present c.key := Classical.byContradiction fun habsent => hnew habsent hempty
        refine setFrame_of_kept_all henabled hevict ?_ (absurd hpresent)
        rw [hlen.trans (if_pos hpresent)]
        exact hbound
    · rw [if_pos hempty] at hevict
      have hget (other : String) (hne : other ≠ c.key) (hne' : other ≠ oldest) :
          (s.next config c).entries.lookup other = s.entries.lookup other := by
        rw [get_next_ne henabled s c hne, hevict, Table.lookup_erase_ne hne']
      have hgone (hne : oldest ≠ c.key) : (s.next config c).entries.lookup oldest = none := by
        rw [get_next_ne henabled s c hne, hevict, Table.lookup_erase_self]
      constructor
      · intro hframe
        refine ⟨fun _ => hempty, fun hpresent => .inr ?_⟩
        by_contra hne
        have hkept := hframe.present hpresent oldest hne
        rw [hgone hne] at hkept
        exact Table.lookup_eq_none.1 hkept.symm hold.1
      · rintro ⟨-, hpresent⟩
        refine ⟨?_, ?_, ?_⟩
        · have hlt := Table.length_erase_lt hold.1
          rw [length_next henabled s c hevict]
          split <;> omega
        · intro hp other hne
          exact hget other hne (((hpresent hp).resolve_left hempty).symm ▸ hne)
        · intro habsent _
          refine ⟨oldest, hold, hgone ?_, fun other hne' hne => hget other hne hne'⟩
          rintro rfl
          exact habsent hold.1
  · have hsize : ¬config.maxSize ≤ s.entries.length := hfull
    refine iff_of_true (setFrame_of_kept_all henabled (evict_of_not_full hfull _) ?_ fun _ => hfull) (absurd · hfull)
    rw [length_next henabled s c (evict_of_not_full hfull _)]
    split <;> omega

/-! ## Runs -/

theorem meets_setFrame_iff (henabled : config.enabled = true) (hmax : 1 ≤ config.maxSize) :
    ∀ (calls : List SetCall) {s : SecretCache}, Kept config s → (s.entries.length : Int) ≤ config.maxSize →
      (∀ c ∈ calls, ∀ x ∈ s.log, x.2 < c.now) → (calls.Pairwise fun c c' => c.now < c'.now) →
      (Meets (step config) (fun s c => SetFrame config s c.key (s.next config c)) s calls ↔
        Meets (step config) (fun s c => Unaffected config s c.key) s calls)
  | [], _, _, _, _, _ => Iff.rfl
  | c :: calls, s, hkept, hbound, hlate, htimes => by
    obtain ⟨hfirst, hrest⟩ := List.pairwise_cons.1 htimes
    have hone := setFrame_iff henabled hmax hkept hbound c
    have hlater : ∀ c' ∈ calls, ∀ x ∈ (s.next config c).log, x.2 < c'.now := by
      intro c' hc' x hx
      rcases List.mem_cons.1 hx with rfl | hx
      · exact hfirst c' hc'
      · exact hlate c' (.tail _ hc') x hx
    have hall (hframe : SetFrame config s c.key (s.next config c)) :=
      meets_setFrame_iff henabled hmax calls (hkept.next henabled (hlate c (.head _))) hframe.bounded hlater hrest
    constructor
    · rintro ⟨hframe, hmeets⟩
      refine ⟨hone.1 hframe, ?_⟩
      rintro _ ⟨⟩
      exact (hall hframe).1 (hmeets _ rfl)
    · rintro ⟨hunaffected, hmeets⟩
      have hframe := hone.2 hunaffected
      refine ⟨hframe, ?_⟩
      rintro _ ⟨⟩
      exact (hall hframe).2 (hmeets _ rfl)

/-- Along every run of `Set` at increasing times, every call keeps the bound and removes what it should exactly when
every call is unaffected. -/
theorem cache_disciplined_iff (config : CacheConfig) (henabled : config.enabled = true) (hmax : 1 ≤ config.maxSize)
    (calls : List SetCall) (htimes : calls.Pairwise fun c c' => c.now < c'.now) :
    Meets (step config) (fun s c => SetFrame config s c.key (s.next config c)) {} calls ↔
      Meets (step config) (fun s c => Unaffected config s c.key) {} calls := by
  refine meets_setFrame_iff henabled hmax calls ?_ ?_ ?_ htimes
  · exact ⟨List.nodup_nil, fun x hx => absurd hx List.not_mem_nil, List.Pairwise.nil⟩
  · show (0 : Int) ≤ config.maxSize
    omega
  · intro c _ x hx
    cases hx

def setAtTime (key value : String) (now : Time) : SetCall := ⟨key, value, now, id, fun _ => .refl _⟩

theorem third_key_evicts_first :
    Meets (step ⟨true, 60, 2⟩) (fun s c => SetFrame ⟨true, 60, 2⟩ s c.key (s.next ⟨true, 60, 2⟩ c)) {}
      [setAtTime "a" "x" 1, setAtTime "b" "y" 2, setAtTime "c" "z" 3] := by
  refine (cache_disciplined_iff ⟨true, 60, 2⟩ rfl (by decide) _ (by simp [setAtTime])).2 ?_
  refine ⟨fun hfull => absurd hfull (by simp [Full]), ?_⟩
  rintro _ ⟨⟩
  refine ⟨fun hfull => absurd hfull (by simp [Full, next_entries, Cache.evict, Table.upsert]), ?_⟩
  rintro _ ⟨⟩
  refine ⟨fun _ oldest hold => ⟨fun _ => ?_, fun hpresent => absurd hpresent (by decide)⟩, ?_⟩
  · rintro rfl
    exact absurd hold.1 (by decide)
  · rintro _ ⟨⟩
    trivial

/-- In a cache for two, setting `b` again removes `a`; in a cache for one, a second key is put beside the empty one. -/
theorem set_removes_other_or_exceeds :
    (¬Meets (step ⟨true, 60, 2⟩) (fun s c => SetFrame ⟨true, 60, 2⟩ s c.key (s.next ⟨true, 60, 2⟩ c)) {}
      [setAtTime "a" "x" 1, setAtTime "b" "y" 2, setAtTime "b" "z" 3]) ∧
    ¬Meets (step ⟨true, 60, 1⟩) (fun s c => SetFrame ⟨true, 60, 1⟩ s c.key (s.next ⟨true, 60, 1⟩ c)) {}
      [setAtTime "" "x" 1, setAtTime "a" "y" 2] := by
  constructor
  · rintro ⟨-, hsecond⟩
    obtain ⟨-, hthird⟩ := hsecond _ rfl
    have hkept := (hthird _ rfl).1.present (by decide) "a" (by decide)
    exact absurd hkept (by decide)
  · rintro ⟨-, hsecond⟩
    have hbounded := (hsecond _ rfl).1.bounded
    exact absurd hbounded (by decide)

end SecretCache

end Jupiter.Security
