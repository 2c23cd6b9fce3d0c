/-
Whether secrets are fresh after `Manager.Refresh`.

Both caches are filled by calls that may have obtained their value long before, and neither store looks whether its
cache was cleared in between. A value that no call carries to a store when a Refresh clears the provider's cache can
only be one read after the Refresh began (`Fresh`).
-/
import Jupiter.Security.Secrets

namespace Jupiter.Security

open Jupiter.Go Jupiter.Lib Jupiter.Manager

/-- The value a call has obtained and not yet stored in the manager's cache. -/
def GetPhase.carried : GetPhase → Option String
  | .read value | .provided value => some value
  | _ => none

/-- The phases in which a call has not obtained a value, or will not return one. -/
def GetPhase.valueless : GetPhase → Bool
  | .read _ | .provided _ | .returned (.ok _) => false
  | _ => true

/-- The file of the secret held the value in one of the states of the log after the first `k`. -/
def Held (base : Path) (log : List Files) (k : Nat) (name value : String) : Prop :=
  ∃ files ∈ log.drop k, ∃ file, files (FileProvider.path base name) = some file ∧ value = FileProvider.secret file

namespace Held

variable {base : Path} {log : List Files} {k k' : Nat} {name value : String}

theorem mono (h : Held base log k name value) (hle : k' ≤ k) : Held base log k' name value := by
  obtain ⟨files, hmem, hfile⟩ := h
  exact ⟨files, (List.drop_subset_drop_left log hle) hmem, hfile⟩

theorem snoc (h : Held base log k name value) (files : Files) : Held base (log ++ [files]) k name value := by
  obtain ⟨held, hmem, hfile⟩ := h
  refine ⟨held, ?_, hfile⟩
  rw [List.drop_append]
  exact List.mem_append_left _ hmem

end Held

namespace Secrets

variable {config : CacheConfig} {base : Path} {s s' : Secrets} {l : SecretStep}

/-! ## What a step can do -/

theorem stepGet_cases {i : Nat} (h : s.stepGet config base l i = some s') :
    ∃ i c r, s.gets[i]? = some c ∧ advance config base s c.name l c.phase = some r ∧
      s' = { s with managerCache := r.1, providerCache := r.2.1, gets := s.gets.set i { c with phase := r.2.2 } } := by
  unfold stepGet at h
  split at h
  · cases h
  · rename_i c hc
    obtain ⟨r, hr, rfl⟩ := Option.map_eq_some_iff.1 h
    exact ⟨i, c, r, hc, hr, rfl⟩

theorem step_cases (h : s.step config base l = some s') :
    (∃ name, s' = { s with gets := s.gets ++ [⟨name, s.refreshed, .started⟩] }) ∨
    s' = { s with refreshes := s.refreshes ++ [.started (s.log.length - 1)] } ∨
    (∃ j since, l = .providerRefresh j ∧ s.refreshes[j]? = some (.started since) ∧
      s' = { s with providerCache := [], refreshes := s.refreshes.set j (.providerCleared since) }) ∨
    (∃ j since, s.refreshes[j]? = some (.providerCleared since) ∧
      s' = { s with managerCache := [], refreshes := s.refreshes.set j .returned
                    refreshed := max s.refreshed since }) ∨
    s' = { s with providerCache := [] } ∨
    (∃ files, s' = { s with files, log := s.log ++ [files] }) ∨
    ∃ i c r, s.gets[i]? = some c ∧ advance config base s c.name l c.phase = some r ∧
      s' = { s with managerCache := r.1, providerCache := r.2.1, gets := s.gets.set i { c with phase := r.2.2 } } := by
  cases l with
  | getSecret name => exact .inl ⟨name, (Option.some.inj h).symm⟩
  | refresh => exact .inr (.inl (Option.some.inj h).symm)
  | providerRefresh j =>
    simp only [step] at h
    split at h
    · rename_i since hj
      exact .inr (.inr (.inl ⟨j, since, rfl, hj, (Option.some.inj h).symm⟩))
    · cases h
  | cacheClear j =>
    simp only [step] at h
    split at h
    · rename_i since hj
      exact .inr (.inr (.inr (.inl ⟨j, since, hj, (Option.some.inj h).symm⟩)))
    · cases h
  | watcher => exact .inr (.inr (.inr (.inr (.inl (Option.some.inj h).symm))))
  | change files => exact .inr (.inr (.inr (.inr (.inr (.inl ⟨files, (Option.some.inj h).symm⟩)))))
  | cacheGet i | supports i | providerGet i | check i | readFile i | providerSet i | cacheSet i =>
    exact .inr (.inr (.inr (.inr (.inr (.inr (stepGet_cases h))))))

/-- What a step of `GetSecret` puts into the caches, carries on and returns. -/
structure Moved (base : Path) (s : Secrets) (name : String) (phase : GetPhase)
    (managerCache : List (String × CacheEntry)) (providerCache : List (String × String)) (phase' : GetPhase) :
    Prop where
  manager : ∀ x ∈ managerCache, x ∈ s.managerCache ∨ x.1 = name ∧ phase.carried = some x.2.value
  provider : ∀ x ∈ providerCache, x ∈ s.providerCache ∨ x.1 = name ∧ phase.carried = some x.2
  carried : ∀ v, phase'.carried = some v → phase.carried = some v ∨ (name, v) ∈ s.providerCache ∨
    ∃ file, s.files (FileProvider.path base name) = some file ∧ v = FileProvider.secret file
  result : ∀ v, phase' = .returned (.ok v) → phase.carried = some v ∨
    ∃ entry, (name, entry) ∈ s.managerCache ∧ entry.value = v

theorem Moved.of_valueless {name : String} {phase phase' : GetPhase} (h : phase'.valueless = true) :
    Moved base s name phase s.managerCache s.providerCache phase' where
  manager := fun x hx => .inl hx
  provider := fun x hx => .inl hx
  carried := by
    intro v hv
    cases phase' with
    | read value | provided value => cases h
    | _ => cases hv
  result := by
    intro v hv
    rw [hv] at h
    cases h

theorem cache_get_mem {entries : List (String × CacheEntry)} {now : Time} {key value : String}
    (h : Cache.get config entries now key = some value) : ∃ entry, (key, entry) ∈ entries ∧ entry.value = value := by
  unfold Cache.get at h
  split at h
  · split at h
    · cases h
    · rename_i entry hentry
      split at h
      · cases h
      · cases h
        exact ⟨entry, Table.mem_of_lookup hentry, rfl⟩
  · cases h

theorem mem_evict {entries read : List (String × CacheEntry)} {x : String × CacheEntry}
    (h : x ∈ Cache.evict config entries read) : x ∈ entries := by
  unfold Cache.evict at h
  split at h
  · split at h
    · exact h
    · split at h
      · exact (List.mem_filter.1 h).1
      · exact h
  · exact h

theorem mem_cache_set {entries read : List (String × CacheEntry)} {now : Time} {key value : String}
    {x : String × CacheEntry} (h : x ∈ Cache.set config entries read now key value) :
    x ∈ entries ∨ x.1 = key ∧ x.2.value = value := by
  unfold Cache.set at h
  split at h
  · rcases Table.mem_upsert h with h | rfl
    · exact .inl (mem_evict h)
    · exact .inr ⟨rfl, rfl⟩
  · exact .inl h

theorem readFile_ok {files : Files} {fails : Bool} {name value : String}
    (h : FileProvider.readFile base files fails name = .ok value) :
    ∃ file, files (FileProvider.path base name) = some file ∧ value = FileProvider.secret file := by
  unfold FileProvider.readFile at h
  split at h
  · cases h
  · rename_i file hfile
    split at h
    · cases h
    · cases h
      exact ⟨file, hfile, rfl⟩

theorem advance_moved {name : String} {phase phase' : GetPhase} {managerCache : List (String × CacheEntry)}
    {providerCache : List (String × String)}
    (h : advance config base s name l phase = some (managerCache, providerCache, phase')) :
    Moved base s name phase managerCache providerCache phase' := by
  unfold advance at h
  split at h
  · split at h
    · rename_i value hvalue
      cases h
      refine ⟨fun x hx => .inl hx, fun x hx => .inl hx, fun v hv => (by cases hv), ?_⟩
      intro v hv
      cases hv
      exact .inr (cache_get_mem hvalue)
    · cases h
      exact .of_valueless rfl
  · split at h <;> cases h <;> exact .of_valueless rfl
  · split at h
    · rename_i value hvalue
      cases h
      refine ⟨fun x hx => .inl hx, fun x hx => .inl hx, ?_, fun v hv => (by cases hv)⟩
      intro v hv
      cases hv
      exact .inr (.inl (Table.mem_of_lookup hvalue))
    · cases h
      exact .of_valueless rfl
  · split at h <;> cases h <;> exact .of_valueless rfl
  · split at h
    · cases h
      exact .of_valueless rfl
    · rename_i value hvalue
      cases h
      refine ⟨fun x hx => .inl hx, fun x hx => .inl hx, ?_, fun v hv => (by cases hv)⟩
      intro v hv
      cases hv
      exact .inr (.inr (readFile_ok hvalue))
  · rename_i value
    cases h
    refine ⟨fun x hx => .inl hx, ?_, fun v hv => .inl hv, fun v hv => (by cases hv)⟩
    intro x hx
    rcases Table.mem_upsert hx with hx | rfl
    · exact .inl hx
    · exact .inr ⟨rfl, rfl⟩
  · rename_i value
    split at h
    · cases h
      refine ⟨?_, fun x hx => .inl hx, fun v hv => (by cases hv), ?_⟩
      · intro x hx
        rcases mem_cache_set hx with hx | ⟨hname, hv⟩
        · exact .inl hx
        · exact .inr ⟨hname, congrArg some hv.symm⟩
      · intro v hv
        cases hv
        exact .inl rfl
    · cases h
  · cases h

/-! ## The invariant -/

/-- A Refresh since whose start the provider's cache, and what calls carry, is known to be fresh: the latest that has
returned, or one that has cleared that cache. -/
def Settled (s : Secrets) (k : Nat) : Prop := k = s.refreshed ∨ RefreshCall.providerCleared k ∈ s.refreshes

structure Fresh (base : Path) (s : Secrets) : Prop where
  current : s.log.getLast? = some s.files
  refreshed_lt : s.refreshed < s.log.length
  running_lt : ∀ k, .started k ∈ s.refreshes ∨ .providerCleared k ∈ s.refreshes → k < s.log.length
  provider : ∀ k, s.Settled k → ∀ x ∈ s.providerCache, Held base s.log k x.1 x.2
  carried : ∀ k, s.Settled k → ∀ c ∈ s.gets, ∀ v, c.phase.carried = some v → Held base s.log k c.name v
  manager : ∀ x ∈ s.managerCache, Held base s.log s.refreshed x.1 x.2.value
  since_le : ∀ c ∈ s.gets, c.since ≤ s.refreshed
  result : ∀ c ∈ s.gets, ∀ v, c.phase = .returned (.ok v) → Held base s.log c.since c.name v

namespace Fresh

theorem start (files : Files) : Fresh base (Secrets.start files) where
  current := rfl
  refreshed_lt := Nat.zero_lt_one
  running_lt := by
    rintro k (h | h) <;> cases h
  provider := by
    intro k _ x hx
    cases hx
  carried := by
    intro k _ c hc
    cases hc
  manager := by
    intro x hx
    cases hx
  since_le := by
    intro c hc
    cases hc
  result := by
    intro c hc
    cases hc

theorem held_now (h : Fresh base s) {k : Nat} (hk : k < s.log.length) {name : String} {file : File}
    (hfile : s.files (FileProvider.path base name) = some file) :
    Held base s.log k name (FileProvider.secret file) := by
  -- The current state of the files is the last of the log, which no known start has dropped.
  obtain ⟨init, hlog⟩ := List.getLast?_eq_some_iff.1 h.current
  refine ⟨s.files, ?_, file, hfile, rfl⟩
  rw [hlog, List.length_append, List.length_singleton] at hk
  rw [hlog, List.drop_append_of_le_length (by omega)]
  exact List.mem_append_right _ (List.mem_singleton.2 rfl)

theorem settled_lt (h : Fresh base s) {k : Nat} (hk : s.Settled k) : k < s.log.length := by
  rcases hk with rfl | hk
  · exact h.refreshed_lt
  · exact h.running_lt k (.inr hk)

theorem running_set {refreshes : List RefreshCall} {r : RefreshCall} {j n : Nat}
    (h : ∀ k, .started k ∈ refreshes ∨ .providerCleared k ∈ refreshes → k < n)
    (hr : ∀ k, r = .started k ∨ r = .providerCleared k → k < n) :
    ∀ k, .started k ∈ refreshes.set j r ∨ .providerCleared k ∈ refreshes.set j r → k < n := by
  rintro k (hk | hk)
  · rcases List.mem_or_eq_of_mem_set hk with hk | hk
    · exact h k (.inl hk)
    · exact hr k (.inl hk.symm)
  · rcases List.mem_or_eq_of_mem_set hk with hk | hk
    · exact h k (.inr hk)
    · exact hr k (.inr hk.symm)

theorem getSecret (h : Fresh base s) (name : String) :
    Fresh base { s with gets := s.gets ++ [⟨name, s.refreshed, .started⟩] } := by
  obtain ⟨hcurrent, hrefreshed, hrunning, hprovider, hcarried, hmanager, hsince, hresult⟩ := h
  refine ⟨hcurrent, hrefreshed, hrunning, hprovider, ?_, hmanager, ?_, ?_⟩
  · intro k hk c hc v hv
    rcases List.mem_append.1 hc with hc | hc
    · exact hcarried k hk c hc v hv
    · cases List.mem_singleton.1 hc
      cases hv
  · intro c hc
    rcases List.mem_append.1 hc with hc | hc
    · exact hsince c hc
    · cases List.mem_singleton.1 hc
      exact Nat.le_refl _
  · intro c hc v hv
    rcases List.mem_append.1 hc with hc | hc
    · exact hresult c hc v hv
    · cases List.mem_singleton.1 hc
      cases hv

theorem refresh (h : Fresh base s) :
    Fresh base { s with refreshes := s.refreshes ++ [.started (s.log.length - 1)] } := by
  have hpos := Nat.zero_lt_of_lt h.refreshed_lt
  have hsettled : ∀ k, Settled { s with refreshes := s.refreshes ++ [.started (s.log.length - 1)] } k →
      s.Settled k := by
    rintro k (rfl | hk)
    · exact .inl rfl
    · rcases List.mem_append.1 hk with hk | hk
      · exact .inr hk
      · cases List.mem_singleton.1 hk
  obtain ⟨hcurrent, hrefreshed, hrunning, hprovider, hcarried, hmanager, hsince, hresult⟩ := h
  refine ⟨hcurrent, hrefreshed, ?_, fun k hk => hprovider k (hsettled k hk), fun k hk => hcarried k (hsettled k hk),
    hmanager, hsince, hresult⟩
  rintro k (hk | hk)
  · rcases List.mem_append.1 hk with hk | hk
    · exact hrunning k (.inl hk)
    · cases List.mem_singleton.1 hk
      show s.log.length - 1 < s.log.length
      omega
  · rcases List.mem_append.1 hk with hk | hk
    · exact hrunning k (.inr hk)
    · cases List.mem_singleton.1 hk

/-- The provider's cache is cleared while no call carries a value: nothing is left that could be old. -/
theorem providerRefresh (h : Fresh base s) (hquiet : ∀ c ∈ s.gets, c.phase.carried = none) {j since : Nat}
    (hj : s.refreshes[j]? = some (.started since)) :
    Fresh base { s with providerCache := [], refreshes := s.refreshes.set j (.providerCleared since) } := by
  obtain ⟨hcurrent, hrefreshed, hrunning, hprovider, hcarried, hmanager, hsince, hresult⟩ := h
  have hlt : since < s.log.length := hrunning since (.inl (List.mem_of_getElem? hj))
  refine ⟨hcurrent, hrefreshed, running_set hrunning ?_, ?_, ?_, hmanager, hsince, hresult⟩
  · rintro k (hk | hk) <;> cases hk
    exact hlt
  · intro k _ x hx
    cases hx
  · intro k _ c hc v hv
    rw [hquiet c hc] at hv
    cases hv

theorem cacheClear (h : Fresh base s) {j since : Nat} (hj : s.refreshes[j]? = some (.providerCleared since)) :
    Fresh base { s with managerCache := [], refreshes := s.refreshes.set j .returned
                        refreshed := max s.refreshed since } := by
  have hmem := List.mem_of_getElem? hj
  have hsettled : ∀ k, Settled { s with managerCache := [], refreshes := s.refreshes.set j .returned
                                        refreshed := max s.refreshed since } k → s.Settled k := by
    -- The latest Refresh to have returned is the one before, or this one, which had cleared the provider's cache.
    rintro k (hk | hk)
    · rcases Nat.le_total s.refreshed since with hle | hle
      · obtain rfl : k = since := hk.trans (Nat.max_eq_right hle)
        exact .inr hmem
      · exact .inl (hk.trans (Nat.max_eq_left hle))
    · rcases List.mem_or_eq_of_mem_set hk with hk | hk
      · exact .inr hk
      · cases hk
  obtain ⟨hcurrent, hrefreshed, hrunning, hprovider, hcarried, hmanager, hsince, hresult⟩ := h
  have hlt : since < s.log.length := hrunning since (.inr hmem)
  refine ⟨hcurrent, Nat.max_lt.2 ⟨hrefreshed, hlt⟩, running_set hrunning ?_, fun k hk => hprovider k (hsettled k hk),
    fun k hk => hcarried k (hsettled k hk), ?_, ?_, hresult⟩
  · rintro k (hk | hk) <;> cases hk
  · intro x hx
    cases hx
  · intro c hc
    exact Nat.le_trans (hsince c hc) (Nat.le_max_left ..)

theorem watcher (h : Fresh base s) : Fresh base { s with providerCache := [] } := by
  obtain ⟨hcurrent, hrefreshed, hrunning, -, hcarried, hmanager, hsince, hresult⟩ := h
  refine ⟨hcurrent, hrefreshed, hrunning, ?_, hcarried, hmanager, hsince, hresult⟩
  intro k _ x hx
  cases hx

theorem change (h : Fresh base s) (files : Files) : Fresh base { s with files, log := s.log ++ [files] } := by
  obtain ⟨-, hrefreshed, hrunning, hprovider, hcarried, hmanager, hsince, hresult⟩ := h
  have hgrow : ∀ k, k < s.log.length → k < (s.log ++ [files]).length := by
    intro k hk
    rw [List.length_append]
    omega
  exact ⟨List.getLast?_concat, hgrow _ hrefreshed, fun k hk => hgrow k (hrunning k hk),
    fun k hk x hx => (hprovider k hk x hx).snoc files, fun k hk c hc v hv => (hcarried k hk c hc v hv).snoc files,
    fun x hx => (hmanager x hx).snoc files, hsince, fun c hc v hv => (hresult c hc v hv).snoc files⟩

theorem get (h : Fresh base s) {i : Nat} {c : GetCall} {managerCache : List (String × CacheEntry)}
    {providerCache : List (String × String)} {phase : GetPhase} (hc : s.gets[i]? = some c)
    (hmoved : Moved base s c.name c.phase managerCache providerCache phase) :
    Fresh base { s with managerCache, providerCache, gets := s.gets.set i { c with phase } } := by
  have hmem : c ∈ s.gets := List.mem_of_getElem? hc
  refine ⟨h.current, h.refreshed_lt, h.running_lt, ?_, ?_, ?_, ?_, ?_⟩
  · intro k hk x hx
    rcases hmoved.provider x hx with hx | ⟨hname, hv⟩
    · exact h.provider k hk x hx
    · rw [hname]
      exact h.carried k hk c hmem _ hv
  · intro k hk c' hc' v hv
    rcases List.mem_or_eq_of_mem_set hc' with hc' | rfl
    · exact h.carried k hk c' hc' v hv
    · -- A value is carried on, taken from the provider's cache or read from the file as it is now.
      rcases hmoved.carried v hv with hv | hv | ⟨file, hfile, rfl⟩
      · exact h.carried k hk c hmem v hv
      · exact h.provider k hk _ hv
      · exact h.held_now (h.settled_lt hk) hfile
  · intro x hx
    rcases hmoved.manager x hx with hx | ⟨hname, hv⟩
    · exact h.manager x hx
    · rw [hname]
      exact h.carried _ (.inl rfl) c hmem _ hv
  · intro c' hc'
    rcases List.mem_or_eq_of_mem_set hc' with hc' | rfl
    · exact h.since_le c' hc'
    · exact h.since_le c hmem
  · intro c' hc' v hv
    rcases List.mem_or_eq_of_mem_set hc' with hc' | rfl
    · exact h.result c' hc' v hv
    · -- What is returned was carried, or taken from the manager's cache: fresh since the last Refresh.
      rcases hmoved.result v hv with hv | ⟨entry, hentry, rfl⟩
      · exact (h.carried _ (.inl rfl) c hmem v hv).mono (h.since_le c hmem)
      · exact (h.manager _ hentry).mono (h.since_le c hmem)

theorem step (h : Fresh base s) (hquiet : ∀ j, l = .providerRefresh j → ∀ c ∈ s.gets, c.phase.carried = none)
    (hstep : s.step config base l = some s') : Fresh base s' := by
  rcases step_cases hstep with ⟨name, rfl⟩ | rfl | ⟨j, since, hl, hj, rfl⟩ | ⟨j, since, hj, rfl⟩ | rfl | ⟨files, rfl⟩ |
    ⟨i, c, r, hc, hr, rfl⟩
  · exact h.getSecret name
  · exact h.refresh
  · exact h.providerRefresh (hquiet j hl) hj
  · exact h.cacheClear hj
  · exact h.watcher
  · exact h.change files
  · exact h.get hc (advance_moved hr)

end Fresh

end Secrets

/-- No call carries a value to a store when a Refresh clears the provider's cache. -/
def NoneCarried (s : Secrets) (l : SecretStep) : Prop :=
  ∀ j, l = .providerRefresh j → ∀ c ∈ s.gets, c.phase.carried = none

/-- In every run in which no value is on its way to a cache when a Refresh clears the provider's, each call returns an
error or a value its file held after the start of every Refresh that had returned when the call began. -/
theorem getSecret_fresh_after_refresh (config : CacheConfig) (base : Path) (files : Files) (steps : List SecretStep)
    (s : Secrets) (hquiet : Meets (Secrets.step config base) NoneCarried (.start files) steps)
    (hrun : run (Secrets.step config base) (.start files) steps = some s) :
    ∀ c ∈ s.gets, ∀ v, c.phase = .returned (.ok v) → Held base s.log c.since c.name v := by
  have h : s.Fresh base :=
    run_invariant_of_meets (fun _ _ _ hf hok hs => hf.step hok hs) steps _ s (.start files) hquiet hrun
  exact h.result

def keyFile (content : String) : Files := fun p => if p = ["secrets", "key"] then some ⟨true, 0o600, content⟩ else none

def fiveMinutes : CacheConfig := { enabled := true, ttl := 5 * Duration.minute, maxSize := 10 }

def readKey : List SecretStep :=
  [.getSecret "key", .cacheGet 0 0, .supports 0 false, .providerGet 0, .check 0 false, .readFile 0 false]

def storeKey : List SecretStep := [.providerSet 0, .cacheSet 0 0 [], .getSecret "key", .cacheGet 1 1]

/-- The file changes and the secrets are refreshed, once the file has been read. The second call returns what the file
held before. -/
theorem refresh_leaves_old_secret :
    ∃ s, run (Secrets.step fiveMinutes ["secrets"]) (.start (keyFile "old"))
        (readKey ++ [.change (keyFile "new"), .refresh, .providerRefresh 0, .cacheClear 0] ++ storeKey) = some s ∧
      ∃ c ∈ s.gets, c.phase = .returned (.ok "old") ∧ ¬Held ["secrets"] s.log c.since c.name "old" := by
  refine ⟨_, rfl, ⟨"key", 1, .returned (.ok "old")⟩, ?_, rfl, ?_⟩
  · exact List.mem_cons_of_mem _ (List.mem_singleton.2 rfl)
  · rintro ⟨files, hmem, file, hfile, hvalue⟩
    obtain rfl : files = keyFile "new" := List.mem_singleton.1 hmem
    obtain rfl : file = ⟨true, 0o600, "new"⟩ := (Option.some.inj hfile).symm
    revert hvalue
    decide +kernel

def quietRefresh : List SecretStep :=
  [.change (keyFile "new"), .refresh, .providerRefresh 0, .cacheClear 0] ++ readKey ++
    [.providerSet 0, .cacheSet 0 0 []]

theorem getSecret_fresh_after_quietRefresh :
    ∃ s, run (Secrets.step fiveMinutes ["secrets"]) (.start (keyFile "old")) quietRefresh = some s ∧
      ∃ c ∈ s.gets, c.phase = .returned (.ok "new") ∧ c.since = 1 ∧ Held ["secrets"] s.log c.since c.name "new" := by
  refine ⟨_, rfl, ⟨"key", 1, .returned (.ok "new")⟩, List.mem_singleton.2 rfl, rfl, rfl, ?_⟩
  refine getSecret_fresh_after_refresh fiveMinutes ["secrets"] (keyFile "old") quietRefresh _ ?_ rfl
    ⟨"key", 1, .returned (.ok "new")⟩ (List.mem_singleton.2 rfl) "new" rfl
  refine ⟨?_, fun s hs => ⟨?_, fun s' hs' => ⟨?_, fun s'' _ => meets_of_forall ?_ s''⟩⟩⟩
  · intro j hj
    cases hj
  · intro j hj
    cases hj
  · cases hs
    cases hs'
    intro _ _ c hc
    cases hc
  · intro l hl s j hj
    subst hj
    revert hl
    simp [readKey]

end Jupiter.Security
