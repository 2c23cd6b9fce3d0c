/-
Concurrent calls of `StickyStrategy.SelectProvider` on one cache and one list of available providers.

A call takes up to three atomic steps: it looks its key up, lets the fallback strategy select, and stores the selection.
Between them other calls, the clean-up of expired entries and `Clear` may come.
-/
import Jupiter.Lib.Machine
import Jupiter.Routing.Eligible
import Mathlib.Data.List.Nodup

namespace Jupiter.Routing

open Jupiter.Lib

/-! ## What the fallback strategy leaves alone -/

namespace Strategy

def uses (cache : Nat) : Strategy → Bool
  | .roundRobin .. => false
  | .manual none _ => false
  | .manual (some fallbackStrategy) _ => uses cache fallbackStrategy
  | .healthBased wrappedStrategy _ => uses cache wrappedStrategy
  | .sticky c fallbackStrategy _ => c == cache || uses cache fallbackStrategy

variable (env : Env) {cache : Nat}

theorem cacheGet_caches_ne {c : Nat} (h : cache ≠ c) (key : String) (m : Mem) :
    (cacheGet env c key m).2.caches cache = m.caches cache := if_neg h

theorem cacheSet_caches_ne {c : Nat} (h : cache ≠ c) (key providerName : String) (m : Mem) :
    (cacheSet env c key providerName m).caches cache = m.caches cache := if_neg h

theorem selectRoundRobin_caches (counter : Nat) (weights : List (String × Int)) (available : List Provider) (m : Mem) :
    (selectRoundRobin counter weights available m).2.caches = m.caches := by
  unfold selectRoundRobin
  split <;> rfl

theorem selectProvider_caches : ∀ (s : Strategy) (req : RoutingRequest) (available : List Provider) (m : Mem),
    s.uses cache = false → (s.selectProvider env req available m).2.caches cache = m.caches cache
  | .roundRobin counter weights, req, available, m, _ =>
    congrFun (selectRoundRobin_caches counter weights available m) cache
  | .manual none allowFallback, req, available, m, _ => by
    unfold selectProvider
    split
    · rfl
    · split
      · rfl
      · split <;> rfl
  | .manual (some fallbackStrategy) allowFallback, req, available, m, h => by
    unfold uses at h
    unfold selectProvider
    split
    · rfl
    · split
      · exact selectProvider_caches fallbackStrategy req available m h
      · split
        · rfl
        · split
          · exact selectProvider_caches fallbackStrategy req available m h
          · rfl
  | .healthBased wrappedStrategy requireHealthy, req, available, m, h => by
    unfold uses at h
    unfold selectProvider
    split
    · rfl
    · split
      · split
        · rfl
        · exact selectProvider_caches wrappedStrategy req available m h
      · exact selectProvider_caches wrappedStrategy req _ m h
  | .sticky c fallbackStrategy keyType, req, available, m, h => by
    unfold uses at h
    rw [Bool.or_eq_false_iff, beq_eq_false_iff_ne] at h
    obtain ⟨hc, hf⟩ := h
    unfold selectProvider
    split
    · rfl
    · split
      · exact selectProvider_caches fallbackStrategy req available m hf
      · have hget := cacheGet_caches_ne env (Ne.symm hc) (buildCacheKey keyType req) m
        dsimp only
        split
        · exact hget
        · have hrec := selectProvider_caches fallbackStrategy req available
            (cacheGet env c (buildCacheKey keyType req) m).2 hf
          split
          · rename_i hsel
            rw [hsel] at hrec
            exact hrec.trans hget
          · rename_i hsel
            rw [hsel] at hrec
            exact (cacheSet_caches_ne env (Ne.symm hc) _ _ _).trans (hrec.trans hget)

end Strategy

/-! ## Steps of concurrent calls -/

/-- A sticky strategy and the list its calls are given. -/
structure Sticky where
  cache : Nat
  fallbackStrategy : Strategy
  keyType : String
  available : List Provider

inductive Phase where
  | missed
  | selected (p : Provider)
  | returned (result : Except SelectError Provider)

structure Call where
  req : RoutingRequest
  phase : Phase

structure Calls where
  mem : Mem
  calls : Nat → Option Call

inductive Label where
  | lookup (i : Nat) (req : RoutingRequest)
  | select (i : Nat)
  | store (i : Nat)
  | removeExpired
  | clear

namespace Sticky

variable (env : Env) (t : Sticky)

def key (req : RoutingRequest) : String := Strategy.buildCacheKey t.keyType req

def Calls.put (s : Calls) (m : Mem) (i : Nat) (req : RoutingRequest) (phase : Phase) : Calls :=
  { mem := m, calls := fun j => if j = i then some ⟨req, phase⟩ else s.calls j }

def lookup (s : Calls) (i : Nat) (req : RoutingRequest) : Calls :=
  if t.available.isEmpty then Calls.put s s.mem i req (.returned (.error (.noProviders "sticky routing")))
  else if t.key req = "" then Calls.put s s.mem i req .missed
  else
    let (cached, m) := Strategy.cacheGet env t.cache (t.key req) s.mem
    match cached.bind (Strategy.findProvider t.available) with
    | some p => Calls.put s m i req (.returned (.ok p))
    | none => Calls.put s m i req .missed

def select (s : Calls) (i : Nat) (req : RoutingRequest) : Calls :=
  match t.fallbackStrategy.selectProvider env req t.available s.mem with
  | (.error err, m) => Calls.put s m i req (.returned (.error err))
  | (.ok p, m) => Calls.put s m i req (if t.key req = "" then .returned (.ok p) else .selected p)

def store (s : Calls) (i : Nat) (req : RoutingRequest) (p : Provider) : Calls :=
  Calls.put s (Strategy.cacheSet env t.cache (t.key req) p.name s.mem) i req (.returned (.ok p))

def step (s : Calls) : Label → Option Calls
  | .lookup i req =>
    match s.calls i with
    | some _ => none
    | none => some (lookup env t s i req)
  | .select i =>
    match s.calls i with
    | some ⟨req, .missed⟩ => some (select env t s i req)
    | _ => none
  | .store i =>
    match s.calls i with
    | some ⟨req, .selected p⟩ => some (store env t s i req p)
    | _ => none
  | .removeExpired =>
    some { s with mem := { Strategy.setCache s.mem t.cache
      ((s.mem.caches t.cache).removeExpired (env.now s.mem.ticks)) with ticks := s.mem.ticks + 1 } }
  | .clear => some { s with mem := Strategy.setCache s.mem t.cache (s.mem.caches t.cache).clear }

/-! ## The name cached for a key -/

def cachedName (m : Mem) (k : String) : Option String := ((m.caches t.cache).entry k).map (·.providerName)

theorem get_cachedName (c : StickyCache) (now accessed : Go.Time) (key k : String) :
    ((c.get now accessed key).2.entry k).map (·.providerName) = (c.entry k).map (·.providerName) := by
  unfold StickyCache.get
  split
  · rfl
  · rename_i e he
    split
    · rfl
    · by_cases hk : k = key
      · rw [hk, StickyCache.entry_put_self, he]
        rfl
      · rw [StickyCache.entry_put_ne _ hk]

theorem cachedName_cacheGet (m : Mem) (key k : String) :
    t.cachedName (Strategy.cacheGet env t.cache key m).2 k = t.cachedName m k := by
  unfold cachedName Strategy.cacheGet Strategy.setCache
  dsimp only
  rw [if_pos rfl]
  exact get_cachedName ..

theorem cachedName_select (hu : t.fallbackStrategy.uses t.cache = false) (req : RoutingRequest) (m : Mem)
    (k : String) :
    t.cachedName (t.fallbackStrategy.selectProvider env req t.available m).2 k = t.cachedName m k := by
  unfold cachedName
  rw [Strategy.selectProvider_caches env t.fallbackStrategy req t.available m hu]

theorem cachedName_cacheSet_self (m : Mem) (key providerName : String) :
    t.cachedName (Strategy.cacheSet env t.cache key providerName m) key = some providerName := by
  unfold cachedName Strategy.cacheSet Strategy.setCache StickyCache.set
  dsimp only
  rw [if_pos rfl, StickyCache.entry_put_self]
  rfl

/-- `Set` of `key` makes room by evicting the entry of `k`. -/
def Evicts (m : Mem) (key k : String) : Prop :=
  let c := m.caches t.cache
  c.maxEntries > 0 ∧ (c.entries.length : Int) ≥ c.maxEntries ∧ c.entry key = none ∧
    (StickyCache.leastRecent (env.order m.ticks c.entries)).1 = k

theorem cachedName_cacheSet_ne {m : Mem} {key k : String} (hk : k ≠ key) (he : ¬ t.Evicts env m key k)
    (providerName : String) :
    t.cachedName (Strategy.cacheSet env t.cache key providerName m) k = t.cachedName m k := by
  unfold cachedName Strategy.cacheSet Strategy.setCache StickyCache.set
  dsimp only
  rw [if_pos rfl, StickyCache.entry_put_ne _ hk]
  split
  · rename_i hfull
    have hne : k ≠ (StickyCache.leastRecent (env.order m.ticks (m.caches t.cache).entries)).1 :=
      fun h => he ⟨hfull.1, hfull.2.1, hfull.2.2, h.symm⟩
    unfold StickyCache.evictLRU
    dsimp only
    split
    · exact congrArg _ (Jupiter.Lib.Table.lookup_erase_ne hne _)
    · rfl
  · rfl

/-! ## Conditions on the steps -/

/-- No expiry, eviction or `Clear` touches the entry of `k` in this step. -/
def Quiet (k : String) (s : Calls) : Label → Prop
  | .lookup _ req => t.key req = k →
      ∀ e, (s.mem.caches t.cache).entry k = some e → (s.mem.caches t.cache).expired (env.now s.mem.ticks) e = false
  | .select _ => True
  | .store i => ∀ c, s.calls i = some c → ¬ t.Evicts env s.mem (t.key c.req) k
  | .removeExpired => ((s.mem.caches t.cache).removeExpired (env.now s.mem.ticks)).entry k =
      (s.mem.caches t.cache).entry k
  | .clear => (s.mem.caches t.cache).entry k = none

/-- A call that missed and has not stored or failed. -/
def Phase.pending : Phase → Bool
  | .missed => true
  | .selected _ => true
  | .returned _ => false

/-- A lookup of `k` comes when no other call with this key is between its miss and its store. -/
def Exclusive (k : String) (s : Calls) : Label → Prop
  | .lookup _ req => t.key req = k → ∀ j c, s.calls j = some c → t.key c.req = k → Phase.pending c.phase = false
  | _ => True

/-! ## The invariant -/

def Returned (k : String) (s : Calls) (i : Nat) (p : Provider) : Prop :=
  ∃ c, s.calls i = some c ∧ t.key c.req = k ∧ c.phase = .returned (.ok p)

def Pending (k : String) (s : Calls) (i : Nat) : Prop :=
  ∃ c, s.calls i = some c ∧ t.key c.req = k ∧ Phase.pending c.phase = true

/-- At most one call is pending, none has returned a provider while one is, and what was returned is what the
cache names. -/
structure Affine (k : String) (s : Calls) : Prop where
  one : ∀ i j, t.Pending k s i → t.Pending k s j → i = j
  first : ∀ i, t.Pending k s i → ∀ j p, ¬ t.Returned k s j p
  named : ∀ j p, t.Returned k s j p → p ∈ t.available ∧ t.cachedName s.mem k = some p.name
  listed : ∀ i c p, s.calls i = some c → c.phase = .selected p → p ∈ t.available

variable {t} {k : String} {s : Calls} {m : Mem} {i : Nat} {req : RoutingRequest} {phase : Phase}

theorem returned_put {j : Nat} {p : Provider} :
    t.Returned k (Calls.put s m i req phase) j p ↔
      (j = i ∧ t.key req = k ∧ phase = .returned (.ok p)) ∨ (j ≠ i ∧ t.Returned k s j p) := by
  unfold Returned Calls.put
  by_cases hj : j = i
  · simp [hj]
  · simp [hj]

theorem pending_put {j : Nat} :
    t.Pending k (Calls.put s m i req phase) j ↔
      (j = i ∧ t.key req = k ∧ Phase.pending phase = true) ∨ (j ≠ i ∧ t.Pending k s j) := by
  unfold Pending Calls.put
  by_cases hj : j = i
  · simp [hj]
  · simp [hj]

theorem listed_put (h : t.Affine k s) (hp : ∀ p, phase = .selected p → p ∈ t.available) :
    ∀ j c p, (Calls.put s m i req phase).calls j = some c → c.phase = .selected p → p ∈ t.available := by
  intro j c p hc hphase
  by_cases hj : j = i
  · simp only [Calls.put, hj, if_true, Option.some.injEq] at hc
    rw [← hc] at hphase
    exact hp p hphase
  · simp only [Calls.put, hj, if_false] at hc
    exact h.listed j c p hc hphase

theorem affine_put_other (h : t.Affine k s) (hname : t.cachedName m k = t.cachedName s.mem k)
    (hpend : t.key req = k → Phase.pending phase = false) (hret : t.key req = k → ∀ p, phase ≠ .returned (.ok p))
    (hp : ∀ p, phase = .selected p → p ∈ t.available) : t.Affine k (Calls.put s m i req phase) := by
  have hpending : ∀ j, t.Pending k (Calls.put s m i req phase) j → t.Pending k s j := by
    intro j hj
    rcases pending_put.1 hj with ⟨-, hk, hpe⟩ | ⟨-, hj⟩
    · rw [hpend hk] at hpe
      cases hpe
    · exact hj
  have hreturned : ∀ j p, t.Returned k (Calls.put s m i req phase) j p → t.Returned k s j p := by
    intro j p hj
    rcases returned_put.1 hj with ⟨-, hk, hph⟩ | ⟨-, hj⟩
    · exact absurd hph (hret hk p)
    · exact hj
  refine ⟨fun j j' hj hj' => h.one j j' (hpending j hj) (hpending j' hj'),
    fun j hj j' p hj' => h.first j (hpending j hj) j' p (hreturned j' p hj'), ?_, listed_put h hp⟩
  intro j p hj
  obtain ⟨hmem, hcached⟩ := h.named j p (hreturned j p hj)
  exact ⟨hmem, hname.trans hcached⟩

theorem affine_put_pending (h : t.Affine k s) (hone : ∀ j, t.Pending k s j → j = i)
    (hfirst : ∀ j p, ¬ t.Returned k s j p) (hnot : ∀ p, phase ≠ .returned (.ok p))
    (hp : ∀ p, phase = .selected p → p ∈ t.available) : t.Affine k (Calls.put s m i req phase) := by
  have hpending : ∀ j, t.Pending k (Calls.put s m i req phase) j → j = i := by
    intro j hj
    rcases pending_put.1 hj with ⟨hji, -, -⟩ | ⟨-, hj⟩
    · exact hji
    · exact hone j hj
  have hreturned : ∀ j p, ¬ t.Returned k (Calls.put s m i req phase) j p := by
    intro j p hj
    rcases returned_put.1 hj with ⟨-, -, hph⟩ | ⟨-, hj⟩
    · exact hnot p hph
    · exact hfirst j p hj
  exact ⟨fun j j' hj hj' => (hpending j hj).trans (hpending j' hj').symm, fun _ _ j p => hreturned j p,
    fun j p hj => absurd hj (hreturned j p), listed_put h hp⟩

theorem affine_put_returned {p : Provider} (h : t.Affine k s) (hone : ∀ j, t.Pending k s j → j = i)
    (hmem : p ∈ t.available) (hname : t.cachedName m k = some p.name)
    (hold : ∀ j q, t.Returned k s j q → t.cachedName s.mem k = some p.name) :
    t.Affine k (Calls.put s m i req (.returned (.ok p))) := by
  have hpending : ∀ j, ¬ t.Pending k (Calls.put s m i req (.returned (.ok p))) j := by
    intro j hj
    rcases pending_put.1 hj with ⟨-, -, hpe⟩ | ⟨hji, hj⟩
    · cases hpe
    · exact hji (hone j hj)
  refine ⟨fun j _ hj => absurd hj (hpending j), fun j hj => absurd hj (hpending j), ?_,
    listed_put h (fun _ hph => by cases hph)⟩
  intro j q hj
  rcases returned_put.1 hj with ⟨-, -, hph⟩ | ⟨-, hj⟩
  · cases hph
    exact ⟨hmem, hname⟩
  · obtain ⟨hq, hcached⟩ := h.named j q hj
    rw [hold j q hj] at hcached
    exact ⟨hq, hname.trans hcached⟩

theorem affine_mem (h : t.Affine k s) (hname : t.cachedName m k = t.cachedName s.mem k) :
    t.Affine k { s with mem := m } :=
  ⟨h.one, h.first, fun j p hj => ⟨(h.named j p hj).1, hname.trans (h.named j p hj).2⟩, h.listed⟩

/-! ## The steps keep it -/

theorem cacheGet_eq_cachedName (hq : ∀ e, (m.caches t.cache).entry k = some e →
    (m.caches t.cache).expired (env.now m.ticks) e = false) :
    (Strategy.cacheGet env t.cache k m).1 = t.cachedName m k := by
  unfold Strategy.cacheGet cachedName StickyCache.get
  dsimp only
  cases he : (m.caches t.cache).entry k with
  | none => rfl
  | some e =>
    dsimp only
    rw [if_neg (by simp [hq e he])]
    rfl

theorem lookup_affine (hk : k ≠ "") (h : t.Affine k s) (hq : t.Quiet env k s (.lookup i req))
    (hx : t.Exclusive k s (.lookup i req)) : t.Affine k (t.lookup env s i req) := by
  unfold lookup
  split
  · exact affine_put_other h rfl (fun _ => rfl) (fun _ p hph => by cases hph) (fun p hph => by cases hph)
  · split
    · rename_i hempty
      have hne : t.key req ≠ k := fun hkey => hk (hkey ▸ hempty)
      exact affine_put_other h rfl (fun hkey => absurd hkey hne) (fun _ p hph => by cases hph)
        (fun p hph => by cases hph)
    · by_cases hkey : t.key req = k
      · have hnone : ∀ j, ¬ t.Pending k s j := by
          rintro j ⟨c, hc, hck, hpe⟩
          rw [hx hkey j c hc hck] at hpe
          cases hpe
        have hget := cacheGet_eq_cachedName (m := s.mem) env (hq hkey)
        have hname := t.cachedName_cacheGet env s.mem k k
        rw [hkey]
        dsimp only
        rw [hget]
        split
        · rename_i p hfind
          obtain ⟨name, hcached, hp⟩ := Option.bind_eq_some_iff.1 hfind
          obtain ⟨hmem, rfl⟩ := findProvider_some hp
          exact affine_put_returned h (fun j hj => absurd hj (hnone j)) hmem (hname.trans hcached)
            (fun _ _ _ => hcached)
        · rename_i hfind
          refine affine_put_pending h (fun j hj => absurd hj (hnone j)) ?_ (fun p hph => by cases hph)
            (fun p hph => by cases hph)
          -- a call that had returned a provider would have left its name where this lookup finds it
          intro j p hj
          obtain ⟨hmem, hcached⟩ := h.named j p hj
          rw [hcached, Option.bind_some] at hfind
          have := List.find?_eq_none.1 hfind p hmem
          simp at this
      · have hname := t.cachedName_cacheGet env s.mem (t.key req) k
        dsimp only
        split <;> exact affine_put_other h hname (fun hkey' => absurd hkey' hkey) (fun hkey' => absurd hkey' hkey)
          (fun p hph => by cases hph)

theorem select_affine (hk : k ≠ "") (hu : t.fallbackStrategy.uses t.cache = false) (h : t.Affine k s)
    (hc : s.calls i = some ⟨req, .missed⟩) : t.Affine k (t.select env s i req) := by
  have hname := t.cachedName_select env hu req s.mem k
  unfold select
  split
  · rename_i err m hsel
    rw [hsel] at hname
    exact affine_put_other h hname (fun _ => rfl) (fun _ p hph => by cases hph) (fun p hph => by cases hph)
  · rename_i p m hsel
    rw [hsel] at hname
    have hmem : p ∈ t.available :=
      t.fallbackStrategy.selectProvider_mem env req t.available s.mem p (congrArg Prod.fst hsel)
    by_cases hkey : t.key req = k
    · have hpend : t.Pending k s i := ⟨_, hc, hkey, rfl⟩
      rw [if_neg (fun he => hk (hkey ▸ he))]
      exact affine_put_pending h (fun j hj => h.one j i hj hpend) (h.first i hpend) (fun p hph => by cases hph)
        (fun q hph => by cases hph; exact hmem)
    · refine affine_put_other h hname (fun hkey' => absurd hkey' hkey) (fun hkey' => absurd hkey' hkey) ?_
      intro q hph
      split at hph
      · cases hph
      · cases hph
        exact hmem

theorem store_affine {p : Provider} (h : t.Affine k s) (hc : s.calls i = some ⟨req, .selected p⟩)
    (hq : t.Quiet env k s (.store i)) : t.Affine k (t.store env s i req p) := by
  have hmem : p ∈ t.available := h.listed i _ p hc rfl
  unfold store
  by_cases hkey : t.key req = k
  · have hpend : t.Pending k s i := ⟨_, hc, hkey, rfl⟩
    rw [hkey]
    exact affine_put_returned h (fun j hj => h.one j i hj hpend) hmem (t.cachedName_cacheSet_self env s.mem k p.name)
      (fun j q hj => absurd hj (h.first i hpend j q))
  · have hname := t.cachedName_cacheSet_ne env (Ne.symm hkey) (hq _ hc) p.name
    exact affine_put_other h hname (fun hkey' => absurd hkey' hkey) (fun hkey' => absurd hkey' hkey)
      (fun q hph => by cases hph)

theorem step_affine (hk : k ≠ "") (hu : t.fallbackStrategy.uses t.cache = false) (s : Calls) (l : Label) (s' : Calls)
    (h : t.Affine k s) (hq : t.Quiet env k s l ∧ t.Exclusive k s l) (hstep : t.step env s l = some s') :
    t.Affine k s' := by
  cases l with
  | lookup i req =>
    unfold step at hstep
    dsimp only at hstep
    split at hstep
    · cases hstep
    · cases hstep
      exact lookup_affine env hk h hq.1 hq.2
  | select i =>
    unfold step at hstep
    dsimp only at hstep
    split at hstep
    · rename_i hc
      cases hstep
      exact select_affine env hk hu h hc
    · cases hstep
  | store i =>
    unfold step at hstep
    dsimp only at hstep
    split at hstep
    · rename_i hc
      cases hstep
      exact store_affine env h hc hq.1
    · cases hstep
  | removeExpired =>
    cases hstep
    refine affine_mem h ?_
    unfold cachedName Strategy.setCache
    dsimp only
    rw [if_pos rfl, hq.1]
  | clear =>
    cases hstep
    refine affine_mem h ?_
    unfold cachedName Strategy.setCache
    dsimp only
    rw [if_pos rfl, hq.1]
    rfl

/-! ## Runs -/

def start (m : Mem) : Calls := ⟨m, fun _ => none⟩

theorem start_affine (m : Mem) : t.Affine k (start m) := by
  refine ⟨?_, ?_, ?_, ?_⟩
  · rintro i j ⟨c, hc, -⟩
    cases hc
  · rintro i ⟨c, hc, -⟩
    cases hc
  · rintro j p ⟨c, hc, -⟩
    cases hc
  · intro i c p hc
    cases hc

/-- In every run in which nothing touches the entry of a non-empty key and no call looks it up while another is between
its miss and its store, all calls with the key that return a provider return the same one. -/
theorem affinity_of_exclusive (env : Env) (t : Sticky) (hu : t.fallbackStrategy.uses t.cache = false)
    (hnames : (t.available.map (·.name)).Nodup) (k : String) (hk : k ≠ "") (m : Mem) (labels : List Label) (s : Calls)
    (hmeets : Meets (t.step env) (fun s l => t.Quiet env k s l ∧ t.Exclusive k s l) (start m) labels)
    (hrun : run (t.step env) (start m) labels = some s) (i j : Nat) (p q : Provider)
    (hi : t.Returned k s i p) (hj : t.Returned k s j q) : p = q := by
  have h : t.Affine k s := run_invariant_of_meets (step_affine env hk hu) labels (start m) s (start_affine m) hmeets hrun
  obtain ⟨hp, hpn⟩ := h.named i p hi
  obtain ⟨hq, hqn⟩ := h.named j q hj
  exact List.inj_on_of_nodup_map hnames hp hq (Option.some.inj (hpn.symm.trans hqn))

/-! ### Two first requests of one user -/

def twoProviders : Sticky where
  cache := 0
  fallbackStrategy := .roundRobin 0 []
  keyType := "user"
  available := [⟨1, "openai", true⟩, ⟨2, "anthropic", true⟩]

def ofUser : RoutingRequest := { user := "u" }

/-- Whether the call has returned the provider; decidable, unlike `Returned`. -/
def hasReturned (s : Calls) (i : Nat) (p : Provider) : Bool :=
  match s.calls i with
  | some ⟨req, .returned (.ok q)⟩ => decide (twoProviders.key req = "u" ∧ q = p)
  | _ => false

theorem returned_of_hasReturned {s : Calls} {i : Nat} {p : Provider} (h : hasReturned s i p = true) :
    twoProviders.Returned "u" s i p := by
  unfold hasReturned at h
  split at h
  · rename_i req q hc
    obtain ⟨hkey, rfl⟩ := of_decide_eq_true h
    exact ⟨_, hc, hkey, rfl⟩
  · cases h

theorem quiet_twoProviders {s : Calls} (httl : (s.mem.caches 0).ttl = 0) (hmax : (s.mem.caches 0).maxEntries = 0) :
    (∀ i req, twoProviders.Quiet Router.steadyEnv "u" s (.lookup i req)) ∧
      ∀ i, twoProviders.Quiet Router.steadyEnv "u" s (.store i) := by
  constructor
  · intro i req _ e _
    show (decide ((s.mem.caches 0).ttl > 0) && _) = false
    rw [httl]
    rfl
  · rintro i c - ⟨hpos, -⟩
    have hpos' : (s.mem.caches 0).maxEntries > 0 := hpos
    omega

theorem affinity_oneAfterTheOther :
    ∃ s, run (twoProviders.step Router.steadyEnv) (start Router.emptyMem)
        [.lookup 0 ofUser, .select 0, .store 0, .lookup 1 ofUser] = some s ∧
      ∀ q, twoProviders.Returned "u" s 1 q → ⟨1, "openai", true⟩ = q := by
  refine ⟨_, rfl, fun q hq => ?_⟩
  refine affinity_of_exclusive Router.steadyEnv twoProviders rfl (by decide) "u" (by decide) Router.emptyMem
    [.lookup 0 ofUser, .select 0, .store 0, .lookup 1 ofUser] _ ?_ rfl 0 1 _ q (returned_of_hasReturned rfl) hq
  refine meets_cons ⟨(quiet_twoProviders rfl rfl).1 _ _, fun _ j c hc => by cases hc⟩ rfl
    (meets_cons ⟨trivial, trivial⟩ rfl (meets_cons ⟨(quiet_twoProviders rfl rfl).2 _, trivial⟩ rfl
      (meets_cons ⟨(quiet_twoProviders rfl rfl).1 _ _, ?_⟩ rfl trivial)))
  rintro - j c hc -
  by_cases hj : j = 0
  · subst hj
    cases hc
    rfl
  · change (if j = 0 then _ else if j = 0 then _ else if j = 0 then _ else none) = some c at hc
    rw [if_neg hj, if_neg hj, if_neg hj] at hc
    cases hc

/-- Both calls miss before either stores: round-robin gives each its own provider. -/
theorem affinity_lost :
    Meets (twoProviders.step Router.steadyEnv) (twoProviders.Quiet Router.steadyEnv "u") (start Router.emptyMem)
        [.lookup 0 ofUser, .lookup 1 ofUser, .select 0, .select 1, .store 0, .store 1] ∧
      ∃ s, run (twoProviders.step Router.steadyEnv) (start Router.emptyMem)
          [.lookup 0 ofUser, .lookup 1 ofUser, .select 0, .select 1, .store 0, .store 1] = some s ∧
        twoProviders.Returned "u" s 0 ⟨1, "openai", true⟩ ∧
        twoProviders.Returned "u" s 1 ⟨2, "anthropic", true⟩ := by
  refine ⟨?_, _, rfl, returned_of_hasReturned rfl, returned_of_hasReturned rfl⟩
  exact meets_cons ((quiet_twoProviders rfl rfl).1 _ _) rfl (meets_cons ((quiet_twoProviders rfl rfl).1 _ _) rfl
    (meets_cons trivial rfl (meets_cons trivial rfl (meets_cons ((quiet_twoProviders rfl rfl).2 _) rfl
      (meets_cons ((quiet_twoProviders rfl rfl).2 _) rfl trivial)))))

end Sticky

end Jupiter.Routing
