/-
Routing stays among the eligible providers, and finds one when there is one.

Every strategy selects from the list it is given (`selectProvider_mem`), by induction over the strategy: each wrapper
passes on the list or a part of it, and a cached name only picks a provider of the list.
-/
import Jupiter.Routing.Router

namespace Jupiter.Routing

/-! ## Strategies select from their list -/

theorem findProvider_some {available : List Provider} {name : String} {p : Provider}
    (h : Strategy.findProvider available name = some p) : p ∈ available ∧ p.name = name := by
  unfold Strategy.findProvider at h
  exact ⟨List.mem_of_find?_eq_some h, by simpa using List.find?_some h⟩

namespace Strategy

theorem mem_weightedProviders {weights : List (String × Int)} {available : List Provider} {p : Provider}
    (h : p ∈ weightedProviders weights available) : p ∈ available := by
  unfold weightedProviders at h
  dsimp only at h
  split at h
  · exact h
  · unfold buildWeightedList at h
    split at h
    · exact h
    · obtain ⟨x, hx, hp⟩ := List.mem_flatMap.1 h
      rw [List.eq_of_mem_replicate hp]
      exact hx

theorem indexed_mem {slice : List Provider} {count : Int} {p : Provider} (h : indexed slice count = .ok p) :
    p ∈ slice := by
  unfold indexed at h
  dsimp only at h
  split at h
  · cases h
  · split at h
    · rename_i heq
      cases h
      exact List.mem_of_getElem? heq
    · cases h

theorem selectRoundRobin_mem {counter : Nat} {weights : List (String × Int)} {available : List Provider} {m : Mem}
    {p : Provider} (h : (selectRoundRobin counter weights available m).1 = .ok p) : p ∈ available := by
  unfold selectRoundRobin at h
  split at h
  · cases h
  · cases h
    exact List.mem_singleton_self _
  · exact mem_weightedProviders (indexed_mem h)

variable (env : Env)

theorem filterHealthy_subset (available : List Provider) : filterHealthy available ⊆ available :=
  List.filter_sublist.subset

theorem selectProvider_mem : ∀ (s : Strategy) (req : RoutingRequest) (available : List Provider) (m : Mem)
    (p : Provider), (s.selectProvider env req available m).1 = .ok p → p ∈ available
  | .roundRobin counter weights, req, available, m, p, h => selectRoundRobin_mem h
  | .manual none allowFallback, req, available, m, p, h => by
    unfold selectProvider at h
    repeat' split at h
    all_goals cases h
    · exact List.mem_cons_self ..
    · next hfind => exact (findProvider_some hfind).1
  | .manual (some fallbackStrategy) allowFallback, req, available, m, p, h => by
    unfold selectProvider at h
    split at h
    · cases h
    · split at h
      · exact selectProvider_mem fallbackStrategy req available m p h
      · split at h
        · rename_i hfind
          cases h
          exact (findProvider_some hfind).1
        · split at h
          · exact selectProvider_mem fallbackStrategy req available m p h
          · cases h
  | .healthBased wrappedStrategy requireHealthy, req, available, m, p, h => by
    unfold selectProvider at h
    split at h
    · cases h
    · split at h
      · split at h
        · cases h
        · exact selectProvider_mem wrappedStrategy req available m p h
      · exact filterHealthy_subset available (selectProvider_mem wrappedStrategy req _ m p h)
  | .sticky cache fallbackStrategy keyType, req, available, m, p, h => by
    unfold selectProvider at h
    split at h
    · cases h
    · split at h
      · exact selectProvider_mem fallbackStrategy req available m p h
      · dsimp only at h
        split at h
        · rename_i hfind
          cases h
          obtain ⟨name, -, hname⟩ := Option.bind_eq_some_iff.1 hfind
          exact (findProvider_some hname).1
        · split at h
          · cases h
          · rename_i hsel
            cases h
            exact selectProvider_mem fallbackStrategy req available _ p (congrArg Prod.fst hsel)

/-! ## Strategies select something -/

/-- Counters that have not come near to wrapping around. -/
def CountersInRange (m : Mem) : Prop := ∀ i, 0 ≤ m.counters i ∧ m.counters i < 2 ^ 62

theorem nextCount_nonneg {counter : Int} (h0 : 0 ≤ counter) (h : counter < 2 ^ 62) : 0 ≤ (nextCount counter).2 := by
  unfold nextCount Go.wrap64
  dsimp only
  split <;> omega

theorem indexed_succeeds {slice : List Provider} (hne : slice ≠ []) {count : Int} (h : 0 ≤ count) :
    ∃ p, indexed slice count = .ok p := by
  have hlen : 0 < slice.length := List.length_pos_iff.2 hne
  have hindex : 0 ≤ count.tmod slice.length := Int.tmod_nonneg _ h
  have hlt : count.tmod slice.length < slice.length := Int.tmod_lt_of_pos _ (by omega)
  obtain ⟨p, hp⟩ : ∃ p, slice[(count.tmod slice.length).toNat]? = some p :=
    ⟨_, List.getElem?_eq_getElem (by omega)⟩
  refine ⟨p, ?_⟩
  unfold indexed
  dsimp only
  rw [if_neg (by omega), hp]

theorem weightedProviders_ne_nil {weights : List (String × Int)} {available : List Provider} (h : available ≠ []) :
    weightedProviders weights available ≠ [] := by
  unfold weightedProviders
  dsimp only
  split
  · exact h
  · rename_i hw
    simpa using hw

theorem selectRoundRobin_succeeds {counter : Nat} {weights : List (String × Int)} {available : List Provider}
    {m : Mem} (hne : available ≠ []) (hc : CountersInRange m) :
    ∃ p, (selectRoundRobin counter weights available m).1 = .ok p := by
  unfold selectRoundRobin
  split
  · exact absurd rfl hne
  · exact ⟨_, rfl⟩
  · exact indexed_succeeds (weightedProviders_ne_nil hne) (nextCount_nonneg (hc counter).1 (hc counter).2)

theorem cacheGet_countersInRange {cache : Nat} {key : String} {m : Mem} (hc : CountersInRange m) :
    CountersInRange (cacheGet env cache key m).2 := hc

theorem selectProvider_succeeds : ∀ (s : Strategy) (req : RoutingRequest) (available : List Provider) (m : Mem),
    available ≠ [] → (∀ p ∈ available, p.isHealthy = true) → req.preferredProvider = "" → CountersInRange m →
      ∃ p, (s.selectProvider env req available m).1 = .ok p
  | .roundRobin counter weights, req, available, m, hne, hh, hreq, hc => selectRoundRobin_succeeds hne hc
  | .manual none allowFallback, req, available, m, hne, hh, hreq, hc => by
    unfold selectProvider
    split
    · exact absurd rfl hne
    · exact ⟨_, by rw [if_pos hreq]⟩
  | .manual (some fallbackStrategy) allowFallback, req, available, m, hne, hh, hreq, hc => by
    unfold selectProvider
    rw [if_neg (by simpa using hne), if_pos hreq]
    exact selectProvider_succeeds fallbackStrategy req available m hne hh hreq hc
  | .healthBased wrappedStrategy requireHealthy, req, available, m, hne, hh, hreq, hc => by
    have hall : filterHealthy available = available := List.filter_eq_self.2 hh
    unfold selectProvider
    rw [hall, if_neg (by simpa using hne), if_neg (by simpa using hne)]
    exact selectProvider_succeeds wrappedStrategy req available m hne hh hreq hc
  | .sticky cache fallbackStrategy keyType, req, available, m, hne, hh, hreq, hc => by
    unfold selectProvider
    rw [if_neg (by simpa using hne)]
    split
    · exact selectProvider_succeeds fallbackStrategy req available m hne hh hreq hc
    · dsimp only
      split
      · exact ⟨_, rfl⟩
      · obtain ⟨p, hp⟩ := selectProvider_succeeds fallbackStrategy req available
          (cacheGet env cache (buildCacheKey keyType req) m).2 hne hh hreq (cacheGet_countersInRange env hc)
        split
        · rename_i hsel
          rw [hsel] at hp
          cases hp
        · exact ⟨_, rfl⟩

end Strategy

/-! ## The router -/

/-- A provider the router may use for a request. -/
structure Eligible (r : Router) (req : RoutingRequest) (p : Provider) : Prop where
  configured : ∃ key, (key, p) ∈ r.pool
  healthy : p.isHealthy = true
  listed : req.model ≠ "" → ∀ names, r.modelMapping.lookup req.model = some names → p.name ∈ names

theorem mem_filterByModel {modelMapping : List (String × List String)} {providerList : List Provider}
    {model : String} {p : Provider} :
    p ∈ filterByModel modelMapping providerList model ↔
      p ∈ providerList ∧ (model ≠ "" → ∀ names, modelMapping.lookup model = some names → p.name ∈ names) := by
  unfold filterByModel
  split
  · rename_i hmodel
    simp [hmodel]
  · rename_i hmodel
    cases hl : modelMapping.lookup model with
    | none => simp
    | some names => simp [hmodel]

namespace Router

variable (env : Env) (r : Router) {read : List (String × Provider)} {req : RoutingRequest}
  {available : List Provider} {m : Mem} {result : RoutingResult}

def filtered (read : List (String × Provider)) (req : RoutingRequest) : List Provider :=
  filterByHealth (filterByModel r.modelMapping (read.map (·.2)) req.model)

theorem mem_filtered (hread : read.Perm r.pool) (p : Provider) : p ∈ r.filtered read req ↔ Eligible r req p := by
  unfold filtered filterByHealth
  rw [List.mem_filter, mem_filterByModel, List.mem_map]
  constructor
  · rintro ⟨⟨⟨x, hx, rfl⟩, hlisted⟩, hhealthy⟩
    exact ⟨⟨x.1, hread.mem_iff.1 hx⟩, hhealthy, hlisted⟩
  · rintro ⟨⟨key, hkey⟩, hhealthy, hlisted⟩
    exact ⟨⟨⟨(key, p), hread.mem_iff.2 hkey, rfl⟩, hlisted⟩, hhealthy⟩

/-- A result that names one of the given providers by its own name. -/
def Among (available : List Provider) (result : RoutingResult) : Prop :=
  result.provider ∈ available ∧ result.providerName = result.provider.name

theorem routeWithStrategy_among
    (h : (routeWithStrategy r (selects env r req m) available).result = .ok result) : Among available result := by
  unfold routeWithStrategy selects at h
  split at h
  · cases h
  · rename_i p m' hsel
    cases h
    exact ⟨r.strategy.selectProvider_mem env req available m p (congrArg Prod.fst hsel), rfl⟩

theorem tryFallbacks_among :
    ∀ (attempted names : List String), (tryFallbacks req available m attempted names).result = .ok result →
      Among available result
  | _, [], h => by cases h
  | attempted, name :: rest, h => by
    unfold tryFallbacks at h
    split at h
    · rename_i p hfind
      cases h
      exact (findProvider_some hfind).imp_right Eq.symm
    · exact tryFallbacks_among _ rest h

theorem routeWithPolicy_among {target : Engine.RoutingTarget}
    (h : (routeWithPolicy r req target available m).result = .ok result) :
    Among available result := by
  unfold routeWithPolicy at h
  rw [after_result] at h
  split at h
  · rename_i p hfind
    cases h
    exact (findProvider_some hfind).imp_right Eq.symm
  · split at h
    · exact tryFallbacks_among _ _ h
    · cases h

theorem routeManual_among
    (h : (routeManual r (selects env r req m) req available m).result = .ok result) : Among available result := by
  unfold routeManual at h
  rw [after_result] at h
  split at h
  · rename_i p hfind
    cases h
    exact (findProvider_some hfind).imp_right Eq.symm
  · split at h
    · exact routeWithStrategy_among env r h
    · cases h

theorem routeAmong_among
    (h : (routeAmong r (selects env r req m) req available m).result = .ok result) : Among available result := by
  unfold routeAmong at h
  split at h
  · exact routeWithPolicy_among r h
  · split at h
    · exact routeManual_among env r h
    · exact routeWithStrategy_among env r h

theorem routeAmong_succeeds (hne : available ≠ [])
    (hh : ∀ p ∈ available, p.isHealthy = true) (htarget : req.routingTarget = none)
    (hpreferred : req.preferredProvider = "") (hc : Strategy.CountersInRange m) :
    ∃ result, (routeAmong r (selects env r req m) req available m).result = .ok result := by
  obtain ⟨p, hp⟩ := r.strategy.selectProvider_succeeds env req available m hne hh hpreferred hc
  unfold routeAmong
  rw [htarget]
  dsimp only
  rw [if_neg (by simp [hpreferred])]
  unfold routeWithStrategy selects
  split
  · rename_i hsel
    rw [hsel] at hp
    cases hp
  · exact ⟨_, rfl⟩

theorem routeRequest_of_filtered (hne : r.filtered read req ≠ []) (m : Mem) :
    (routeRequest env r false read req m).1 =
      (routeAmong r (selects env r req m) req (r.filtered read req) m).result := by
  unfold filtered at hne ⊢
  obtain ⟨p, hmem⟩ := List.exists_mem_of_ne_nil _ hne
  have hcap := (List.mem_filter.1 hmem).1
  have havail := (mem_filterByModel.1 hcap).1
  unfold routeRequest countedRequest
  simp only [after_result]
  rw [if_neg (by simp), if_neg (by simpa using List.ne_nil_of_mem havail),
    if_neg (by simpa using List.ne_nil_of_mem hcap), after_result, if_neg (by simpa using hne)]

/-- A result names an eligible provider by its own name; and when there is an eligible provider, the context is not
cancelled and neither the policy nor the request names one, there is a result. -/
theorem routeRequest_eligible (cancelled : Bool) (read : List (String × Provider)) (req : RoutingRequest) (m : Mem)
    (hread : read.Perm r.pool) (hc : Strategy.CountersInRange m) :
    (∀ result, (routeRequest env r cancelled read req m).1 = .ok result →
      Eligible r req result.provider ∧ result.providerName = result.provider.name) ∧
    (cancelled = false → req.routingTarget = none → req.preferredProvider = "" → (∃ p, Eligible r req p) →
      ∃ result, (routeRequest env r cancelled read req m).1 = .ok result) := by
  constructor
  · intro result h
    unfold routeRequest countedRequest at h
    simp only [after_result, apply_ite Outcome.result, fail_result] at h
    split_ifs at h
    obtain ⟨hmem, hname⟩ := routeAmong_among env r h
    exact ⟨(mem_filtered r hread _).1 hmem, hname⟩
  · intro hctx htarget hpreferred hex
    obtain ⟨p, hp⟩ := hex
    have hne := List.ne_nil_of_mem ((mem_filtered r hread p).2 hp)
    rw [hctx, routeRequest_of_filtered env r hne m]
    exact routeAmong_succeeds env r hne (fun x hx => (List.mem_filter.1 hx).2) htarget hpreferred hc

/-! ### A sticky router over two providers, one of them down -/

def steadyEnv : Env where
  now _ := 0
  order _ l := l
  order_perm _ l := List.Perm.refl l

def emptyMem : Mem where
  caches _ := { entries := [], ttl := 0, maxEntries := 0 }
  counters _ := 0

def downAndUp : Router where
  pool := [("openai", ⟨1, "openai", false⟩), ("anthropic", ⟨2, "anthropic", true⟩)]
  modelMapping := [("chat", ["openai", "anthropic"])]
  strategy := .sticky 0 (.healthBased (.roundRobin 0 []) true) "user"
  fallbackEnabled := true
  distinct := by decide

theorem routeRequest_eligible_downAndUp :
    Eligible downAndUp { model := "chat", user := "u" } ⟨2, "anthropic", true⟩ ∧
      ∃ result, (routeRequest steadyEnv downAndUp false downAndUp.pool { model := "chat", user := "u" } emptyMem).1 =
        .ok result := by
  have helig : Eligible downAndUp { model := "chat", user := "u" } ⟨2, "anthropic", true⟩ := by
    refine ⟨⟨"anthropic", by decide⟩, rfl, ?_⟩
    intro _ names hnames
    obtain rfl : ["openai", "anthropic"] = names := Option.some.inj hnames
    decide
  have hc : Strategy.CountersInRange emptyMem := by
    intro i
    show (0 : Int) ≤ 0 ∧ (0 : Int) < 2 ^ 62
    decide
  exact ⟨helig, (routeRequest_eligible steadyEnv downAndUp false downAndUp.pool { model := "chat", user := "u" }
    emptyMem (List.Perm.refl _) hc).2 rfl rfl rfl ⟨_, helig⟩⟩

end Router

end Jupiter.Routing
