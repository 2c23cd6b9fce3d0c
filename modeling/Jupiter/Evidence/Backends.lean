/-
When the two evidence backends agree on a query.

Most filters are tested alike (`matchesOthers`). The memory backend compares the instants of request times, the WHERE
clause the texts they are stored as, and it has two LIKE tests the memory backend has no counterpart of
(`matchesQuery_eq`, `selected_eq`). The memory backend pages through its map in the order the map happens to be read.
-/
import Jupiter.Evidence.Storage

namespace Jupiter.Evidence.Storage

open Jupiter.Go Jupiter.Lib

/-! ## The filters -/

/-- The test a policy or rule ID of a query puts on the marshalled rules of a record. -/
def rulesLike (s : String) (r : EvidenceRecord) : Bool :=
  s == "" || Sql.like ("%" ++ s ++ "%").toList (Json.slice SQLite.marshalRule r.matchedRules).toList

namespace SQLite

variable {column : Column} {r : EvidenceRecord}

theorem passes_whenSet {x : String} (h : columns r column = .text x) (s : String) :
    Sql.passes (whenSet column s) (columns r) = !(s != "" && x != s) := by
  unfold whenSet
  by_cases hs : s = ""
  · simp [hs, Sql.passes]
  · by_cases hx : x = s
    · simp [hs, hx, Sql.passes, Sql.Test.eval, h]
    · simp [hs, hx, Sql.passes, Sql.Test.eval, h]

theorem passes_whenContains (s : String) :
    Sql.passes (whenContains s) (columns r) = rulesLike s r := by
  unfold whenContains rulesLike
  by_cases hs : s = ""
  · simp [hs, Sql.passes]
  · simp [hs, Sql.passes, Sql.Test.eval, columns]

theorem passes_whenGiven {α : Type} {x : Sql.Value} (h : columns r column = x) (hx : x ≠ .null) (b : Option α)
    (f : α → Sql.Value) (hf : ∀ a, f a ≠ .null) :
    Sql.passes (whenGiven column b fun a => .ge (f a)) (columns r) = !(b.any fun a => !(f a).le x) ∧
      Sql.passes (whenGiven column b fun a => .le (f a)) (columns r) = !(b.any fun a => !x.le (f a)) := by
  cases b with
  | none => exact ⟨rfl, rfl⟩
  | some a => simp [whenGiven, Sql.passes, Sql.Test.eval, h, hx, hf]

theorem passes_status (q : Query) :
    Sql.passes (κ := Column)
      (if q.status = "success" then [⟨.error, .isNull⟩]
       else if q.status = "error" then [⟨.error, .isNotNull⟩]
       else if q.status = "blocked" then [⟨.policyDecision, .eq (.text "block")⟩]
       else []) (columns r) =
      (if q.status = "success" then r.error == ""
       else if q.status = "error" then r.error != ""
       else if q.status = "blocked" then r.policyDecision == "block"
       else true) := by
  have herr : columns r .error = .null ↔ r.error = "" := by
    by_cases h : r.error = "" <;> simp [columns, h]
  split_ifs
  · by_cases h : r.error = "" <;> simp [Sql.passes, Sql.Test.eval, herr, h]
  · by_cases h : r.error = "" <;> simp [Sql.passes, Sql.Test.eval, herr, h]
  · by_cases h : r.policyDecision = "block" <;> simp [Sql.passes, Sql.Test.eval, columns, h]
  · rfl

end SQLite

/-- The filters that both backends test alike: those of `matchesQuery` without a time range. -/
def matchesOthers (query : Query) (record : EvidenceRecord) : Bool :=
  Memory.matchesQuery record { query with startTime := none, endTime := none }

/-- The request time lies between the bounds of the query, in the order of `key`. -/
def within {κ : Type} [LT κ] [DecidableLT κ] (key : Zoned → κ) (query : Query) (record : EvidenceRecord) : Bool :=
  !(query.startTime.any fun t => decide (key record.requestTime < key t)) &&
  !(query.endTime.any fun t => decide (key t < key record.requestTime))

theorem matchesQuery_eq (q : Query) (r : EvidenceRecord) :
    Memory.matchesQuery r q = (within Zoned.instant q r && matchesOthers q r) := by
  unfold matchesOthers Memory.matchesQuery within
  simp only [Bool.and_assoc, gt_iff_lt, Option.any_none, Bool.not_false, Bool.true_and]

theorem not_number_le (a b : ℚ) : (!(Sql.Value.number a).le (.number b)) = decide (b < a) := by
  simp [Sql.Value.le, ← decide_not]

theorem not_text_le (a b : String) : (!(Sql.Value.text a).le (.text b)) = decide (b < a) := by
  simp [Sql.Value.le, ← decide_not]

theorem selected_eq (q : Query) (r : EvidenceRecord) :
    SQLite.selected q r =
      (within Zoned.text q r && matchesOthers q r && (rulesLike q.policyID r && rulesLike q.ruleID r)) := by
  have huser : SQLite.columns r .userID = .text r.userID := rfl
  have hkey : SQLite.columns r .apiKey = .text r.apiKey := rfl
  have hprovider : SQLite.columns r .provider = .text r.provider := rfl
  have hmodel : SQLite.columns r .model = .text r.model := rfl
  have hdecision : SQLite.columns r .policyDecision = .text r.policyDecision := rfl
  have hcost : SQLite.columns r .actualCost = .number r.actualCost := rfl
  have htokens : SQLite.columns r .totalTokens = .number r.totalTokens := rfl
  have htime : SQLite.columns r .requestTime = .text r.requestTime.text := rfl
  have hcosts (b : Option ℚ) := SQLite.passes_whenGiven hcost nofun b (.number ·) nofun
  have hcounts (b : Option Int) := SQLite.passes_whenGiven htokens nofun b (.number ·) nofun
  have htimes (b : Option Zoned) := SQLite.passes_whenGiven htime nofun b (.text ·.text) nofun
  unfold SQLite.selected SQLite.buildWhereClause within matchesOthers Memory.matchesQuery
  simp only [Sql.passes_append, SQLite.passes_whenContains, SQLite.passes_status, SQLite.passes_whenSet huser,
    SQLite.passes_whenSet hkey, SQLite.passes_whenSet hprovider, SQLite.passes_whenSet hmodel,
    SQLite.passes_whenSet hdecision, (htimes _).1, (htimes _).2, (hcosts _).1, (hcosts _).2, (hcounts _).1,
    (hcounts _).2, not_number_le, not_text_le, Rat.intCast_lt_intCast, gt_iff_lt, Option.any_none, Bool.not_false,
    Bool.true_and]
  ac_rfl

/-! ## Count and Delete -/

section Agreement

variable {s : Store} {q : Query}

/-- A record that passes the filters tested alike lies in the time range by its instant exactly when it does by the text
of its time and has the policy and rule IDs of the query in its rules. -/
def FiltersAgree (s : Store) (q : Query) : Prop :=
  ∀ r ∈ s.records, matchesOthers q r = true → (within Zoned.instant q r = true ↔
    within Zoned.text q r = true ∧ rulesLike q.policyID r = true ∧ rulesLike q.ruleID r = true)

theorem selected_eq_matchesQuery_iff (r : EvidenceRecord) :
    SQLite.selected q r = Memory.matchesQuery r q ↔ (matchesOthers q r = true → (within Zoned.instant q r = true ↔
      within Zoned.text q r = true ∧ rulesLike q.policyID r = true ∧ rulesLike q.ruleID r = true)) := by
  rw [selected_eq, matchesQuery_eq]
  cases matchesOthers q r with
  | false => simp
  | true =>
    rw [Bool.and_true, Bool.and_true, Bool.eq_iff_iff, Bool.and_eq_true, Bool.and_eq_true]
    exact ⟨fun h _ => h.symm, fun h => (h rfl).symm⟩

theorem selected_eq_matchesQuery (h : FiltersAgree s q) {r : EvidenceRecord} (hr : r ∈ s.records) :
    SQLite.selected q r = Memory.matchesQuery r q := (selected_eq_matchesQuery_iff r).2 (h r hr)

theorem delete_agrees_iff : Memory.delete s q = SQLite.delete s q ↔ FiltersAgree s q := by
  constructor
  · intro h r hr
    have hleft : r ∈ s.records.filter (!Memory.matchesQuery · q) ↔ r ∈ s.records.filter (!SQLite.selected q ·) :=
      iff_of_eq (congrArg (fun d : Nat × Store => r ∈ d.2.records) h)
    rw [List.mem_filter, List.mem_filter, and_iff_right hr, and_iff_right hr] at hleft
    refine (selected_eq_matchesQuery_iff r).1 ?_
    cases hm : Memory.matchesQuery r q <;> cases hs : SQLite.selected q r <;> simp [hm, hs] at hleft ⊢
  · intro h
    have hcount : Memory.count s q = SQLite.count s q :=
      List.countP_congr fun r hr => by rw [selected_eq_matchesQuery h hr]
    have hf : s.records.filter (!Memory.matchesQuery · q) = s.records.filter (!SQLite.selected q ·) :=
      List.filter_congr fun r hr => by rw [selected_eq_matchesQuery h hr]
    refine Prod.ext hcount ?_
    show s.without _ = s.without _
    unfold Store.without
    congr

/-! ## Query -/

/-- What the memory backend can return is a page of any order of the matching records. -/
theorem memory_returns_iff (hl : 0 < q.limit) (out : List EvidenceRecord) :
    Memory.Returns s q out ↔ ∃ rows : List EvidenceRecord, rows.Perm (s.records.filter (Memory.matchesQuery · q)) ∧
      out = (rows.drop q.offset.toNat).take q.limit.toNat := by
  have hpage : ∀ read : List EvidenceRecord, Memory.query read q =
      ((read.filter (Memory.matchesQuery · q)).drop q.offset.toNat).take q.limit.toNat := by
    intro read
    unfold Memory.query
    generalize read.filter (Memory.matchesQuery · q) = results
    dsimp only
    split
    · rw [List.drop_eq_nil_of_le (by omega), List.take_nil]
    · rw [List.take_eq_take_iff, List.length_drop]
      omega
  constructor
  · rintro ⟨read, hread, rfl⟩
    exact ⟨_, hread.filter _, hpage read⟩
  · rintro ⟨rows, hrows, rfl⟩
    refine ⟨rows ++ s.records.filter (!Memory.matchesQuery · q), ?_, ?_⟩
    · exact (hrows.append_right _).trans (List.filter_append_perm _ _)
    · rw [hpage, List.filter_append]
      have hall : rows.filter (Memory.matchesQuery · q) = rows :=
        List.filter_eq_self.2 fun r hr => (List.mem_filter.1 (hrows.subset hr)).2
      have hnone : (s.records.filter (!Memory.matchesQuery · q)).filter (Memory.matchesQuery · q) = [] := by
        simp [List.filter_filter]
      rw [hall, hnone, List.append_nil]

/-- A record that is read back from its row as it was stored. -/
def Lossless (r : EvidenceRecord) : Prop := r.providerLatency % 1000000 = 0 ∧ r.policyVersionInfo = none

theorem scanRow_eq_iff (r : EvidenceRecord) : SQLite.scanRow r = r ↔ Lossless r := by
  have hms : SQLite.milliseconds r.providerLatency * 1000000 = r.providerLatency ↔ r.providerLatency % 1000000 = 0 := by
    unfold SQLite.milliseconds
    constructor
    · intro h
      exact Int.emod_eq_zero_of_dvd ⟨_, (Int.mul_comm .. ▸ h).symm⟩
    · intro h
      exact Int.tdiv_mul_cancel (Int.dvd_of_emod_eq_zero h)
  constructor
  · intro h
    exact ⟨hms.1 (congrArg EvidenceRecord.providerLatency h), (congrArg EvidenceRecord.policyVersionInfo h).symm⟩
  · rintro ⟨hl, hv⟩
    show ({ r with providerLatency := _, policyVersionInfo := _ } : EvidenceRecord) = r
    rw [hms.2 hl, ← hv]

theorem columns_scanRow (r : EvidenceRecord) (c : Column) :
    SQLite.columns (SQLite.scanRow r) c = SQLite.columns r c := by
  cases c with
  | providerLatency =>
    show Sql.Value.number (SQLite.milliseconds (SQLite.milliseconds r.providerLatency * 1000000) : ℚ) = _
    rw [SQLite.milliseconds, Int.mul_tdiv_cancel _ (by decide)]
    rfl
  | _ => rfl

variable {column : Column} {descending : Bool}

theorem sqlite_returns_iff (h : FiltersAgree s q) (hl : 0 < q.limit)
    (ho : SQLite.orderBy q = some (column, descending)) (out : List EvidenceRecord) :
    SQLite.Returns s q out ↔ ∃ rows : List EvidenceRecord,
      rows.Perm (s.records.filter (Memory.matchesQuery · q)) ∧
      Sql.Ordered (SQLite.columns · column) descending rows ∧
      out = ((rows.drop q.offset.toNat).take q.limit.toNat).map SQLite.scanRow := by
  have hf : s.records.filter (SQLite.selected q) = s.records.filter (Memory.matchesQuery · q) :=
    List.filter_congr fun r hr => selected_eq_matchesQuery h hr
  have hlimit : SQLite.limit q = q.limit.toNat := if_pos hl
  unfold SQLite.Returns Sql.Selects
  rw [hf, hlimit, ho]
  constructor
  · rintro ⟨_, _, _, ⟨⟩, ⟨rows, hp, hord, rfl⟩, rfl⟩
    exact ⟨rows, hp, hord, rfl⟩
  · rintro ⟨rows, hp, hord, rfl⟩
    exact ⟨column, descending, _, rfl, ⟨rows, hp, hord, rfl⟩, rfl⟩

/-- The matching records that the order of the query could tell apart or that storing would change, if there
are any on the page. -/
def OrderFree (s : Store) (q : Query) : Prop :=
  s.records.countP (Memory.matchesQuery · q) ≤ q.offset.toNat ∨
    ∀ r ∈ s.records, Memory.matchesQuery r q = true → Lossless r ∧
      ∀ r' ∈ s.records, Memory.matchesQuery r' q = true →
        ∀ column descending, SQLite.orderBy q = some (column, descending) →
          SQLite.columns r column = SQLite.columns r' column

theorem exists_ordering_at (h : FiltersAgree s q) (hl : 0 < q.limit)
    (ho : SQLite.orderBy q = some (column, descending))
    (hq : ∀ out, Memory.Returns s q out ↔ SQLite.Returns s q out)
    (hoff : q.offset.toNat < s.records.countP (Memory.matchesQuery · q)) {r : EvidenceRecord} (hr : r ∈ s.records)
    (hm : Memory.matchesQuery r q = true) :
    SQLite.scanRow r = r ∧ ∃ rows : List EvidenceRecord,
      rows.Perm (s.records.filter (Memory.matchesQuery · q)) ∧
      Sql.Ordered (SQLite.columns · column) descending rows ∧
      (rows.map (SQLite.columns · column))[q.offset.toNat]? = some (SQLite.columns r column) := by
  rw [List.countP_eq_length_filter] at hoff
  obtain ⟨read, hread, hat⟩ := Sql.exists_perm_at (List.mem_filter.2 ⟨hr, hm⟩) hoff
  obtain ⟨rows, hrows, hord, hout⟩ := (sqlite_returns_iff h hl ho _).1
    ((hq _).1 ((memory_returns_iff hl _).2 ⟨read, hread, rfl⟩))
  have hfirst : ((rows.drop q.offset.toNat).take q.limit.toNat |>.map SQLite.scanRow)[0]? = some r := by
    rw [← hout, List.getElem?_take_of_lt (by omega), List.getElem?_drop]
    simpa using hat
  rw [List.getElem?_map, List.getElem?_take_of_lt (by omega), List.getElem?_drop, Nat.add_zero] at hfirst
  obtain ⟨x, hx, rfl⟩ := Option.map_eq_some_iff.1 hfirst
  refine ⟨?_, rows, hrows, hord, ?_⟩
  · exact (scanRow_eq_iff _).2 ⟨Int.mul_emod_left .., rfl⟩
  · rw [List.getElem?_map, hx, columns_scanRow]
    rfl

theorem orderFree_of_query_agrees (h : FiltersAgree s q) (hl : 0 < q.limit)
    (ho : SQLite.orderBy q = some (column, descending))
    (hq : ∀ out, Memory.Returns s q out ↔ SQLite.Returns s q out) : OrderFree s q := by
  rcases Nat.lt_or_ge q.offset.toNat (s.records.countP (Memory.matchesQuery · q)) with hoff | hoff
  · right
    intro r hr hm
    obtain ⟨hscan, rows, hp, hord, hk⟩ := exists_ordering_at h hl ho hq hoff hr hm
    refine ⟨(scanRow_eq_iff r).1 hscan, ?_⟩
    intro r' hr' hm' column' descending' ho'
    obtain ⟨-, rows', hp', hord', hk'⟩ := exists_ordering_at h hl ho hq hoff hr' hm'
    obtain ⟨rfl, rfl⟩ : column = column' ∧ descending = descending' := by simpa [ho] using ho'
    have hkeys := Sql.keys_eq_of_ordered (hp.trans hp'.symm) hord hord'
    rw [hkeys, hk'] at hk
    exact (Option.some.inj hk).symm
  · exact .inl hoff

theorem returns_iff_of_short (h : FiltersAgree s q) (hl : 0 < q.limit)
    (ho : SQLite.orderBy q = some (column, descending))
    (hoff : s.records.countP (Memory.matchesQuery · q) ≤ q.offset.toNat) (out : List EvidenceRecord) :
    Memory.Returns s q out ↔ SQLite.Returns s q out := by
  rw [memory_returns_iff hl, sqlite_returns_iff h hl ho]
  have hnil : ∀ rows : List EvidenceRecord, rows.Perm (s.records.filter (Memory.matchesQuery · q)) →
      rows.drop q.offset.toNat = [] := by
    intro rows hp
    rw [List.countP_eq_length_filter, ← hp.length_eq] at hoff
    exact List.drop_eq_nil_of_le hoff
  constructor
  · rintro ⟨rows, hp, rfl⟩
    obtain ⟨rows', hp', hord'⟩ := Sql.exists_ordered (s.records.filter (Memory.matchesQuery · q))
      (SQLite.columns · column) descending
    exact ⟨rows', hp', hord', by simp [hnil rows hp, hnil rows' hp']⟩
  · rintro ⟨rows, hp, -, rfl⟩
    exact ⟨rows, hp, by simp [hnil rows hp]⟩

theorem query_agrees_iff (h : FiltersAgree s q) (hl : 0 < q.limit)
    (ho : SQLite.orderBy q = some (column, descending)) :
    (∀ out, Memory.Returns s q out ↔ SQLite.Returns s q out) ↔ OrderFree s q := by
  refine ⟨orderFree_of_query_agrees h hl ho, ?_⟩
  rintro (hoff | hfree) out
  · exact returns_iff_of_short h hl ho hoff out
  · rw [memory_returns_iff hl, sqlite_returns_iff h hl ho]
    -- every order is an ordering, and reading back changes nothing
    have hmem : ∀ rows : List EvidenceRecord, rows.Perm (s.records.filter (Memory.matchesQuery · q)) →
        ∀ r ∈ rows, r ∈ s.records ∧ Memory.matchesQuery r q = true := by
      intro rows hp r hr
      exact List.mem_filter.1 (hp.subset hr)
    have hid : ∀ rows : List EvidenceRecord, rows.Perm (s.records.filter (Memory.matchesQuery · q)) →
        ((rows.drop q.offset.toNat).take q.limit.toNat).map SQLite.scanRow =
          (rows.drop q.offset.toNat).take q.limit.toNat := by
      intro rows hp
      refine (List.map_congr_left fun r hr => ?_).trans (List.map_id _)
      obtain ⟨hs, hm⟩ := hmem rows hp r (List.drop_subset _ _ (List.take_subset _ _ hr))
      exact (scanRow_eq_iff r).2 (hfree r hs hm).1
    constructor
    · rintro ⟨rows, hp, rfl⟩
      refine ⟨rows, hp, Sql.ordered_of_same_key ?_, (hid rows hp).symm⟩
      intro r hr r' hr'
      obtain ⟨hs, hm⟩ := hmem rows hp r hr
      obtain ⟨hs', hm'⟩ := hmem rows hp r' hr'
      exact (hfree r hs hm).2 r' hs' hm' column descending ho
    · rintro ⟨rows, hp, -, rfl⟩
      exact ⟨rows, hp, hid rows hp⟩

/-! ## Agreement -/

/-- The backends agree on a query: the same count, the same deletions, and the same possible results. -/
structure Agree (s : Store) (q : Query) : Prop where
  count : Memory.count s q = SQLite.count s q
  delete : Memory.delete s q = SQLite.delete s q
  query : ∀ out, Memory.Returns s q out ↔ SQLite.Returns s q out

theorem not_of_check_ok {c : Prop} [Decidable c] {message : String} {rest : Except String Unit}
    (h : (if c then .error message else rest) = .ok ()) : ¬ c ∧ rest = .ok () := by
  by_cases hc : c
  · rw [if_pos hc] at h
    cases h
  · rw [if_neg hc] at h
    exact ⟨hc, h⟩

theorem validate_ok (h : validate q = .ok ()) :
    0 ≤ q.limit ∧ (q.sortBy = "" ∨ validSortFields.lookup q.sortBy ≠ none) ∧
      (q.sortOrder = "" ∨ validSortOrders.lookup q.sortOrder ≠ none) := by
  unfold validate at h
  obtain ⟨hlimit, h⟩ := not_of_check_ok h
  obtain ⟨-, h⟩ := not_of_check_ok h
  obtain ⟨-, h⟩ := not_of_check_ok h
  obtain ⟨hfield, h⟩ := not_of_check_ok h
  obtain ⟨horder, -⟩ := not_of_check_ok h
  refine ⟨by omega, ?_, ?_⟩
  · by_cases hs : q.sortBy = ""
    · exact .inl hs
    · exact .inr fun hn => hfield ⟨hs, hn⟩
  · by_cases hs : q.sortOrder = ""
    · exact .inl hs
    · exact .inr fun hn => horder ⟨hs, hn⟩

theorem limit_applyDefaults_pos (h : validate q = .ok ()) : 0 < (applyDefaults q).limit := by
  obtain ⟨hlimit, -, -⟩ := validate_ok h
  unfold applyDefaults defaultLimit
  dsimp only
  split <;> omega

theorem lookup_defaulted {β : Type} {table : List (String × β)} {default name : String}
    (hdefault : table.lookup default ≠ none) (hname : name = "" ∨ table.lookup name ≠ none) :
    ∃ b, table.lookup (if (if name = "" then default else name) = "" then default
      else if name = "" then default else name) = some b := by
  refine Option.ne_none_iff_exists'.1 ?_
  by_cases he : name = ""
  · simpa [he] using hdefault
  · simpa [he] using hname.resolve_left he

theorem orderBy_applyDefaults (h : validate q = .ok ()) :
    ∃ column descending, SQLite.orderBy (applyDefaults q) = some (column, descending) := by
  obtain ⟨-, hfield, horder⟩ := validate_ok h
  have hf : validSortFields.lookup "request_time" ≠ none := by decide
  have hd : validSortOrders.lookup "desc" ≠ none := by decide
  obtain ⟨column, hcolumn⟩ := lookup_defaulted hf hfield
  obtain ⟨descending, hdescending⟩ := lookup_defaulted hd horder
  refine ⟨column, descending, ?_⟩
  unfold SQLite.orderBy applyDefaults
  dsimp only
  rw [hcolumn, hdescending]
  rfl

/-- The backends agree on a query that is accepted exactly when its time range and the policy and rule IDs it names mean
the same to both of them, and its order is one the memory backend cannot get wrong. -/
theorem backends_agree_iff (s : Store) (q : Query) (h : validate q = .ok ()) :
    Agree s (applyDefaults q) ↔ FiltersAgree s (applyDefaults q) ∧ OrderFree s (applyDefaults q) := by
  have hl := limit_applyDefaults_pos h
  obtain ⟨column, descending, ho⟩ := orderBy_applyDefaults h
  constructor
  · intro hagree
    have hfilters := delete_agrees_iff.1 hagree.delete
    exact ⟨hfilters, (query_agrees_iff hfilters hl ho).1 hagree.query⟩
  · rintro ⟨hfilters, hfree⟩
    have hdelete := delete_agrees_iff.2 hfilters
    exact ⟨congrArg Prod.fst hdelete, hdelete, (query_agrees_iff hfilters hl ho).2 hfree⟩

end Agreement

/-! ## A query by policy ID -/

def unmatchedRecord : EvidenceRecord where
  id := "rec-1"
  requestID := "req-1"
  requestTime := ⟨1, 0⟩

def oneRecord : Store where
  records := [unmatchedRecord]
  distinct := by decide

def twinRecord : EvidenceRecord := { unmatchedRecord with id := "rec-2", requestID := "req-2", providerLatency := 2000000 }

/-- Written two hours ahead of UTC. -/
def failedRecord : EvidenceRecord :=
  { unmatchedRecord with id := "rec-3", requestID := "req-3", error := "timeout", requestTime := ⟨Duration.hour, 120⟩ }

def threeRecords : Store where
  records := [unmatchedRecord, twinRecord, failedRecord]
  distinct := by decide

/-- The successful requests of the first hour. -/
def firstHour : Query := { endTime := some ⟨Duration.hour, 0⟩, status := "success" }

theorem backends_agree_firstHour : Agree threeRecords (applyDefaults firstHour) := by
  refine (backends_agree_iff threeRecords firstHour rfl).2 ⟨?_, .inr ?_⟩
  · unfold FiltersAgree
    decide +kernel
  · intro r hr hm
    have htwo : ∀ r ∈ threeRecords.records, Memory.matchesQuery r (applyDefaults firstHour) = true →
        r = unmatchedRecord ∨ r = twinRecord := by decide +kernel
    refine ⟨?_, fun r' hr' hm' column descending ho => ?_⟩
    · rcases htwo r hr hm with rfl | rfl <;> exact ⟨by decide, rfl⟩
    · have hby : SQLite.orderBy (applyDefaults firstHour) = some (.requestTime, true) := by decide
      cases hby.symm.trans ho
      rcases htwo r hr hm with rfl | rfl <;> rcases htwo r' hr' hm' with rfl | rfl <;> rfl

/-- A query for the records of a policy counts, in memory, a record that no rule of any policy matched. -/
theorem policy_filter_ignored :
    validate { policyID := "policy-1" } = .ok () ∧
      Memory.count oneRecord (applyDefaults { policyID := "policy-1" }) = 1 ∧
      SQLite.count oneRecord (applyDefaults { policyID := "policy-1" }) = 0 ∧
      ¬ Agree oneRecord (applyDefaults { policyID := "policy-1" }) := by
  have hmem : Memory.count oneRecord (applyDefaults { policyID := "policy-1" }) = 1 := by decide
  have hsql : SQLite.count oneRecord (applyDefaults { policyID := "policy-1" }) = 0 := by decide +kernel
  refine ⟨rfl, hmem, hsql, fun h => ?_⟩
  have hcount := h.count
  rw [hmem, hsql] at hcount
  exact absurd hcount (by decide)

end Jupiter.Evidence.Storage
