/-
Paging through the evidence: queries with one limit and the offsets 0, `k`, `2k`, … until a page is empty.

Each page is a query of its own. The memory backend reads its map in any order each time, so only a result of one page
is safe; the SQLite backend sorts by one column, and rows that are equal in it come in any order.
-/
import Jupiter.Evidence.Backends
import Jupiter.Lib.Pages

namespace Jupiter.Evidence.Storage

open Jupiter.Go Jupiter.Lib

inductive Backend where
  | memory
  | sqlite

namespace Backend

/-- The results a backend can give for a query. -/
def Returns : Backend → Store → Query → List EvidenceRecord → Prop
  | .memory => Memory.Returns
  | .sqlite => SQLite.Returns

def matching : Backend → Store → Query → List EvidenceRecord
  | .memory, s, q => s.records.filter (Memory.matchesQuery · q)
  | .sqlite, s, q => s.records.filter (SQLite.selected q)

end Backend

def pageQuery (q : Query) (k j : Nat) : Query := applyDefaults { q with limit := k, offset := (j * k : Nat) }

/-- However the backend orders the result of each query, the pages up to the first empty one have every matching record
exactly once. -/
def PagesPartition (b : Backend) (s : Store) (q : Query) (k : Nat) : Prop :=
  ∀ pages : Nat → List EvidenceRecord, (∀ j, b.Returns s (pageQuery q k j) (pages j)) →
    ∃ n, pages n = [] ∧ (∀ j < n, pages j ≠ []) ∧
      (((List.range n).flatMap pages).map (·.id)).Perm ((b.matching s q).map (·.id))

/-- In memory everything fits on one page; in SQLite no page ends between two records with the same sort key. -/
def TiesWithinPages : Backend → Store → Query → Nat → Prop
  | .memory, s, q, k => Memory.count s q ≤ k
  | .sqlite, s, q, k => ∀ column descending, SQLite.orderBy (applyDefaults q) = some (column, descending) →
      ∀ rows : List EvidenceRecord, rows.Perm (Backend.sqlite.matching s q) →
        Sql.Ordered (SQLite.columns · column) descending rows → ∀ j, Sql.CleanCut (SQLite.columns · column) rows (j * k)

section Pages

variable {b : Backend} {s : Store} {q : Query} {k : Nat}

theorem nodup_matching : ((b.matching s q).map (·.id)).Nodup := by
  cases b <;> exact (List.filter_sublist.map _).nodup s.distinct

/-- A backend that selects from the matching rows, whatever it makes of each of them. -/
theorem pagesPartition_iff_sql {key : EvidenceRecord → Sql.Value} {descending : Bool}
    (read : EvidenceRecord → EvidenceRecord) (hid : ∀ r, (read r).id = r.id)
    (hreturns : ∀ j out, b.Returns s (pageQuery q k j) out ↔
      ∃ page, Sql.Selects (b.matching s q) key descending k (j * k) page ∧ out = page.map read) :
    PagesPartition b s q k ↔ Sql.PagesPartition (·.id) (b.matching s q) key descending k := by
  have hids : ∀ (n : Nat) (pages : Nat → List EvidenceRecord),
      ((List.range n).flatMap fun j => (pages j).map read).map (·.id) = ((List.range n).flatMap pages).map (·.id) := by
    intro n pages
    rw [List.map_flatMap, List.map_flatMap]
    refine List.flatMap_congr fun j _ => ?_
    rw [List.map_map]
    exact List.map_congr_left fun r _ => hid r
  constructor
  · intro h pages hpages
    obtain ⟨n, hempty, hne, hperm⟩ := h (fun j => (pages j).map read) fun j => (hreturns j _).2 ⟨_, hpages j, rfl⟩
    rw [hids] at hperm
    exact ⟨n, List.map_eq_nil_iff.1 hempty, fun j hj hnil => hne j hj (by rw [hnil, List.map_nil]), hperm⟩
  · intro h pages hpages
    choose page hpage hout using fun j => (hreturns j _).1 (hpages j)
    obtain ⟨n, hempty, hne, hperm⟩ := h page hpage
    obtain rfl : pages = fun j => (page j).map read := funext hout
    rw [← hids] at hperm
    exact ⟨n, List.map_eq_nil_iff.2 hempty, fun j hj hnil => hne j hj (List.map_eq_nil_iff.1 hnil), hperm⟩

theorem limit_pageQuery (hk : 0 < k) (j : Nat) : (pageQuery q k j).limit = k := by
  show (if (k : Int) = 0 then defaultLimit else (k : Int)) = k
  rw [if_neg (by omega)]

theorem memory_returns_page (hk : 0 < k) (j : Nat) (out : List EvidenceRecord) :
    Backend.memory.Returns s (pageQuery q k j) out ↔ ∃ page,
      Sql.Selects (Backend.memory.matching s q) (fun _ => .null) false k (j * k) page ∧ out = page.map id := by
  have hl : 0 < (pageQuery q k j).limit := by
    rw [limit_pageQuery hk]
    omega
  rw [Backend.Returns, memory_returns_iff hl, limit_pageQuery hk]
  constructor
  · rintro ⟨rows, hp, rfl⟩
    exact ⟨_, ⟨rows, hp, Sql.ordered_of_same_key fun _ _ _ _ => rfl, rfl⟩, (List.map_id _).symm⟩
  · rintro ⟨_, ⟨rows, hp, -, rfl⟩, rfl⟩
    exact ⟨rows, hp, List.map_id _⟩

theorem sqlite_returns_page (hk : 0 < k) {column : Column} {descending : Bool}
    (ho : SQLite.orderBy (applyDefaults q) = some (column, descending)) (j : Nat) (out : List EvidenceRecord) :
    Backend.sqlite.Returns s (pageQuery q k j) out ↔ ∃ page,
      Sql.Selects (Backend.sqlite.matching s q) (SQLite.columns · column) descending k (j * k) page ∧
        out = page.map SQLite.scanRow := by
  have hlimit : SQLite.limit (pageQuery q k j) = k := by
    rw [SQLite.limit, limit_pageQuery hk, if_pos (by omega), Int.toNat_natCast]
  have ho' : SQLite.orderBy (pageQuery q k j) = some (column, descending) := ho
  rw [Backend.Returns, SQLite.Returns, ho', hlimit]
  constructor
  · rintro ⟨_, _, page, ⟨⟩, hpage, rfl⟩
    exact ⟨page, hpage, rfl⟩
  · rintro ⟨page, hpage, rfl⟩
    exact ⟨column, descending, page, rfl, hpage, rfl⟩

theorem cleanCut_const_iff {matching : List EvidenceRecord} (hk : 0 < k) :
    (∀ rows : List EvidenceRecord, rows.Perm matching → Sql.Ordered (fun _ => .null) false rows →
      ∀ j, Sql.CleanCut (fun _ => .null) rows (j * k)) ↔ matching.length ≤ k := by
  constructor
  · intro h
    have hcut := h matching (List.Perm.refl _) (Sql.ordered_of_same_key fun _ _ _ _ => rfl) 1
    rw [Nat.one_mul] at hcut
    by_contra hlt
    obtain ⟨a, ha⟩ : ∃ a, (matching.take k).getLast? = some a := by
      rw [← Option.ne_none_iff_exists', ne_eq, List.getLast?_eq_none_iff, List.take_eq_nil_iff,
        ← List.length_eq_zero_iff]
      omega
    obtain ⟨b, hb⟩ : ∃ b, (matching.drop k).head? = some b := by
      rw [← Option.ne_none_iff_exists', ne_eq, List.head?_eq_none_iff, List.drop_eq_nil_iff]
      omega
    exact hcut a ha b hb rfl
  · intro hle rows hp _ j a ha b hb
    cases j with
    | zero => simp at ha
    | succ j =>
      have hdrop : rows.drop ((j + 1) * k) = [] := by
        refine List.drop_eq_nil_of_le ?_
        rw [hp.length_eq, Nat.succ_mul]
        omega
      rw [hdrop] at hb
      cases hb

theorem pagesPartition_memory_iff (hk : 0 < k) : PagesPartition .memory s q k ↔ TiesWithinPages .memory s q k := by
  rw [pagesPartition_iff_sql id (fun _ => rfl) (memory_returns_page hk), Sql.pages_partition_iff nodup_matching hk,
    cleanCut_const_iff hk, TiesWithinPages, Memory.count, List.countP_eq_length_filter]
  rfl

theorem pagesPartition_sqlite_iff (hq : validate q = .ok ()) (hk : 0 < k) :
    PagesPartition .sqlite s q k ↔ TiesWithinPages .sqlite s q k := by
  obtain ⟨column, descending, ho⟩ := orderBy_applyDefaults hq
  rw [pagesPartition_iff_sql SQLite.scanRow (fun _ => rfl) (sqlite_returns_page hk ho),
    Sql.pages_partition_iff nodup_matching hk]
  constructor
  · intro h column' descending' ho'
    rw [ho] at ho'
    cases ho'
    exact h
  · intro h
    exact h column descending ho

end Pages

/-- The pages of a query have every matching record exactly once, in every order the backend can choose, exactly when
in memory they all fit on one page, and in SQLite no page ends between two records with the same sort key. -/
theorem pagesPartition_iff (b : Backend) (s : Store) (q : Query) (k : Nat) (hq : validate q = .ok ()) (hk : 0 < k) :
    PagesPartition b s q k ↔ TiesWithinPages b s q k := by
  cases b with
  | memory => exact pagesPartition_memory_iff hk
  | sqlite => exact pagesPartition_sqlite_iff hq hk

/-- Three records of different times, in pages of two. -/
theorem pagesPartition_twoPages : PagesPartition .sqlite
    ⟨[unmatchedRecord, failedRecord, { twinRecord with requestTime := ⟨Duration.minute, 0⟩ }], by decide⟩ {} 2 := by
  refine (pagesPartition_iff _ _ {} 2 rfl (by decide)).2 fun column descending ho rows hp _ j => ?_
  have hby : SQLite.orderBy (applyDefaults {}) = some (.requestTime, true) := by decide
  cases hby.symm.trans ho
  refine Sql.cleanCut_of_nodup ((hp.map _).nodup_iff.2 ?_) _
  decide +kernel

/-! ## Two records of one instant -/

def twinRecords : Store where
  records := [unmatchedRecord, twinRecord]
  distinct := by decide

/-- Of two requests at one instant, read in pages of one record, SQLite can return the first one twice. -/
theorem twin_returned_twice :
    SQLite.Returns twinRecords (pageQuery {} 1 0) [unmatchedRecord] ∧
      SQLite.Returns twinRecords (pageQuery {} 1 1) [unmatchedRecord] ∧
      ¬ PagesPartition .sqlite twinRecords {} 1 ∧ ¬ PagesPartition .memory twinRecords {} 1 := by
  have hmatching : Backend.sqlite.matching twinRecords {} = [unmatchedRecord, twinRecord] := by decide +kernel
  have ho : SQLite.orderBy (applyDefaults {}) = some (.requestTime, true) := by decide
  have hord : Sql.Ordered (SQLite.columns · .requestTime) true [unmatchedRecord, twinRecord] := by
    unfold Sql.Ordered
    decide +kernel
  refine ⟨?_, ?_, ?_, ?_⟩
  · refine (sqlite_returns_page (by decide) ho 0 _).2 ⟨[unmatchedRecord], ⟨_, ?_, hord, rfl⟩, rfl⟩
    rw [hmatching]
  · refine (sqlite_returns_page (by decide) ho 1 _).2
      ⟨[unmatchedRecord], ⟨[twinRecord, unmatchedRecord], ?_, by unfold Sql.Ordered; decide +kernel, rfl⟩, rfl⟩
    rw [hmatching]
    exact .swap _ _ _
  · rw [pagesPartition_sqlite_iff rfl (by decide)]
    intro h
    exact h .requestTime true ho [unmatchedRecord, twinRecord] (by rw [hmatching]) hord 1 unmatchedRecord rfl
      twinRecord rfl rfl
  · rw [pagesPartition_memory_iff (by decide)]
    exact (by decide : ¬ Memory.count twinRecords {} ≤ 1)

end Jupiter.Evidence.Storage
