/-
What `pruneByCount` leaves in the store, and the number it returns.

The records to delete are chosen by position in a list ordered by time and deleted by comparing with the time of the
last of them, so a record of the same time goes with it even when it stands behind the cut. The list is what the backend
returns to a query without a limit, in SQLite the 100 newest. The list is ordered by instants; SQLite compares texts, so
the results are about stores in which the two orders are one (`TimesInOrder`).
-/
import Jupiter.Evidence.Archive

namespace Jupiter.Evidence.Vault

open Jupiter.Go Jupiter.Lib

/-! ## What is left -/

section Left

variable {b : Backend} {loc : Time.Location} {config : Retention} {v v' : Vault} {c : Call} {n : Nat}

/-- A prune that succeeds and deletes up to `cutoff`. -/
structure DeletedTo (b : Backend) (cutoff : Zoned) (v v' : Vault) (n : Nat) : Prop where
  records : v'.records = v.records.filter (!b.timeLe ·.requestTime cutoff)
  removed : v'.removed = v.removed ++ v.records.filter (b.timeLe ·.requestTime cutoff)
  returned : n = (v.records.filter (b.timeLe ·.requestTime cutoff)).length

theorem delete_records (b : Backend) (v : Vault) (cutoff : Zoned) (succeeds : Bool) :
    (v.delete b { endTime := some cutoff } succeeds).2.records =
      if succeeds then v.records.filter (!b.timeLe ·.requestTime cutoff) else v.records := by
  cases succeeds <;> rfl

theorem delete_deletedTo {cutoff : Zoned} {succeeds : Bool}
    (h : v.delete b { endTime := some cutoff } succeeds = (some n, v')) : DeletedTo b cutoff v v' n := by
  cases succeeds with
  | false => cases h
  | true =>
    cases h
    exact ⟨rfl, rfl, rfl⟩

theorem archiveTo_kept (v : Vault) (file : String) (records : List EvidenceRecord) (w : Write) :
    (v.archiveTo file records w).2.records = v.records ∧ (v.archiveTo file records w).2.removed = v.removed := by
  unfold archiveTo
  split
  · exact ⟨rfl, rfl⟩
  · cases w <;> exact ⟨rfl, rfl⟩

theorem pruneOldest_cases {records : List EvidenceRecord} (h : pruneOldest b loc config v records c = (some n, v')) :
    (records = [] ∧ n = 0 ∧ v' = v) ∨ ∃ last, records.getLast? = some last ∧ DeletedTo b last.requestTime v v' n := by
  unfold pruneOldest archiveThenDelete at h
  cases hlast : records.getLast? with
  | none =>
    rw [hlast] at h
    cases h
    exact .inl ⟨List.getLast?_eq_none_iff.1 hlast, rfl, rfl⟩
  | some last =>
    rw [hlast] at h
    refine .inr ⟨last, rfl, ?_⟩
    dsimp only at h
    split at h
    · have hkept := archiveTo_kept v (countFile loc c) records c.countWrite
      rcases harchive : v.archiveTo (countFile loc c) records c.countWrite with ⟨_ | _, v₁⟩
      · rw [harchive] at h
        cases h
      · rw [harchive] at h hkept
        obtain ⟨hrecords, hremoved, hn⟩ := delete_deletedTo h
        rw [hkept.1] at hrecords hremoved hn
        rw [hkept.2] at hremoved
        exact ⟨hrecords, hremoved, hn⟩
    · exact delete_deletedTo h

theorem DeletedTo.newest {last : EvidenceRecord} (h : DeletedTo b last.requestTime v v' n)
    (horder : TimesInOrder b v.records) (hlast : last ∈ v.records) :
    ∃ gone, v'.removed = v.removed ++ gone ∧
      (∀ kept ∈ v'.records, ∀ r ∈ gone, r.requestTime.instant ≤ kept.requestTime.instant) ∧ n = gone.length := by
  refine ⟨_, h.removed, ?_, h.returned⟩
  intro kept hkept r hr
  rw [h.records] at hkept
  obtain ⟨hkept, hnew⟩ := List.mem_filter.1 hkept
  obtain ⟨hr, hold⟩ := List.mem_filter.1 hr
  rw [Bool.not_eq_true', ← Bool.not_eq_true, horder kept hkept last hlast] at hnew
  rw [horder r hr last hlast] at hold
  exact Int.le_trans hold (Int.le_of_lt (Int.not_le.1 hnew))

theorem page_split {rows : List EvidenceRecord} (hreads : b.Reads v.records rows) (horder : TimesInOrder b v.records) :
    ∃ rest, rows = b.page rows ++ rest ∧
      ∀ p ∈ b.page rows, ∀ r ∈ rest, r.requestTime.instant ≤ p.requestTime.instant := by
  cases b with
  | memory => exact ⟨[], (List.append_nil _).symm, fun _ _ _ hr => by cases hr⟩
  | sqlite =>
    refine ⟨rows.drop 100, (List.take_append_drop 100 rows).symm, fun p hp r hr => ?_⟩
    have hsorted := hreads.2 rfl
    rw [← List.take_append_drop 100 rows] at hsorted
    have hp' : p ∈ v.records := hreads.1.subset (List.take_subset _ _ hp)
    have hr' : r ∈ v.records := hreads.1.subset (List.drop_subset _ _ hr)
    exact (horder r hr' p hp').1 ((List.pairwise_append.1 hsorted).2.2 p hp r hr)

theorem surplus_length {page : List EvidenceRecord} (hmax : 0 < config.maxRecords) :
    (surplus config page = [] ↔ (page.length : Int) ≤ config.maxRecords) := by
  have hlen : (sortRecordsByTime page).length = page.length := (ExchangeSort.sort_perm _ page).length_eq
  constructor
  · intro hnil
    rcases List.take_eq_nil_iff.1 hnil with hzero | hempty
    · omega
    · rw [hempty] at hlen
      rw [← hlen]
      exact Int.le_of_lt hmax
  · exact surplus_eq_nil

theorem cutoff_spec {rows : List EvidenceRecord} {last : EvidenceRecord} (hmax : 0 < config.maxRecords)
    (hreads : b.Reads v.records rows) (horder : TimesInOrder b v.records)
    (hover : config.maxRecords < (b.page rows).length)
    (hlast : (surplus config (b.page rows)).getLast? = some last) :
    (v.records.countP (last.requestTime.instant < ·.requestTime.instant) : Int) ≤ config.maxRecords ∧
      config.maxRecords < (v.records.countP (last.requestTime.instant ≤ ·.requestTime.instant) : Int) := by
  have hsort : (sortRecordsByTime (b.page rows)).Perm (b.page rows) := ExchangeSort.sort_perm _ _
  have hsorted : (sortRecordsByTime (b.page rows)).Pairwise (·.requestTime.instant ≤ ·.requestTime.instant) :=
    ExchangeSort.sort_sorted _ _
  obtain ⟨hle, hlt⟩ := ExchangeSort.countP_of_take hsorted hlast
  obtain ⟨rest, hrows, hrest⟩ := page_split hreads horder
  have hmem : last ∈ b.page rows := hsort.mem_iff.1 (List.mem_of_mem_take (List.mem_of_getLast? hlast))
  -- Nothing outside the page is newer than the last record.
  have hnone : rest.countP (last.requestTime.instant < ·.requestTime.instant) = 0 :=
    List.countP_eq_zero.2 fun r hr => by simpa using hrest last hmem r hr
  have hcount : ∀ p : EvidenceRecord → Bool, v.records.countP p =
      (sortRecordsByTime (b.page rows)).countP p + rest.countP p := fun p => by
    rw [← hreads.1.countP_eq p, hsort.countP_eq p, ← List.countP_append, ← hrows]
  have hlen := hsort.length_eq
  rw [hcount, hcount, hnone]
  omega

/-- The newest records, as many as the maximum, can be told from the others by their time. -/
def NewestApart (max : Int) (records : List EvidenceRecord) : Prop :=
  ∃ t : Time, (records.countP (t < ·.requestTime.instant) : Int) = max

theorem DeletedTo.size_iff {last : EvidenceRecord} {max : Int} (h : DeletedTo b last.requestTime v v' n)
    (horder : TimesInOrder b v.records) (hlast : last ∈ v.records)
    (hle : (v.records.countP (last.requestTime.instant < ·.requestTime.instant) : Int) ≤ max)
    (hlt : max < (v.records.countP (last.requestTime.instant ≤ ·.requestTime.instant) : Int)) :
    (v'.records.length : Int) = max ↔ NewestApart max v.records := by
  have hkept : v.records.countP (!b.timeLe ·.requestTime last.requestTime) =
      v.records.countP (last.requestTime.instant < ·.requestTime.instant) := by
    refine List.countP_congr fun r hr => ?_
    rw [Bool.not_eq_true', ← Bool.not_eq_true, horder r hr last hlast, decide_eq_true_iff]
    exact Int.not_le
  rw [h.records, ← List.countP_eq_length_filter, hkept]
  constructor
  · intro heq
    exact ⟨last.requestTime.instant, heq⟩
  · rintro ⟨t, ht⟩
    rcases Int.lt_or_le t last.requestTime.instant with hearlier | hlater
    · -- Then the last record, and all that are not older, would be among the newest.
      have hmono : v.records.countP (last.requestTime.instant ≤ ·.requestTime.instant) ≤
          v.records.countP (t < ·.requestTime.instant) :=
        List.countP_mono_left fun r _ hr => decide_eq_true (Int.lt_of_lt_of_le hearlier (of_decide_eq_true hr))
      omega
    · have hmono : v.records.countP (t < ·.requestTime.instant) ≤
          v.records.countP (last.requestTime.instant < ·.requestTime.instant) :=
        List.countP_mono_left fun r _ hr => decide_eq_true (Int.lt_of_le_of_lt hlater (of_decide_eq_true hr))
      omega

end Left

def keepAtMost (maxRecords : Int) : Retention := { retentionDays := 0, archiveBeforeDelete := false, maxRecords }

def readingAll (rows : List EvidenceRecord) : Call :=
  { now := newYear, ageNow := newYear, ageRows := none, ageWrite := .ok, ageDelete := true,
    countNow := newYear, countRows := some rows, countWrite := .ok, countDelete := true }

/-- The second record, written two hours ahead of UTC. -/
def eastern : EvidenceRecord := { second with requestTime := ⟨newYear + Duration.hour, 120⟩ }

def bothZones : Vault := ⟨[first, eastern], fun _ => none, []⟩

/-- A hundred and one records of one time. -/
def stored (n : Nat) : List EvidenceRecord :=
  (List.range n).map fun i => { id := toString i, requestID := toString i, requestTime := ⟨newYear, 0⟩ }

theorem reads_stored (n : Nat) : Backend.sqlite.Reads (stored n) (stored n) := by
  refine ⟨List.Perm.refl _, fun _ => List.pairwise_map.2 ?_⟩
  exact List.pairwise_iff_forall_sublist.2 fun _ => Backend.timeLe_refl .sqlite ⟨newYear, 0⟩

end Jupiter.Evidence.Vault
