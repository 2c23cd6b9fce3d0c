/-
`pkg/evidence/retention` over `pkg/evidence/storage`.

The pruner's queries set at most `EndTime`, so that is the filter modelled. What the environment decides is in the label
of a call (`Call`): the clock readings, the order in which the backend returns rows (any order of a Go map, any order of
rows with equal request times in SQLite), and which of its own operations fail. `removed` collects what `Prune` has
deleted and no code reads it.
-/
import Jupiter.Evidence.Record
import Jupiter.Lib.ExchangeSort
import Jupiter.Lib.Machine

namespace Jupiter.Evidence

open Jupiter.Go Jupiter.Lib

/-! ## Storage -/

inductive Backend where
  | sqlite
  | memory
  deriving DecidableEq

structure Query where
  endTime : Option Zoned := none

/-- The map compares instants; SQLite compares the texts the driver stores times as. -/
def Backend.timeLe : Backend → Zoned → Zoned → Bool
  | .sqlite, t, u => decide (t.text ≤ u.text)
  | .memory, t, u => decide (t.instant ≤ u.instant)

theorem Backend.timeLe_refl (b : Backend) (t : Zoned) : b.timeLe t t = true := by
  cases b with
  | sqlite => exact decide_eq_true (String.le_refl t.text)
  | memory => exact decide_eq_true (Int.le_refl t.instant)

def Backend.matchesQuery (b : Backend) (query : Query) (record : EvidenceRecord) : Bool :=
  query.endTime.all (b.timeLe record.requestTime ·)

/-- What `Query` returns of the matching rows in the order it reads them: SQLite adds `LIMIT 100` to a
query without a limit. -/
def Backend.page : Backend → List EvidenceRecord → List EvidenceRecord
  | .sqlite, rows => rows.take 100
  | .memory, rows => rows

/-- The orders in which a backend may read the matching rows: SQLite by request time, the newest first. -/
def Backend.Reads (b : Backend) (matching rows : List EvidenceRecord) : Prop :=
  rows.Perm matching ∧ (b = .sqlite → rows.Pairwise fun r r' => b.timeLe r'.requestTime r.requestTime)

instance (b : Backend) (matching rows : List EvidenceRecord) : Decidable (b.Reads matching rows) :=
  inferInstanceAs (Decidable (_ ∧ _))

/-- `Store`: a known ID is an error of the primary key in SQLite and an overwrite in the map. -/
def Backend.store (b : Backend) (records : List EvidenceRecord) (r : EvidenceRecord) : List EvidenceRecord :=
  match b with
  | .sqlite => if records.any (·.id == r.id) then records else records ++ [r]
  | .memory => records.filter (·.id != r.id) ++ [r]

/-! ## Pruner -/

/-- `retention.Config`, without the schedule and the path of the archive directory. -/
structure Retention where
  retentionDays : Int
  archiveBeforeDelete : Bool
  maxRecords : Int

/-- How creating and filling an archive file ends; `os.Create` has emptied the file before an export
fails. -/
inductive Write where
  | ok
  | createFails
  | exportFails
  deriving DecidableEq

/-- What the environment decides in one call of `Prune`; rows are `none` when the query fails. -/
structure Call where
  now : Time
  ageNow : Time
  ageRows : Option (List EvidenceRecord)
  ageWrite : Write
  ageDelete : Bool
  countNow : Time
  countRows : Option (List EvidenceRecord)
  countWrite : Write
  countDelete : Bool

structure Vault where
  records : List EvidenceRecord
  archives : String → Option (List EvidenceRecord)
  removed : List EvidenceRecord

def sortRecordsByTime (records : List EvidenceRecord) : List EvidenceRecord :=
  ExchangeSort.sort (·.requestTime.instant) records

/-- The source's two loops over the slice do the same; they end, and leave the same records with request times that
never decrease. -/
theorem sortRecordsByTime_sorts (records : List EvidenceRecord) :
    ExchangeSort.inPlace (·.requestTime.instant) records = sortRecordsByTime records ∧
      (sortRecordsByTime records).Perm records ∧
      (sortRecordsByTime records).Pairwise fun r r' => r.requestTime.instant ≤ r'.requestTime.instant :=
  ⟨ExchangeSort.inPlace_eq_sort _ records, ExchangeSort.sort_perm _ records, ExchangeSort.sort_sorted _ records⟩

namespace Vault

def create (v : Vault) (file : String) (records : List EvidenceRecord) : Vault :=
  { v with archives := fun f => if f = file then some records else v.archives f }

/-- The part of `archive` and `archiveRecords` after the records are known: nothing to do for none, else a
new file. The flag is false on an error. -/
def archiveTo (v : Vault) (file : String) (records : List EvidenceRecord) (w : Write) : Bool × Vault :=
  if records.isEmpty then (true, v)
  else
    match w with
    | .ok => (true, v.create file records)
    | .createFails => (false, v)
    | .exportFails => (false, v.create file [])

/-- `Delete` returns the number of records deleted, or an error, which is `none`. -/
def delete (b : Backend) (v : Vault) (query : Query) (succeeds : Bool) : Option Nat × Vault :=
  if succeeds then
    (some (v.records.filter (b.matchesQuery query)).length,
      { v with records := v.records.filter (!b.matchesQuery query ·)
               removed := v.removed ++ v.records.filter (b.matchesQuery query) })
  else (none, v)

def archiveThenDelete (b : Backend) (v : Vault) (file : String) (records : List EvidenceRecord) (w : Write)
    (query : Query) (succeeds : Bool) : Option Nat × Vault :=
  match v.archiveTo file records w with
  | (false, v) => (none, v)
  | (true, v) => v.delete b query succeeds

section Prune

variable (b : Backend) (loc : Time.Location) (config : Retention)

def ageCutoff (now : Time) : Zoned := .ofTime loc (Time.addDays loc now (-config.retentionDays))

def ageFile (c : Call) : String := "evidence-" ++ Time.formatDay loc c.ageNow ++ ".json"

def countFile (c : Call) : String := "evidence-count-" ++ Time.formatSecond loc c.countNow ++ ".json"

/-- No outcome when the backend cannot return the rows of the label. -/
def pruneByAge (v : Vault) (c : Call) : Option (Option Nat × Vault) :=
  let query : Query := { endTime := some (ageCutoff loc config c.now) }
  if config.archiveBeforeDelete then
    match c.ageRows with
    | none => some (none, v)
    | some rows =>
      if b.Reads (v.records.filter (b.matchesQuery query)) rows then
        some (v.archiveThenDelete b (ageFile loc c) (b.page rows) c.ageWrite query c.ageDelete)
      else none
  else some (v.delete b query c.ageDelete)

/-- The records `pruneByCount` selects of the rows the query returned: the oldest ones, as many as there
are over the maximum. -/
def surplus (page : List EvidenceRecord) : List EvidenceRecord :=
  let allRecords := sortRecordsByTime page
  let actualToDelete := (allRecords.length - config.maxRecords).toNat
  allRecords.take actualToDelete

/-- The tail of `pruneByCount`: the selected records are archived and everything up to the last of them is
deleted. There is no last one when there are no rows, or no more than the maximum. -/
def pruneOldest (v : Vault) (records : List EvidenceRecord) (c : Call) : Option Nat × Vault :=
  match records.getLast? with
  | none => (some 0, v)
  | some last =>
    let deleteQuery : Query := { endTime := some last.requestTime }
    if config.archiveBeforeDelete then
      v.archiveThenDelete b (countFile loc c) records c.countWrite deleteQuery c.countDelete
    else v.delete b deleteQuery c.countDelete

def pruneByCount (v : Vault) (c : Call) : Option (Option Nat × Vault) :=
  if (v.records.length : Int) ≤ config.maxRecords then some (some 0, v)
  else
    match c.countRows with
    | none => some (none, v)
    | some rows =>
      if b.Reads v.records rows then some (pruneOldest b loc config v (surplus config (b.page rows)) c)
      else none

def agePhase (v : Vault) (c : Call) : Option (Option Nat × Vault) :=
  if 0 < config.retentionDays then pruneByAge b loc config v c else some (some 0, v)

/-- `Prune`: an error of the first phase ends the call. -/
def prune (v : Vault) (c : Call) : Option Vault :=
  match agePhase b loc config v c with
  | none => none
  | some (none, v) => some v
  | some (some _, v) =>
    if 0 < config.maxRecords then (pruneByCount b loc config v c).map (·.2) else some v

/-- What happens to the store: records arrive and `Prune` is called. -/
inductive Event where
  | store (record : EvidenceRecord)
  | prune (call : Call)

def step (v : Vault) : Event → Option Vault
  | .store record => some { v with records := b.store v.records record }
  | .prune c => prune b loc config v c

end Prune

end Vault

end Jupiter.Evidence
