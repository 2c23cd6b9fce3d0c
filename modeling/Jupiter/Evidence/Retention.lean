/-
The retention period on its way from the configuration file to the pruner.

Zero days are documented as keeping evidence forever, and the pruner takes them so. But zero is also how a field looks
that the file does not set, and loading replaces it by the default of ninety days.
-/
import Jupiter.Config.Load
import Jupiter.Evidence.CountPruning
import Jupiter.Lib.Sql

namespace Jupiter.Evidence

open Jupiter.Go Jupiter.Lib Jupiter.Config

/-- The pruner's configuration as `run` builds it, without a limit on the number of records. -/
def retentionConfig (cfg : RetentionConfig) : Retention where
  retentionDays := cfg.days
  archiveBeforeDelete := cfg.archiveBeforeDelete
  maxRecords := 0

theorem days_of_load {lib : Stdlib} {path : String} {file cfg : Config}
    (hload : loadConfig lib path (.parsed file) = .ok cfg) (hzero : file.evidence.retention.days = 0) :
    cfg.evidence.retention.days = 90 := by
  obtain ⟨file', hfile, -, rfl⟩ := (loadConfig_eq_ok lib).1 hload
  cases hfile
  exact if_pos hzero

theorem Backend.exists_reads (b : Backend) (matching : List EvidenceRecord) : ∃ rows, b.Reads matching rows := by
  obtain ⟨rows, hperm, hordered⟩ := Sql.exists_ordered matching (.text ·.requestTime.text) true
  refine ⟨rows, hperm, ?_⟩
  rintro rfl
  exact hordered

namespace Vault

section Age

variable {b : Backend} {loc : Time.Location} {config : Retention} {v v' : Vault} {c : Call} {n : Option Nat}

theorem archiveThenDelete_records (v : Vault) (file : String) (records : List EvidenceRecord) (w : Write)
    (cutoff : Zoned) (succeeds : Bool) :
    (v.archiveThenDelete b file records w { endTime := some cutoff } succeeds).2.records =
      if (v.archiveTo file records w).1 && succeeds then v.records.filter (!b.timeLe ·.requestTime cutoff)
      else v.records := by
  obtain ⟨hrecords, -⟩ := archiveTo_kept v file records w
  unfold archiveThenDelete
  rcases harchive : v.archiveTo file records w with ⟨_ | _, v₁⟩
  · rw [harchive] at hrecords
    exact hrecords
  · rw [harchive] at hrecords
    show (v₁.delete b _ succeeds).2.records = _
    rw [delete_records, hrecords]
    rfl

theorem pruneByAge_records (h : pruneByAge b loc config v c = some (n, v')) :
    ∃ removes : Bool, v'.records =
      if removes then v.records.filter (!b.timeLe ·.requestTime (ageCutoff loc config c.now)) else v.records := by
  unfold pruneByAge at h
  dsimp only at h
  split at h
  · split at h
    · cases h
      exact ⟨false, rfl⟩
    · split at h
      · exact ⟨_, congrArg (·.2.records) (Option.some.inj h).symm |>.trans (archiveThenDelete_records ..)⟩
      · cases h
  · exact ⟨_, congrArg (·.2.records) (Option.some.inj h).symm |>.trans (delete_records ..)⟩

theorem exists_pruneByAge (b : Backend) (loc : Time.Location) (config : Retention) (v : Vault) (now : Time) :
    ∃ c n v', c.now = now ∧ pruneByAge b loc config v c = some (n, v') ∧
      v'.records = v.records.filter (!b.timeLe ·.requestTime (ageCutoff loc config now)) := by
  obtain ⟨rows, hrows⟩ := b.exists_reads (v.records.filter
    (b.matchesQuery { endTime := some (ageCutoff loc config now) }))
  refine ⟨⟨now, now, some rows, .ok, true, now, none, .ok, true⟩, ?_⟩
  unfold pruneByAge
  dsimp only
  by_cases harchive : config.archiveBeforeDelete = true
  · rw [if_pos harchive, if_pos hrows]
    refine ⟨_, _, rfl, congrArg some Prod.mk.eta.symm, ?_⟩
    rw [archiveThenDelete_records, Bool.and_true, if_pos]
    unfold archiveTo
    split <;> rfl
  · rw [if_neg harchive]
    exact ⟨_, _, rfl, rfl, delete_records b v _ true⟩

theorem prune_of_unlimited (b : Backend) (loc : Time.Location) (v : Vault) (config : Retention)
    (hdays : 0 < config.retentionDays) (hmax : config.maxRecords = 0) (c : Call) :
    prune b loc config v c = (pruneByAge b loc config v c).map (·.2) := by
  have hlimit : ¬0 < config.maxRecords := by omega
  unfold prune agePhase
  rw [if_pos hdays]
  rcases pruneByAge b loc config v c with _ | ⟨_ | _, v₁⟩
  · rfl
  · rfl
  · exact if_neg hlimit

end Age

end Vault

/-- For every file that sets zero days and can be loaded: whatever a call of `Prune` does at some time, it deletes
nothing, exactly when everything in the store is younger than ninety days, in the backend's comparison of times. -/
theorem keepForever_iff (lib : Stdlib) (path : String) (file cfg : Config) (hzero : file.evidence.retention.days = 0)
    (hload : loadConfig lib path (.parsed file) = .ok cfg) (b : Backend) (loc : Time.Location) (v : Vault)
    (now : Time) :
    (∀ c v', c.now = now → v.prune b loc (retentionConfig cfg.evidence.retention) c = some v' →
        v'.records = v.records) ↔
      ∀ r ∈ v.records, b.timeLe r.requestTime (.ofTime loc (Time.addDays loc now (-90))) = false := by
  have hdays : (retentionConfig cfg.evidence.retention).retentionDays = 90 := days_of_load hload hzero
  have hprune := Vault.prune_of_unlimited b loc v (retentionConfig cfg.evidence.retention) (by omega) rfl
  constructor
  · intro hkept
    obtain ⟨c, n, v', hnow, hage, hrecords⟩ :=
      Vault.exists_pruneByAge b loc (retentionConfig cfg.evidence.retention) v now
    rw [Vault.ageCutoff, hdays] at hrecords
    have hall := hkept c v' hnow (by rw [hprune, hage]; rfl)
    rw [hall] at hrecords
    simpa [List.filter_eq_self] using hrecords.symm
  · intro hyoung c v' hnow hdone
    rw [hprune, Option.map_eq_some_iff] at hdone
    obtain ⟨⟨n, v₁⟩, hage, rfl⟩ := hdone
    obtain ⟨removes, hrecords⟩ := Vault.pruneByAge_records hage
    rw [hrecords, Vault.ageCutoff, hdays, hnow]
    split
    · exact List.filter_eq_self.2 fun r hr => by rw [hyoung r hr]; rfl
    · rfl

def keepForeverFile : Config := { openaiOnly with evidence := { retention := { days := 0 } } }

theorem keepForeverFile_loads :
    loadConfig plain "config.yaml" (.parsed keepForeverFile) = .ok (applyDefaults keepForeverFile) :=
  (loadConfig_eq_ok plain).2 ⟨_, rfl, by decide +kernel, rfl⟩

def oneRecord : Vault := ⟨[{ id := "e1", requestID := "r1", requestTime := ⟨0, 0⟩ }], fun _ => none, []⟩

def pruneAt (now : Time) : Call := ⟨now, now, some [], .ok, true, now, some [], .ok, true⟩

theorem keepForever_young :
    ∃ v', oneRecord.prune .memory Time.utc (retentionConfig (applyDefaults keepForeverFile).evidence.retention)
      (pruneAt (89 * 24 * Duration.hour)) = some v' ∧ v'.records = oneRecord.records :=
  ⟨_, rfl, (keepForever_iff plain "config.yaml" keepForeverFile (applyDefaults keepForeverFile) rfl
    keepForeverFile_loads .memory Time.utc oneRecord (89 * 24 * Duration.hour)).2 (by decide) (pruneAt _) _ rfl rfl⟩

/-- The file is loaded, and a record that is ninety-one days old is deleted. -/
theorem keepForever_deletes :
    keepForeverFile.evidence.retention.days = 0 ∧
      loadConfig plain "config.yaml" (.parsed keepForeverFile) = .ok (applyDefaults keepForeverFile) ∧
      (oneRecord.prune .memory Time.utc (retentionConfig (applyDefaults keepForeverFile).evidence.retention)
        (pruneAt (91 * 24 * Duration.hour))).map (·.records) = some [] := by
  refine ⟨rfl, keepForeverFile_loads, ?_⟩
  decide

end Jupiter.Evidence
