/-
What `Prune` deletes, and what the archives still hold.

A phase of `Prune` archives the records it read and then deletes by request time. The two can part in four ways: SQLite
returns at most 100 rows to archive and deletes them all; records with the request time of the last one over the
maximum, or with a time written in another zone and as a smaller text, are deleted but not archived; and a file of the
same name, from an earlier run of that day or second, is emptied.
-/
import Jupiter.Evidence.Pruner

namespace Jupiter.Evidence.Vault

open Jupiter.Go Jupiter.Lib

/-! ## Archives -/

def Holds (v : Vault) (r : EvidenceRecord) : Prop := ∃ f rs, v.archives f = some rs ∧ r ∈ rs

def Archived (v : Vault) : Prop := ∀ r ∈ v.removed, v.Holds r

/-- Writing `file` anew with `records` loses no record that was removed. -/
def Expendable (v : Vault) (file : String) (records : List EvidenceRecord) : Prop :=
  ∀ r ∈ v.removed, (∃ f rs, f ≠ file ∧ v.archives f = some rs ∧ r ∈ rs) ∨ r ∈ records

def SafeWrite (v : Vault) (file : String) (records : List EvidenceRecord) : Write → Prop
  | .ok => v.Expendable file records
  | .createFails => True
  | .exportFails => v.Expendable file []

variable {v v' : Vault} {file : String} {records : List EvidenceRecord} {w : Write} {query : Query}

theorem holds_create_of_mem {r : EvidenceRecord} (h : r ∈ records) : (v.create file records).Holds r :=
  ⟨file, records, by simp [create], h⟩

theorem create_archived (h : v.Expendable file records) : (v.create file records).Archived := by
  intro r hr
  rcases h r hr with ⟨f, rs, hf, hfs, hmem⟩ | hmem
  · refine ⟨f, rs, ?_, hmem⟩
    show (if f = file then some records else v.archives f) = some rs
    rw [if_neg hf]; exact hfs
  · exact holds_create_of_mem hmem

/-- Archiving touches neither the store nor the removed records, loses none of these if the write is safe,
and afterwards holds what it was given unless it failed. -/
theorem archiveTo_spec (v : Vault) (file : String) (records : List EvidenceRecord) (w : Write) :
    (v.archiveTo file records w).2.records = v.records ∧
      (v.Archived → (records ≠ [] → v.SafeWrite file records w) → (v.archiveTo file records w).2.Archived) ∧
      ((v.archiveTo file records w).1 = true → w = .ok ∨ records = []) ∧
      ((v.archiveTo file records w).1 = true → ∀ r ∈ records, (v.archiveTo file records w).2.Holds r) := by
  unfold archiveTo
  by_cases he : records = []
  · subst he
    exact ⟨rfl, fun h _ => h, fun _ => Or.inr rfl, fun _ r hr => (by cases hr)⟩
  · have hne : ¬ records.isEmpty = true := by simpa using he
    rw [if_neg hne]
    cases w with
    | ok => exact ⟨rfl, fun _ hs => create_archived (hs he), fun _ => Or.inl rfl, fun _ r hr => holds_create_of_mem hr⟩
    | createFails => exact ⟨rfl, fun h _ => h, fun h => (by cases h), fun h => (by cases h)⟩
    | exportFails => exact ⟨rfl, fun _ hs => create_archived (hs he), fun h => (by cases h), fun h => (by cases h)⟩

theorem delete_archived {b : Backend} {succeeds : Bool} (h : v.Archived)
    (hheld : succeeds = true → ∀ r ∈ v.records, b.matchesQuery query r = true → v.Holds r) :
    (v.delete b query succeeds).2.Archived := by
  unfold delete
  cases succeeds with
  | false => exact h
  | true =>
    intro r hr
    rcases List.mem_append.1 hr with hr | hr
    · exact h r hr
    · obtain ⟨hmem, hq⟩ := List.mem_filter.1 hr
      exact hheld rfl r hmem hq

theorem archiveThenDelete_archived {b : Backend} {succeeds : Bool} (h : v.Archived)
    (hs : records ≠ [] → v.SafeWrite file records w)
    (hc : w = .ok ∨ records = [] → succeeds = true → ∀ r ∈ v.records, b.matchesQuery query r = true → r ∈ records) :
    (v.archiveThenDelete b file records w query succeeds).2.Archived := by
  obtain ⟨hrec, harch, hw, hheld⟩ := archiveTo_spec v file records w
  have h' := harch h hs
  unfold archiveThenDelete
  cases hto : v.archiveTo file records w with
  | mk flag v₁ =>
    rw [hto] at hrec hw hheld h'
    cases flag with
    | false => exact h'
    | true =>
      refine delete_archived h' ?_
      intro hdel r hr hq
      rw [hrec] at hr
      exact hheld rfl r (hc (hw rfl) hdel r hr hq)

/-! ## Pruning by age -/

/-- The backend returns all the rows it reads. -/
def Fits (b : Backend) (rows : List EvidenceRecord) : Prop := b = .sqlite → rows.length ≤ 100

theorem page_of_fits {b : Backend} {rows : List EvidenceRecord} (h : Fits b rows) : b.page rows = rows := by
  cases b with
  | sqlite => exact List.take_of_length_le (h rfl)
  | memory => rfl

theorem page_subset {b : Backend} {rows : List EvidenceRecord} : b.page rows ⊆ rows := by
  cases b with
  | sqlite => exact List.take_subset _ _
  | memory => exact List.Subset.refl _

theorem page_eq_nil {b : Backend} {rows : List EvidenceRecord} (h : b.page rows = []) : rows = [] := by
  cases b with
  | sqlite => simpa [Backend.page] using h
  | memory => exact h

section Phases

variable (b : Backend) (loc : Time.Location) (config : Retention)

/-- The age phase archives all it deletes and overwrites nothing that is needed. -/
def SafeAge (v : Vault) (c : Call) : Prop :=
  ∀ rows, c.ageRows = some rows → b.page rows ≠ [] →
    v.SafeWrite (ageFile loc c) (b.page rows) c.ageWrite ∧
      (c.ageWrite = .ok → c.ageDelete = true → Fits b rows)

variable {b loc config}

theorem pruneByAge_archived {c : Call} {n : Option Nat} (ha : config.archiveBeforeDelete = true) (h : v.Archived)
    (hs : SafeAge b loc v c) (hp : pruneByAge b loc config v c = some (n, v')) : v'.Archived := by
  unfold pruneByAge at hp
  simp only [ha, if_true] at hp
  cases hrows : c.ageRows with
  | none => rw [hrows] at hp; cases hp; exact h
  | some rows =>
    simp only [hrows] at hp
    split at hp
    · rename_i hreads
      obtain rfl := congrArg Prod.snd (Option.some.inj hp)
      refine archiveThenDelete_archived h (fun hne => (hs rows hrows hne).1) ?_
      intro hw hdel r hr hq
      -- what is deleted was read, and what was read fits into the page
      have hmem : r ∈ rows := hreads.1.mem_iff.2 (List.mem_filter.2 ⟨hr, hq⟩)
      by_cases hne : b.page rows = []
      · rw [page_eq_nil hne] at hmem; cases hmem
      · rw [page_of_fits ((hs rows hrows hne).2 (hw.resolve_right hne) hdel)]; exact hmem
    · cases hp

/-! ## Pruning by count -/

variable (b loc config)

/-- The backend compares the request times of the records as instants. SQLite does so as long as their texts stand in
the order of the instants. -/
def TimesInOrder (b : Backend) (records : List EvidenceRecord) : Prop :=
  ∀ r ∈ records, ∀ r' ∈ records,
    (b.timeLe r.requestTime r'.requestTime = true ↔ r.requestTime.instant ≤ r'.requestTime.instant)

/-- The count phase finds nothing over the maximum, or archives all it deletes and overwrites nothing that
is needed. It archives all it deletes when every record is read, times are in order and some instant separates exactly
the surplus from the rest. -/
def SafeCount (v : Vault) (c : Call) : Prop :=
  ∀ rows, c.countRows = some rows → config.maxRecords < (b.page rows).length →
    v.SafeWrite (countFile loc c) (surplus config (b.page rows)) c.countWrite ∧
      (c.countWrite = .ok → c.countDelete = true →
        Fits b rows ∧ TimesInOrder b v.records ∧
          ∃ t, (v.records.countP (·.requestTime.instant ≤ t) : Int) = v.records.length - config.maxRecords)

variable {b loc config}

theorem surplus_eq_nil {page : List EvidenceRecord} (h : (page.length : Int) ≤ config.maxRecords) :
    surplus config page = [] := by
  have hlen : (sortRecordsByTime page).length = page.length := (ExchangeSort.sort_perm _ page).length_eq
  show (sortRecordsByTime page).take ((sortRecordsByTime page).length - config.maxRecords).toNat = []
  rw [hlen, Int.toNat_of_nonpos (by omega), List.take_zero]

theorem surplus_subset {page : List EvidenceRecord} : surplus config page ⊆ page := fun _ hr =>
  (ExchangeSort.sort_perm _ page).subset (List.mem_of_mem_take hr)

theorem mem_surplus {page : List EvidenceRecord} {t : Time}
    (ht : (page.countP (·.requestTime.instant ≤ t) : Int) = page.length - config.maxRecords) {last r : EvidenceRecord}
    (hlast : last ∈ surplus config page) (hr : r ∈ page) (hle : r.requestTime.instant ≤ last.requestTime.instant) :
    r ∈ surplus config page := by
  have hperm : (sortRecordsByTime page).Perm page := ExchangeSort.sort_perm _ page
  have hcount : (sortRecordsByTime page).countP (·.requestTime.instant ≤ t) =
      ((sortRecordsByTime page).length - config.maxRecords).toNat := by
    rw [hperm.countP_eq, hperm.length_eq]; omega
  exact ExchangeSort.mem_take_of_le (ExchangeSort.sort_sorted _ page) hcount hlast (hperm.mem_iff.2 hr) hle

theorem pruneByCount_archived {c : Call} {n : Option Nat} (ha : config.archiveBeforeDelete = true) (h : v.Archived)
    (hs : SafeCount b loc config v c) (hp : pruneByCount b loc config v c = some (n, v')) : v'.Archived := by
  unfold pruneByCount at hp
  split at hp
  · cases hp; exact h
  · cases hrows : c.countRows with
    | none => rw [hrows] at hp; cases hp; exact h
    | some rows =>
      simp only [hrows] at hp
      split at hp
      · rename_i hreads
        obtain rfl := congrArg Prod.snd (Option.some.inj hp)
        unfold pruneOldest
        split
        · exact h
        · rename_i last hlast
          have hmem : last ∈ surplus config (b.page rows) := List.mem_of_getLast? hlast
          have hover : config.maxRecords < (b.page rows).length := by
            by_contra hle
            rw [surplus_eq_nil (not_lt.1 hle)] at hmem; cases hmem
          obtain ⟨hsafe, hcover⟩ := hs rows hrows hover
          rw [if_pos ha]
          refine archiveThenDelete_archived h (fun _ => hsafe) ?_
          intro hw hdel r hr hq
          have hok : c.countWrite = .ok := hw.resolve_right (List.ne_nil_of_mem hmem)
          obtain ⟨hfits, horder, t, ht⟩ := hcover hok hdel
          rw [page_of_fits hfits] at hmem ⊢
          have hstored : last ∈ v.records := hreads.1.mem_iff.1 (surplus_subset hmem)
          refine mem_surplus (t := t) ?_ hmem (hreads.1.mem_iff.2 hr) ((horder r hr last hstored).1 hq)
          rw [hreads.1.countP_eq, hreads.1.length_eq]; exact ht
      · cases hp

/-! ## Runs -/

variable (b loc config)

/-- Both phases of a call are safe, the second in the store that the first leaves. -/
def SafePrune (v : Vault) (c : Call) : Prop :=
  (0 < config.retentionDays → SafeAge b loc v c) ∧
    ∀ n v', agePhase b loc config v c = some (some n, v') → 0 < config.maxRecords → SafeCount b loc config v' c

def SafeStep (v : Vault) : Event → Prop
  | .store _ => True
  | .prune c => SafePrune b loc config v c

variable {b loc config}

theorem prune_archived {c : Call} (ha : config.archiveBeforeDelete = true) (h : v.Archived)
    (hs : SafePrune b loc config v c) (hp : prune b loc config v c = some v') : v'.Archived := by
  have hphase : ∀ n v₁, agePhase b loc config v c = some (n, v₁) → v₁.Archived := by
    intro n v₁ h₁
    unfold agePhase at h₁
    split at h₁
    · rename_i hdays; exact pruneByAge_archived ha h (hs.1 hdays) h₁
    · cases h₁; exact h
  unfold prune at hp
  cases h₁ : agePhase b loc config v c with
  | none => rw [h₁] at hp; cases hp
  | some r =>
    obtain ⟨n, v₁⟩ := r
    have hv₁ := hphase n v₁ h₁
    rw [h₁] at hp
    cases n with
    | none => cases hp; exact hv₁
    | some n =>
      simp only [] at hp
      split at hp
      · rename_i hmax
        obtain ⟨⟨n', v₂⟩, h₂, rfl⟩ := Option.map_eq_some_iff.1 hp
        exact pruneByCount_archived ha hv₁ (hs.2 n v₁ h₁ hmax) h₂
      · cases hp; exact hv₁

theorem step_archived (ha : config.archiveBeforeDelete = true) (e : Event) (h : v.Archived)
    (hs : SafeStep b loc config v e) (hp : step b loc config v e = some v') : v'.Archived := by
  cases e with
  | store r => cases hp; exact h
  | prune c => exact prune_archived ha h hs hp

/-- Along every run whose prunes are all safe, every record that was removed is in an archive file. -/
theorem removed_records_archived (b : Backend) (loc : Time.Location) (config : Retention)
    (ha : config.archiveBeforeDelete = true) (records : List EvidenceRecord)
    (archives : String → Option (List EvidenceRecord)) (es : List Event) (v : Vault)
    (hs : Meets (step b loc config) (SafeStep b loc config) ⟨records, archives, []⟩ es)
    (hr : run (step b loc config) ⟨records, archives, []⟩ es = some v) :
    ∀ r ∈ v.removed, ∃ f rs, v.archives f = some rs ∧ r ∈ rs := by
  have hinit : Archived ⟨records, archives, []⟩ := fun r hr => (by cases hr)
  exact run_invariant_of_meets (fun v e v' h hs hp => step_archived ha e h hs hp) es _ v hinit hs hr

end Phases

/-! ## Two prunes on one day -/

def newYear : Time := (Time.unixToInternal + 1704067200) * Duration.second

def first : EvidenceRecord := { id := "1", requestID := "r1", requestTime := ⟨newYear, 0⟩ }

def second : EvidenceRecord := { id := "2", requestID := "r2", requestTime := ⟨newYear + Duration.hour, 0⟩ }

def oneDay : Retention := { retentionDays := 1, archiveBeforeDelete := true, maxRecords := 0 }

def pruneAt (now : Time) (rows : List EvidenceRecord) : Event :=
  .prune { now, ageNow := now, ageRows := some rows, ageWrite := .ok, ageDelete := true,
           countNow := now, countRows := none, countWrite := .ok, countDelete := true }

/-- A prune by age in SQLite that reads `rows` and in which nothing fails. -/
def pruning (v : Vault) (now : Time) (rows : List EvidenceRecord) : Option Nat × Vault :=
  v.archiveThenDelete .sqlite ("evidence-" ++ Time.formatDay Time.utc now ++ ".json") (rows.take 100) .ok
    { endTime := some (ageCutoff Time.utc oneDay now) } true

theorem step_pruneAt {v : Vault} {now : Time} {rows : List EvidenceRecord}
    (h : Backend.sqlite.Reads (v.records.filter (Backend.sqlite.matchesQuery
      { endTime := some (ageCutoff Time.utc oneDay now) })) rows) :
    step .sqlite Time.utc oneDay v (pruneAt now rows) = some (v.pruning now rows).2 := by
  have hage : agePhase .sqlite Time.utc oneDay v ⟨now, now, some rows, .ok, true, now, none, .ok, true⟩ =
      some (v.pruning now rows) := if_pos h
  unfold step pruneAt prune
  dsimp only
  rw [hage]
  rcases v.pruning now rows with ⟨_ | n, v'⟩ <;> rfl

def early : Time := newYear + 24 * Duration.hour + 30 * Duration.minute

def late : Time := newYear + 26 * Duration.hour

def unpruned : Vault := ⟨[first, second], fun _ => none, []⟩

/-- The second prune of the day writes over the archive of the first. -/
theorem second_prune_overwrites_archive :
    ∃ v, run (step .sqlite Time.utc oneDay) unpruned [pruneAt early [first], pruneAt late [second]] = some v ∧
      first ∈ v.removed ∧ ¬ ∃ f rs, v.archives f = some rs ∧ first ∈ rs := by
  have hfirst : step .sqlite Time.utc oneDay unpruned (pruneAt early [first]) = _ :=
    step_pruneAt (by decide +kernel)
  have hsecond : step .sqlite Time.utc oneDay (unpruned.pruning early [first]).2 (pruneAt late [second]) = _ :=
    step_pruneAt (by decide +kernel)
  refine ⟨((unpruned.pruning early [first]).2.pruning late [second]).2, ?_, by decide +kernel, ?_⟩
  · rw [run_cons, hfirst, Option.bind_some, run_cons, hsecond, Option.bind_some, run_nil]
  · rintro ⟨f, rs, hf, hmem⟩
    have hfile : ∀ now ∈ [early, late], Time.formatDay Time.utc now = "2024-01-02" := by decide +kernel
    simp only [pruning, archiveThenDelete, archiveTo, delete, create, unpruned, hfile early (by simp),
      hfile late (by simp), List.take_succ_cons, List.take_nil, List.isEmpty_cons, Bool.false_eq_true, if_false,
      if_true] at hf
    split at hf
    · cases hf
      revert hmem
      decide +kernel
    · cases hf

theorem removed_records_archived_one_prune :
    ∃ v, run (step .sqlite Time.utc oneDay) unpruned [pruneAt late [second, first]] = some v ∧
      v.removed = [first, second] ∧ ∀ r ∈ v.removed, ∃ f rs, v.archives f = some rs ∧ r ∈ rs := by
  have hstep : step .sqlite Time.utc oneDay unpruned (pruneAt late [second, first]) = _ :=
    step_pruneAt (by decide +kernel)
  have hrun : run (step .sqlite Time.utc oneDay) unpruned [pruneAt late [second, first]] =
      some (unpruned.pruning late [second, first]).2 := by
    rw [run_cons, hstep, Option.bind_some, run_nil]
  refine ⟨_, hrun, by decide +kernel, ?_⟩
  refine removed_records_archived .sqlite Time.utc oneDay rfl [first, second] (fun _ => none) _ _ ?_ hrun
  refine ⟨⟨?_, ?_⟩, fun _ _ => trivial⟩
  · intro _ rows hrows _
    cases hrows
    exact ⟨fun r hr => (by cases hr), fun _ _ _ => by decide⟩
  · intro _ _ _ hmax
    exact absurd hmax (by decide)

end Jupiter.Evidence.Vault
