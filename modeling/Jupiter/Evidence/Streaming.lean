/-
`MemoryStorage.QueryStream` against `MemoryStorage.Query`.

`Query` filters and then slices, `QueryStream` skips and stops by a running counter; both read the map in an order the
runtime chooses. Offsets and limits are 64-bit integers here, so the end of a page can wrap around: `Query` then
panics on its slice, which is `none` below.
-/
import Jupiter.Evidence.Backends
import Jupiter.Go.Int64

namespace Jupiter.Evidence.Storage.Memory

open Jupiter.Go Jupiter.Lib

/-- `xs[lo:hi]`; out of range it panics. -/
def slice {α : Type} (xs : List α) (lo hi : Int) : Option (List α) :=
  if 0 ≤ lo ∧ lo ≤ hi ∧ hi ≤ xs.length then some ((xs.drop lo.toNat).take (hi - lo).toNat) else none

def query64 (read : List EvidenceRecord) (query : Query) : Option (List EvidenceRecord) :=
  let results := read.filter (matchesQuery · query)
  if query.offset > results.length then some []
  else if query.limit > 0 then
    slice results query.offset (min (wrap64 (query.offset + query.limit)) results.length)
  else some results

def streamLoop (query : Query) : Int → List EvidenceRecord → List EvidenceRecord
  | _, [] => []
  | count, record :: rest =>
    if !matchesQuery record query then streamLoop query count rest
    else if count < query.offset then streamLoop query (count + 1) rest
    else if query.limit > 0 ∧ count ≥ wrap64 (query.offset + query.limit) then []
    else record :: streamLoop query (count + 1) rest

def queryStream (read : List EvidenceRecord) (query : Query) : List EvidenceRecord := streamLoop query 0 read

/-! ## What the loop sends -/

/-- After `count` matching records the loop skips up to the offset and, with a limit, stops at the end of the page. -/
theorem streamLoop_eq (query : Query) (count : Int) (read : List EvidenceRecord) :
    streamLoop query count read =
      let rest := (read.filter (matchesQuery · query)).drop (query.offset - count).toNat
      if query.limit > 0 then rest.take (wrap64 (query.offset + query.limit) - max count query.offset).toNat else rest := by
  induction read generalizing count with
  | nil => simp [streamLoop]
  | cons record rest ih =>
    rw [streamLoop]
    cases hm : matchesQuery record query with
    | false => simp [hm, ih]
    | true =>
      rw [List.filter_cons_of_pos (p := (matchesQuery · query)) hm, if_neg (by simp)]
      split
      · next hlt =>
        -- one more is skipped
        have hskip : (query.offset - count).toNat = (query.offset - (count + 1)).toNat + 1 := by omega
        rw [ih, hskip, List.drop_succ_cons, Int.max_eq_right (by omega), Int.max_eq_right (by omega)]
      · next hge =>
        have hskip : (query.offset - count).toNat = 0 := by omega
        have hskip' : (query.offset - (count + 1)).toNat = 0 := by omega
        rw [ih, hskip, hskip', List.drop_zero, List.drop_zero, Int.max_eq_left (by omega), Int.max_eq_left (by omega)]
        by_cases hlimit : query.limit > 0
        · simp only [hlimit, true_and, if_true]
          split
          · next hstop =>
            have hzero : (wrap64 (query.offset + query.limit) - count).toNat = 0 := by omega
            rw [hzero, List.take_zero]
          · next hgo =>
            have hleft : (wrap64 (query.offset + query.limit) - count).toNat =
                (wrap64 (query.offset + query.limit) - (count + 1)).toNat + 1 := by omega
            rw [hleft, List.take_succ_cons]
        · simp only [hlimit, false_and, if_false]

/-! ## Streams and batches -/

/-- Offset and limit are values of `int` and not negative. -/
structure InRange (query : Query) : Prop where
  limit_nonneg : 0 ≤ query.limit
  limit_lt : query.limit < 2 ^ 63
  offset_nonneg : 0 ≤ query.offset
  offset_lt : query.offset < 2 ^ 63

theorem wrap64_of_lt {query : Query} (hr : InRange query) (h : query.offset + query.limit < 2 ^ 63) :
    wrap64 (query.offset + query.limit) = query.offset + query.limit := by
  have h1 := hr.limit_nonneg
  have h2 := hr.offset_nonneg
  exact wrap64_of_range (by omega) h

theorem wrap64_of_ge {query : Query} (hr : InRange query) (h : ¬ query.offset + query.limit < 2 ^ 63) :
    wrap64 (query.offset + query.limit) < 0 := by
  have h1 := hr.limit_lt
  have h2 := hr.offset_lt
  unfold wrap64
  omega

/-- The stream sends what the batch query returns exactly when the offset is past the matching records, or there is
neither a limit nor an offset, or there is a limit and the page ends within the integers. -/
theorem queryStream_agrees_iff (s : Store) (read : List EvidenceRecord) (hread : read.Perm s.records) (query : Query)
    (hr : InRange query) :
    query64 read query = some (queryStream read query) ↔
      (count s query < query.offset ∨ query.limit = 0 ∧ query.offset = 0 ∨
        0 < query.limit ∧ query.offset + query.limit < 2 ^ 63) := by
  have h1 := hr.limit_nonneg
  have h2 := hr.offset_nonneg
  have hcount : (count s query : Int) = (read.filter (matchesQuery · query)).length := by
    unfold count
    rw [← hread.countP_eq, List.countP_eq_length_filter]
  rw [hcount]
  by_cases hlimit : query.limit > 0
  · rw [queryStream, streamLoop_eq, if_pos hlimit, Int.sub_zero, Int.max_eq_right h2]
    unfold query64
    generalize read.filter (matchesQuery · query) = results
    by_cases hpast : query.offset > results.length
    · rw [if_pos hpast, List.drop_eq_nil_of_le (by omega), List.take_nil]
      exact iff_of_true rfl (.inl (by omega))
    · rw [if_neg hpast, if_pos hlimit]
      by_cases hfits : query.offset + query.limit < 2 ^ 63
      · refine iff_of_true ?_ (.inr (.inr ⟨by omega, hfits⟩))
        rw [wrap64_of_lt hr hfits, slice, if_pos (by omega)]
        congr 1
        -- both take the page, or all that is left of the results
        rw [List.take_eq_take_iff, List.length_drop]
        omega
      · have hneg := wrap64_of_ge hr hfits
        refine iff_of_false ?_ (by omega)
        rw [slice, if_neg (by omega)]
        simp
  · rw [queryStream, streamLoop_eq, if_neg hlimit, Int.sub_zero]
    unfold query64
    generalize read.filter (matchesQuery · query) = results
    by_cases hpast : query.offset > results.length
    · rw [if_pos hpast, List.drop_eq_nil_of_le (by omega)]
      exact iff_of_true rfl (.inl (by omega))
    · rw [if_neg hpast, if_neg hlimit, Option.some_inj]
      constructor
      · intro heq
        have hlen := congrArg List.length heq
        rw [List.length_drop] at hlen
        omega
      · intro h
        have hzero : query.offset.toNat = 0 := by omega
        rw [hzero, List.drop_zero]

theorem queryStream_agrees_oneRecord :
    query64 oneRecord.records { limit := 1 } = some (queryStream oneRecord.records { limit := 1 }) :=
  (queryStream_agrees_iff oneRecord oneRecord.records (List.Perm.refl _) { limit := 1 }
    ⟨by decide, by decide, by decide, by decide⟩).2 (.inr (.inr ⟨by decide, by decide⟩))

/-- Without a limit the stream skips what the batch query returns. -/
theorem queryStream_skips_without_limit :
    query64 oneRecord.records { offset := 1 } = some [unmatchedRecord] ∧
      queryStream oneRecord.records { offset := 1 } = [] := by
  constructor <;> decide

end Jupiter.Evidence.Storage.Memory
