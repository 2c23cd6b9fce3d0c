/-
Writing through a buffer to a sink that may fail at any byte.

A buffered writer keeps what it has not passed on yet; when it passes how much on is a parameter (`Buffering`). The sink
takes the first `room` bytes and fails on the next one.

Whatever the buffering, the sink ends up with the first `room` bytes of what was handed over (`Tracks.accepted_flush`).
-/
import Mathlib.Data.List.Basic

namespace Jupiter.Lib

/-- How much of its buffer and the new bytes a writer passes on at a write. -/
structure Buffering (β : Type) where
  passed : List β → List β → Nat
  passed_le : ∀ pending bytes, passed pending bytes ≤ pending.length + bytes.length

namespace Buffering

variable {β : Type}

def ofSize (size : Nat) : Buffering β where
  passed pending bytes := (pending.length + bytes.length - 1) / size * size
  passed_le _ _ := Nat.le_trans (Nat.div_mul_le_self _ _) (Nat.sub_le _ _)

end Buffering

structure BufferedWriter (β : Type) where
  pending : List β := []
  accepted : List β := []
  failed : Bool := false

def HasRoom (room : Option Nat) (n : Nat) : Prop := ∀ r ∈ room, n ≤ r

instance (room : Option Nat) (n : Nat) : Decidable (HasRoom room n) := inferInstanceAs (Decidable (∀ r ∈ room, n ≤ r))

theorem HasRoom.mono {room : Option Nat} {m n : Nat} (h : HasRoom room n) (hmn : m ≤ n) : HasRoom room m :=
  fun r hr => Nat.le_trans hmn (h r hr)

namespace BufferedWriter

variable {β : Type}

section Operations

variable (room : Option Nat)

def push (w : BufferedWriter β) (bytes : List β) : BufferedWriter β :=
  if w.failed then w
  else if HasRoom room (w.accepted.length + bytes.length) then { w with accepted := w.accepted ++ bytes }
  else { w with accepted := (w.accepted ++ bytes).take (room.getD 0), failed := true }

def write (buffering : Buffering β) (w : BufferedWriter β) (bytes : List β) : BufferedWriter β :=
  let n := buffering.passed w.pending bytes
  { w.push room ((w.pending ++ bytes).take n) with pending := (w.pending ++ bytes).drop n }

def flush (w : BufferedWriter β) : BufferedWriter β := { w.push room w.pending with pending := [] }

def writeAll (buffering : Buffering β) (w : BufferedWriter β) (chunks : List (List β)) : BufferedWriter β :=
  chunks.foldl (write room buffering) w

end Operations

variable {room : Option Nat} {buffering : Buffering β} {w : BufferedWriter β} {handed bytes : List β}

theorem push_cases (room : Option Nat) (w : BufferedWriter β) (bytes : List β) :
    (w.failed = true ∧ w.push room bytes = w) ∨
      (w.failed = false ∧ HasRoom room (w.accepted.length + bytes.length) ∧
        w.push room bytes = { w with accepted := w.accepted ++ bytes }) ∨
      (w.failed = false ∧ ∃ r, room = some r ∧ r < w.accepted.length + bytes.length ∧
        w.push room bytes = { w with accepted := (w.accepted ++ bytes).take r, failed := true }) := by
  unfold push
  cases hf : w.failed with
  | true => exact .inl ⟨rfl, if_pos rfl⟩
  | false =>
    rw [if_neg Bool.false_ne_true]
    by_cases hroom : HasRoom room (w.accepted.length + bytes.length)
    · exact .inr (.inl ⟨rfl, hroom, if_pos hroom⟩)
    · refine .inr (.inr ⟨rfl, ?_⟩)
      rw [if_neg hroom]
      cases room with
      | none =>
        refine absurd ?_ hroom
        intro r hr
        cases hr
      | some r =>
        refine ⟨r, rfl, ?_, rfl⟩
        by_contra hle
        refine hroom ?_
        intro r' hr'
        cases hr'
        omega

/-! ## What the sink has -/

/-- The writer has been handed `handed`: all of it is with the sink or in the buffer, or the sink has failed and has
what it had room for. -/
structure Tracks (room : Option Nat) (w : BufferedWriter β) (handed : List β) : Prop where
  live : w.failed = false → w.accepted ++ w.pending = handed ∧ HasRoom room w.accepted.length
  dead : w.failed = true → ∃ r, room = some r ∧ r < handed.length ∧ w.accepted = handed.take r

theorem tracks_empty : Tracks room ({} : BufferedWriter β) [] :=
  ⟨fun _ => ⟨rfl, fun _ _ => Nat.zero_le _⟩, fun h => absurd h Bool.false_ne_true⟩

theorem Tracks.push {more out rest : List β} (h : Tracks room w handed) (hsplit : w.pending ++ more = out ++ rest) :
    Tracks room { w.push room out with pending := rest } (handed ++ more) := by
  rcases push_cases room w out with ⟨hf, heq⟩ | ⟨hf, hroom, heq⟩ | ⟨hf, r, hr, hlt, heq⟩
  · rw [heq]
    refine ⟨fun hf' => absurd (hf.symm.trans hf') (by decide), fun _ => ?_⟩
    obtain ⟨r, hr, hlt, hacc⟩ := h.dead hf
    refine ⟨r, hr, by rw [List.length_append]; omega, ?_⟩
    rw [List.take_append_of_le_length (Nat.le_of_lt hlt)]
    exact hacc
  · rw [heq]
    refine ⟨fun _ => ⟨?_, by rw [List.length_append]; exact hroom⟩, fun hf' => absurd (hf.symm.trans hf') (by decide)⟩
    rw [List.append_assoc, ← hsplit, ← List.append_assoc, (h.live hf).1]
  · rw [heq]
    have hall : handed ++ more = w.accepted ++ out ++ rest := by
      rw [← (h.live hf).1, List.append_assoc, hsplit, List.append_assoc]
    refine ⟨fun hf' => absurd hf'.symm Bool.false_ne_true, fun _ => ⟨r, hr, ?_, ?_⟩⟩
    · rw [hall, List.length_append, List.length_append]
      omega
    · have hle : r ≤ (w.accepted ++ out).length := by
        rw [List.length_append]
        omega
      rw [hall, List.take_append_of_le_length hle]

theorem Tracks.write (h : Tracks room w handed) (bytes : List β) :
    Tracks room (w.write room buffering bytes) (handed ++ bytes) :=
  h.push (List.take_append_drop _ _).symm

theorem Tracks.writeAll (h : Tracks room w handed) (chunks : List (List β)) :
    Tracks room (w.writeAll room buffering chunks) (handed ++ chunks.flatten) := by
  induction chunks generalizing w handed with
  | nil =>
    rw [List.flatten_nil, List.append_nil]
    exact h
  | cons chunk chunks ih =>
    rw [List.flatten_cons, ← List.append_assoc]
    exact ih (h.write chunk)

theorem Tracks.flush (h : Tracks room w handed) : Tracks room (w.flush room) handed := by
  have hflush : Tracks room (w.flush room) (handed ++ []) := h.push rfl
  rw [List.append_nil] at hflush
  exact hflush

def allowed (room : Option Nat) (bytes : List β) : List β := room.elim bytes bytes.take

theorem flush_of_failed (hf : w.failed = true) :
    (w.flush room).accepted = w.accepted ∧ (w.flush room).failed = true := by
  rcases push_cases room w w.pending with ⟨-, heq⟩ | ⟨hf', -⟩ | ⟨hf', -⟩
  · rw [BufferedWriter.flush, heq]
    exact ⟨rfl, hf⟩
  · exact absurd (hf.symm.trans hf') (by decide)
  · exact absurd (hf.symm.trans hf') (by decide)

theorem Tracks.accepted_of_failed (h : Tracks room w handed) (hf : w.failed = true) (more : List β) :
    (w.flush room).accepted = allowed room (handed ++ more) ∧ ¬ HasRoom room (handed ++ more).length := by
  rw [(flush_of_failed hf).1]
  obtain ⟨r, rfl, hlt, hacc⟩ := h.dead hf
  refine ⟨?_, ?_⟩
  · rw [hacc, allowed, Option.elim_some, List.take_append_of_le_length (Nat.le_of_lt hlt)]
  · intro hroom
    have := hroom r rfl
    rw [List.length_append] at this
    omega

/-- After a flush the sink has all it has room for, and the writer has failed exactly when that is not everything. -/
theorem Tracks.accepted_flush (h : Tracks room w handed) :
    (w.flush room).accepted = allowed room handed ∧ ((w.flush room).failed = true ↔ ¬ HasRoom room handed.length) := by
  have hflush : Tracks room (w.flush room) handed := h.flush
  cases hf : (w.flush room).failed with
  | true =>
    obtain ⟨hacc, hroom⟩ := hflush.accepted_of_failed hf []
    rw [List.append_nil] at hacc hroom
    rw [(flush_of_failed hf).1] at hacc
    exact ⟨hacc, iff_of_true rfl hroom⟩
  | false =>
    obtain ⟨heq, hroom⟩ := hflush.live hf
    have hpending : (w.flush room).pending = [] := rfl
    rw [hpending, List.append_nil] at heq
    rw [heq] at hroom
    refine ⟨?_, iff_of_false Bool.false_ne_true (not_not.2 hroom)⟩
    rw [heq]
    cases room with
    | none => rfl
    | some r => exact (List.take_of_length_le (hroom r rfl)).symm

theorem allowed_eq_self_iff (bytes : List β) : allowed room bytes = bytes ↔ HasRoom room bytes.length := by
  cases room with
  | none =>
    refine iff_of_true rfl ?_
    intro r hr
    cases hr
  | some r =>
    rw [allowed, Option.elim_some]
    constructor
    · intro h r' hr'
      cases hr'
      rw [← h]
      exact List.length_take_le _ _
    · intro h
      exact List.take_of_length_le (h r rfl)

/-! ## When a failure shows -/

theorem failed_writeAll_of_failed (hf : w.failed = true) (chunks : List (List β)) :
    (w.writeAll room buffering chunks).failed = true := by
  induction chunks generalizing w with
  | nil => exact hf
  | cons chunk chunks ih =>
    refine ih ?_
    rcases push_cases room w ((w.pending ++ chunk).take (buffering.passed w.pending chunk)) with
      ⟨-, heq⟩ | ⟨hf', -⟩ | ⟨hf', -⟩
    · rw [BufferedWriter.write, heq]
      exact hf
    · exact absurd (hf.symm.trans hf') (by decide)
    · exact absurd (hf.symm.trans hf') (by decide)

theorem write_none (hf : w.failed = false) (bytes : List β) :
    w.write none buffering bytes =
      { pending := (w.pending ++ bytes).drop (buffering.passed w.pending bytes)
        accepted := w.accepted ++ (w.pending ++ bytes).take (buffering.passed w.pending bytes)
        failed := false } := by
  rcases push_cases none w ((w.pending ++ bytes).take (buffering.passed w.pending bytes)) with
    ⟨hf', -⟩ | ⟨-, -, heq⟩ | ⟨-, r, hr, -⟩
  · exact absurd (hf'.symm.trans hf) (by decide)
  · rw [BufferedWriter.write, heq, hf]
  · cases hr

theorem write_cases (room : Option Nat) (buffering : Buffering β) (hf : w.failed = false) (bytes : List β) :
    (HasRoom room (w.write none buffering bytes).accepted.length ∧
        w.write room buffering bytes = w.write none buffering bytes) ∨
      (¬ HasRoom room (w.write none buffering bytes).accepted.length ∧
        (w.write room buffering bytes).failed = true) := by
  rw [write_none hf, List.length_append]
  rcases push_cases room w ((w.pending ++ bytes).take (buffering.passed w.pending bytes)) with
    ⟨hf', -⟩ | ⟨-, hroom, heq⟩ | ⟨-, r, rfl, hlt, heq⟩
  · exact absurd (hf'.symm.trans hf) (by decide)
  · exact .inl ⟨hroom, by rw [BufferedWriter.write, heq, hf]⟩
  · refine .inr ⟨fun h => ?_, by rw [BufferedWriter.write, heq]⟩
    have := h r rfl
    omega

theorem length_accepted_writeAll_none (buffering : Buffering β) (hf : w.failed = false) (chunks : List (List β)) :
    w.accepted.length ≤ (w.writeAll none buffering chunks).accepted.length := by
  induction chunks generalizing w with
  | nil => exact Nat.le_refl _
  | cons chunk chunks ih =>
    refine Nat.le_trans ?_ (ih (w := w.write none buffering chunk) (by rw [write_none hf]))
    rw [write_none hf, List.length_append]
    exact Nat.le_add_right _ _

/-- A failure shows before the last flush exactly when the sink has no room for what a sink that never fails is given
by then. -/
theorem failed_writeAll_iff (hf : w.failed = false) (hroom : HasRoom room w.accepted.length) (chunks : List (List β)) :
    (w.writeAll room buffering chunks).failed = true ↔
      ¬ HasRoom room (w.writeAll none buffering chunks).accepted.length := by
  induction chunks generalizing w with
  | nil => exact iff_of_false (by rw [writeAll, List.foldl_nil, hf]; decide) (not_not.2 hroom)
  | cons chunk chunks ih =>
    have hlive : (w.write none buffering chunk).failed = false := by rw [write_none hf]
    show ((w.write room buffering chunk).writeAll room buffering chunks).failed = true ↔ _
    rcases write_cases room buffering hf chunk with ⟨hfits, hsame⟩ | ⟨hfull, hfailed⟩
    · rw [hsame]
      exact ih hlive hfits
    · have hmono := length_accepted_writeAll_none buffering hlive chunks
      exact iff_of_true (failed_writeAll_of_failed hfailed chunks) fun h => hfull (h.mono hmono)

end BufferedWriter

end Jupiter.Lib
