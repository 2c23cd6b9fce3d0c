/-
What becomes of the evidence when the recorder shuts down.

Every accepted record is in exactly one place: the pending map, a call in its `select`, the channel, the worker, the
storage, or among the reported ones or those a call lost when it panicked (`Inv.places`).
-/
import Jupiter.Evidence.Recorder
import Mathlib.Data.List.Count
import Mathlib.Data.List.Perm.Basic

namespace Jupiter.Evidence

open Jupiter.Lib

/-! ## Taking a record out of a list -/

def ids (records : List EvidenceRecord) : List String := records.map (·.requestID)

@[simp] theorem ids_nil : ids [] = [] := rfl

@[simp] theorem ids_cons (r : EvidenceRecord) (l : List EvidenceRecord) : ids (r :: l) = r.requestID :: ids l := rfl

@[simp] theorem ids_append (l l' : List EvidenceRecord) : ids (l ++ l') = ids l ++ ids l' := List.map_append

theorem pluck_ids {rid : String} : ∀ {l : List EvidenceRecord} {r : EvidenceRecord} {rest : List EvidenceRecord},
    pluck (·.requestID == rid) l = some (r, rest) →
      r.requestID = rid ∧ ids rest = (ids l).erase rid ∧ rid ∈ ids l
  | [], r, rest, h => by cases h
  | a :: l, r, rest, h => by
    unfold pluck at h
    by_cases ha : a.requestID = rid
    · rw [if_pos (by simpa using ha)] at h
      cases h
      exact ⟨ha, by rw [ids_cons, ha, List.erase_cons_head], by rw [ids_cons, ha]; exact List.mem_cons_self ..⟩
    · rw [if_neg (by simpa using ha)] at h
      obtain ⟨⟨r', rest'⟩, h', he⟩ := Option.map_eq_some_iff.1 h
      cases he
      obtain ⟨hr, hids, hmem⟩ := pluck_ids h'
      refine ⟨hr, ?_, by rw [ids_cons]; exact List.mem_cons_of_mem _ hmem⟩
      rw [ids_cons, ids_cons, hids, List.erase_cons_tail (by simpa using ha)]

theorem pluck_none {rid : String} : ∀ {l : List EvidenceRecord}, pluck (·.requestID == rid) l = none → rid ∉ ids l
  | [], _ => by simp
  | a :: l, h => by
    unfold pluck at h
    by_cases ha : a.requestID = rid
    · rw [if_pos (by simpa using ha)] at h; cases h
    · rw [if_neg (by simpa using ha)] at h
      have := pluck_none (Option.map_eq_none_iff.1 h)
      rw [ids_cons, List.mem_cons, not_or]
      exact ⟨fun he => ha he.symm, this⟩

theorem count_pluck {rid : String} {l : List EvidenceRecord} {r : EvidenceRecord} {rest : List EvidenceRecord}
    (h : pluck (·.requestID == rid) l = some (r, rest)) (x : String) :
    (ids l).count x = (rid :: ids rest).count x := by
  obtain ⟨_, hids, hmem⟩ := pluck_ids h
  rw [hids]
  exact (List.perm_cons_erase hmem).count_eq x

namespace Recorder

variable {buffer : Nat} {s s' : Recorder}

/-! ## Every accepted record is in one place -/

def held : Worker → List String
  | .writing _ r => [r.requestID]
  | _ => []

def places (s : Recorder) (x : String) : Nat :=
  (ids s.pending).count x + (ids s.sending).count x + (ids s.recordChan).count x + (held s.worker).count x +
    (ids s.storage).count x + s.reported.count x + s.panicked.count x

def sent (s : Recorder) (x : String) : Nat :=
  (ids s.recordChan).count x + (held s.worker).count x + (ids s.storage).count x

structure Inv (s : Recorder) : Prop where
  places : ∀ x, s.places x = s.accepted.count x
  once : ∀ x, s.accepted.count x ≤ 1
  sent : ∀ x, s.returnedNil.count x = s.sent x
  returned : s.closing = .returned → s.worker = .exited

theorem init_inv : Inv {} := ⟨fun _ => rfl, fun _ => Nat.zero_le 1, fun _ => rfl, fun h => (by cases h)⟩

theorem takeSending_spec {rid : String} {r : EvidenceRecord} {t : Recorder} (h : s.takeSending rid = some (r, t)) :
    r.requestID = rid ∧ ∃ rest, t = { s with sending := rest } ∧
      ∀ x, (ids s.sending).count x = (rid :: ids rest).count x := by
  obtain ⟨⟨r', rest⟩, hp, he⟩ := Option.map_eq_some_iff.1 h
  cases he
  exact ⟨(pluck_ids hp).1, rest, rfl, count_pluck hp⟩

theorem receiveRecord_spec {r : EvidenceRecord} {w w' : Worker} (h : receiveRecord r w = some w') :
    held w = [] ∧ held w' = [r.requestID] ∧ w ≠ .exited := by
  cases w with
  | waiting => cases h; exact ⟨rfl, rfl, nofun⟩
  | draining => cases h; exact ⟨rfl, rfl, nofun⟩
  | writing d r' => cases h
  | exited => cases h

theorem requestID_updateEvidence {r r' : EvidenceRecord} {u : ResponseUpdate}
    (h : updateEvidenceWithResponse r u = some r') : r'.requestID = r.requestID := by
  unfold updateEvidenceWithResponse at h
  split at h <;> cases h
  rfl

/-- A response with metadata and with the provider's response. -/
def complete (u : ResponseUpdate) : Bool := u.responseMeta.isSome && u.originalResponse.isSome

theorem complete_eq (r : EvidenceRecord) (u : ResponseUpdate) :
    complete u = (updateEvidenceWithResponse r u).isSome := by
  unfold complete updateEvidenceWithResponse
  cases u.responseMeta <;> cases u.originalResponse <;> rfl

/-- Everything a step can do. -/
inductive Stepped (s : Recorder) : Event → Recorder → Prop where
  | request (r : EvidenceRecord) (h : r.requestID ∉ s.accepted) :
    Stepped s (.recordRequest r) { s with pending := r :: s.pending, accepted := r.requestID :: s.accepted }
  | unknown (rid : String) (u : ResponseUpdate) (h : rid ∉ ids s.pending) : Stepped s (.recordResponse rid u) s
  | response (rid : String) (u : ResponseUpdate) (r : EvidenceRecord) (rest : List EvidenceRecord)
    (h : pluck (·.requestID == rid) s.pending = some (r, rest)) (r' : EvidenceRecord)
    (hu : updateEvidenceWithResponse r u = some r') :
    Stepped s (.recordResponse rid u) { s with pending := rest, sending := r' :: s.sending }
  | panic (rid : String) (u : ResponseUpdate) (r : EvidenceRecord) (rest : List EvidenceRecord)
    (h : pluck (·.requestID == rid) s.pending = some (r, rest)) (hu : updateEvidenceWithResponse r u = none) :
    Stepped s (.recordResponse rid u) { s with pending := rest, panicked := rid :: s.panicked }
  | send (r : EvidenceRecord) (rest : List EvidenceRecord)
    (h : ∀ x, (ids s.sending).count x = (r.requestID :: ids rest).count x) :
    Stepped s (.send r.requestID)
      { s with sending := rest, recordChan := s.recordChan ++ [r], returnedNil := r.requestID :: s.returnedNil }
  | handoff (r : EvidenceRecord) (rest : List EvidenceRecord) (w : Worker)
    (h : ∀ x, (ids s.sending).count x = (r.requestID :: ids rest).count x)
    (hw : receiveRecord r s.worker = some w) :
    Stepped s (.handoff r.requestID)
      { s with sending := rest, worker := w, returnedNil := r.requestID :: s.returnedNil }
  | report (e : Event) (r : EvidenceRecord) (rest : List EvidenceRecord)
    (h : ∀ x, (ids s.sending).count x = (r.requestID :: ids rest).count x)
    (he : e = .timeout r.requestID ∨ e = .cancelled r.requestID) :
    Stepped s e { s with sending := rest, reported := r.requestID :: s.reported }
  | receive (r : EvidenceRecord) (rest : List EvidenceRecord) (w : Worker) (h : s.recordChan = r :: rest)
    (hw : receiveRecord r s.worker = some w) : Stepped s .receive { s with worker := w, recordChan := rest }
  | write (drains : Bool) (r : EvidenceRecord) (h : s.worker = .writing drains r) :
    Stepped s .write { s with worker := if drains then .draining else .waiting, storage := s.storage ++ [r] }
  | seeDone (h : s.worker = .waiting) : Stepped s .seeDone { s with worker := .draining }
  | drained (h : s.worker = .draining) (hc : s.recordChan = []) : Stepped s .drained { s with worker := .exited }
  | close (h : s.closing = .open) : Stepped s .close { s with done := true, closing := .waiting }
  | closeReturns (h : s.worker = .exited) : Stepped s .closeReturns { s with closing := .returned }

theorem stepped {e : Event} (h : step buffer s e = some s') : Stepped s e s' := by
  cases e with
  | recordRequest r =>
    simp only [step] at h
    split at h
    · cases h
    · rename_i hr; cases h; exact .request r hr
  | recordResponse rid u =>
    simp only [step] at h
    cases hp : pluck (·.requestID == rid) s.pending with
    | none => rw [hp] at h; cases h; exact .unknown rid u (pluck_none hp)
    | some p =>
      obtain ⟨r, rest⟩ := p
      rw [hp] at h
      cases hu : updateEvidenceWithResponse r u with
      | none => simp only [hu] at h; cases h; exact .panic rid u r rest hp hu
      | some r' => simp only [hu] at h; cases h; exact .response rid u r rest hp r' hu
  | send rid =>
    obtain ⟨⟨r, t⟩, ht, h⟩ := Option.bind_eq_some_iff.1 h
    obtain ⟨rfl, rest, rfl, hcount⟩ := takeSending_spec ht
    simp only [] at h
    split at h
    · cases h; exact .send r rest hcount
    · cases h
  | handoff rid =>
    obtain ⟨⟨r, t⟩, ht, h⟩ := Option.bind_eq_some_iff.1 h
    obtain ⟨rfl, rest, rfl, hcount⟩ := takeSending_spec ht
    simp only [] at h
    split at h
    · obtain ⟨w, hw, rfl⟩ := Option.map_eq_some_iff.1 h; exact .handoff r rest w hcount hw
    · cases h
  | timeout rid =>
    obtain ⟨⟨r, t⟩, ht, rfl⟩ := Option.map_eq_some_iff.1 h
    obtain ⟨rfl, rest, rfl, hcount⟩ := takeSending_spec ht
    exact .report _ r rest hcount (Or.inl rfl)
  | cancelled rid =>
    simp only [step] at h
    split at h
    · obtain ⟨⟨r, t⟩, ht, rfl⟩ := Option.map_eq_some_iff.1 h
      obtain ⟨rfl, rest, rfl, hcount⟩ := takeSending_spec ht
      exact .report _ r rest hcount (Or.inr rfl)
    · cases h
  | receive =>
    simp only [step] at h
    split at h
    · cases h
    · rename_i r rest hc
      obtain ⟨w, hw, rfl⟩ := Option.map_eq_some_iff.1 h
      exact .receive r rest w hc hw
  | write =>
    simp only [step] at h
    split at h
    · rename_i drains r hw; cases h; exact .write drains r hw
    · cases h
  | seeDone =>
    simp only [step] at h
    split at h
    · rename_i hw
      split at h
      · cases h; exact .seeDone hw
      · cases h
    · cases h
  | drained =>
    simp only [step] at h
    split at h
    · rename_i hw
      split at h
      · rename_i hc; cases h; exact .drained hw (List.isEmpty_iff.1 hc)
      · cases h
    · cases h
  | close =>
    simp only [step] at h
    split at h
    · rename_i hc; cases h; exact .close hc
    · cases h
  | closeReturns =>
    simp only [step] at h
    split at h
    · rename_i hc hw; cases h; exact .closeReturns hw
    · cases h

theorem step_inv (e : Event) (h : Inv s) (hs : step buffer s e = some s') : Inv s' := by
  obtain ⟨hp, ho, hn, hr⟩ := h
  unfold places at hp
  unfold sent at hn
  cases stepped hs with
  | request r hfresh =>
    refine ⟨fun x => ?_, fun x => ?_, hn, hr⟩
    · have := hp x
      simp only [places, ids_cons, List.count_cons]
      omega
    · simp only [List.count_cons]
      by_cases hx : r.requestID = x
      · have h0 : s.accepted.count x = 0 := List.count_eq_zero.2 (hx ▸ hfresh)
        simp [h0, hx]
      · simpa [hx] using ho x
  | unknown rid u h => exact ⟨hp, ho, hn, hr⟩
  | response rid u r rest h r' hu =>
    refine ⟨fun x => ?_, ho, hn, hr⟩
    have hpx := hp x
    have hrid : r'.requestID = rid := (requestID_updateEvidence hu).trans (pluck_ids h).1
    have hc := count_pluck h x
    simp only [places, ids_cons, hrid, List.count_cons] at hc ⊢
    omega
  | panic rid u r rest h hu =>
    refine ⟨fun x => ?_, ho, hn, hr⟩
    have hpx := hp x
    have hc := count_pluck h x
    simp only [places, List.count_cons] at hc ⊢
    omega
  | send r rest h =>
    refine ⟨fun x => ?_, ho, fun x => ?_, hr⟩
    · have hpx := hp x
      have hc := h x
      simp only [places, ids_append, ids_cons, ids_nil, List.count_append, List.count_cons, List.count_nil] at hc ⊢
      omega
    · have hnx := hn x
      simp only [sent, ids_append, ids_cons, ids_nil, List.count_append, List.count_cons, List.count_nil]
      omega
  | handoff r rest w h hw =>
    obtain ⟨hheld, hheld', hne⟩ := receiveRecord_spec hw
    refine ⟨fun x => ?_, ho, fun x => ?_, fun hc => absurd (hr hc) hne⟩
    · have hpx := hp x
      have hc := h x
      simp only [places, hheld, hheld', List.count_cons, List.count_nil] at hpx hc ⊢
      omega
    · have hnx := hn x
      simp only [sent, hheld, hheld', List.count_cons, List.count_nil] at hnx ⊢
      omega
  | report e r rest h he =>
    refine ⟨fun x => ?_, ho, hn, hr⟩
    have hpx := hp x
    have hc := h x
    simp only [places, List.count_cons] at hc ⊢
    omega
  | receive r rest w h hw =>
    obtain ⟨hheld, hheld', hne⟩ := receiveRecord_spec hw
    refine ⟨fun x => ?_, ho, fun x => ?_, fun hc => absurd (hr hc) hne⟩
    · have hpx := hp x
      simp only [places, h, ids_cons, hheld, hheld', List.count_cons, List.count_nil] at hpx ⊢
      omega
    · have hnx := hn x
      simp only [sent, h, ids_cons, hheld, hheld', List.count_cons, List.count_nil] at hnx ⊢
      omega
  | write drains r h =>
    have hheld : held s.worker = [r.requestID] := by rw [h]; rfl
    have hheld' : held (if drains then .draining else .waiting) = [] := by cases drains <;> rfl
    refine ⟨fun x => ?_, ho, fun x => ?_, fun hc => absurd (hr hc) (by rw [h]; nofun)⟩
    · have hpx := hp x
      simp only [places, hheld, hheld', ids_append, ids_cons, ids_nil, List.count_append, List.count_cons,
        List.count_nil] at hpx ⊢
      omega
    · have hnx := hn x
      simp only [sent, hheld, hheld', ids_append, ids_cons, ids_nil, List.count_append, List.count_cons,
        List.count_nil] at hnx ⊢
      omega
  | seeDone h =>
    rw [h] at hp hn
    exact ⟨hp, ho, hn, fun hc => absurd (hr hc) (by rw [h]; nofun)⟩
  | drained h hc =>
    rw [h] at hp hn
    exact ⟨hp, ho, hn, fun _ => rfl⟩
  | close h => exact ⟨hp, ho, hn, fun hc => (by cases hc)⟩
  | closeReturns h => exact ⟨hp, ho, hn, fun _ => h⟩

/-! ## The channel after the worker has exited -/

/-- The event is not a send to a channel whose worker has exited. -/
def BeforeExit (s : Recorder) : Event → Prop
  | .send _ => s.worker ≠ .exited
  | _ => True

theorem step_drained (e : Event) (h : s.worker = .exited → s.recordChan = []) (hok : BeforeExit s e)
    (hs : step buffer s e = some s') : s'.worker = .exited → s'.recordChan = [] := by
  cases stepped hs with
  | send r rest _ => exact fun hw => absurd hw hok
  | handoff r rest w _ hw =>
    intro he
    rw [show w = .exited from he] at hw
    cases hworker : s.worker <;> rw [hworker] at hw <;> cases hw
  | receive r rest w _ hw =>
    intro he
    rw [show w = .exited from he] at hw
    cases hworker : s.worker <;> rw [hworker] at hw <;> cases hw
  | write drains r _ => cases drains <;> nofun
  | seeDone _ => nofun
  | drained _ hc => exact fun _ => hc
  | _ => exact h

theorem step_stranded (e : Event) (h : s.worker = .exited ∧ s.recordChan ≠ []) (hs : step buffer s e = some s') :
    s'.worker = .exited ∧ s'.recordChan ≠ [] := by
  obtain ⟨hw, hc⟩ := h
  cases stepped hs with
  | send r rest _ => exact ⟨hw, by simp⟩
  | handoff r rest w _ hr => rw [hw] at hr; cases hr
  | receive r rest w _ hr => rw [hw] at hr; cases hr
  | write drains r h => rw [hw] at h; cases h
  | seeDone h => rw [hw] at h; cases h
  | drained h _ => rw [hw] at h; cases h
  | _ => exact ⟨hw, hc⟩

theorem run_stranded : ∀ (es : List Event) (s s' : Recorder), run (step buffer) s es = some s' →
    Meets (step buffer) BeforeExit s es ∨ (s'.worker = .exited ∧ s'.recordChan ≠ [])
  | [], _, _, _ => Or.inl trivial
  | e :: es, s, s', h => by
    obtain ⟨t, ht, hrest⟩ := run_cons_some _ h
    by_cases hok : BeforeExit s e
    · rcases run_stranded es t s' hrest with hm | hlost
      · refine Or.inl ⟨hok, ?_⟩
        intro t' ht'
        obtain rfl := Option.some.inj (ht.symm.trans ht')
        exact hm
      · exact Or.inr hlost
    · refine Or.inr (run_invariant (fun a e b hi hs => step_stranded e hi hs) es t s' ?_ hrest)
      cases e with
      | send rid =>
        cases stepped ht with
        | send r rest _ => exact ⟨not_not.1 hok, by simp⟩
        | report _ _ _ _ he => rcases he with he | he <;> cases he
      | _ => exact absurd trivial hok

/-! ## Requests without a response -/

/-- The requests, of `open_` and of the events, that no complete response is for: none comes, or the first one that
comes is not complete. -/
def unanswered (open_ : List String) : List Event → List String
  | [] => open_
  | .recordRequest r :: es => unanswered (r.requestID :: open_) es
  | .recordResponse rid u :: es =>
    if rid ∈ open_ ∧ complete u = false then rid :: unanswered (open_.erase rid) es else unanswered (open_.erase rid) es
  | _ :: es => unanswered open_ es

theorem pending_panicked : ∀ (es : List Event) (s s' : Recorder), run (step buffer) s es = some s' →
    (ids s'.pending ++ s'.panicked).Perm (unanswered (ids s.pending) es ++ s.panicked)
  | [], _, _, h => by cases h; exact .refl _
  | e :: es, s, s', h => by
    obtain ⟨t, ht, hrest⟩ := run_cons_some _ h
    refine (pending_panicked es t s' hrest).trans ?_
    cases stepped ht with
    | unknown rid u hnot => rw [unanswered, if_neg (fun h => hnot h.1), List.erase_of_not_mem hnot]
    | response rid u r rest hp r' hu =>
      have hcomplete : complete u = true := by rw [complete_eq r, hu]; rfl
      rw [unanswered, if_neg (by simp [hcomplete]), ← (pluck_ids hp).2.1]
    | panic rid u r rest hp hu =>
      have hcomplete : complete u = false := by rw [complete_eq r, hu]; rfl
      rw [unanswered, if_pos ⟨(pluck_ids hp).2.2, hcomplete⟩, ← (pluck_ids hp).2.1]
      exact List.perm_middle
    | report _ _ _ _ he => rcases he with rfl | rfl <;> exact .refl _
    | _ => exact .refl _

/-! ## After the shutdown -/

/-- Every accepted record is stored once or its loss was reported, and what a nil return promised is
stored. -/
def Kept (s : Recorder) : Prop :=
  (∀ rid ∈ s.accepted, (ids s.storage).count rid = 1 ∨ rid ∈ s.reported) ∧
    ∀ rid ∈ s.returnedNil, (ids s.storage).count rid = 1

theorem not_kept_of_mem {rid : String} (h : Inv s)
    (hm : rid ∈ ids s.pending ++ s.panicked ∨ rid ∈ ids s.recordChan) : ¬ s.Kept := by
  intro hk
  have hp := h.places rid
  have ho := h.once rid
  unfold places at hp
  have hpos : 0 < (ids s.pending ++ s.panicked).count rid + (ids s.recordChan).count rid := by
    rcases hm with hm | hm
    · exact Nat.add_pos_left (List.count_pos_iff.2 hm) _
    · exact Nat.add_pos_right _ (List.count_pos_iff.2 hm)
  rw [List.count_append] at hpos
  have hacc : rid ∈ s.accepted := List.count_pos_iff.1 (by omega)
  rcases hk.1 rid hacc with hst | hrep
  · omega
  · have := List.count_pos_iff.2 hrep
    omega

theorem kept_of_empty (h : Inv s) (hw : s.worker = .exited) (hsend : s.sending = [])
    (hpend : ids s.pending ++ s.panicked = []) (hchan : s.recordChan = []) : s.Kept := by
  obtain ⟨hpend, hpanic⟩ := List.append_eq_nil_iff.1 hpend
  constructor
  · intro rid hacc
    have hp := h.places rid
    have ho := h.once rid
    have hpos := List.count_pos_iff.2 hacc
    simp only [places, hw, hsend, hpend, hpanic, hchan, held, ids_nil, List.count_nil] at hp
    by_cases hrep : rid ∈ s.reported
    · exact Or.inr hrep
    · have := List.count_eq_zero.2 hrep
      exact Or.inl (by omega)
  · intro rid hnil
    have hn := h.sent rid
    have hp := h.places rid
    have ho := h.once rid
    have hpos := List.count_pos_iff.2 hnil
    simp only [sent, hw, hchan, held, ids_nil, List.count_nil] at hn
    unfold places at hp
    omega

def evidence (rid : String) : EvidenceRecord := { id := rid, requestID := rid, requestTime := ⟨0, 0⟩ }

def answer : ResponseUpdate where
  responseMeta := some ⟨⟨1, 0⟩, 200, "openai", 1, none⟩
  originalResponse := some ⟨"gpt-4", "hello", "stop", none⟩
  recordedTime := ⟨1, 0⟩
  tokenUsage := none
  totalCost := none

/-- A response between its lookup and its `select` while the worker drains the channel and exits. -/
def lateResponse : List Event :=
  [.recordRequest (evidence "r1"), .recordResponse "r1" answer, .close, .seeDone, .drained, .send "r1",
    .closeReturns]

/-- The same calls, with the response sent before the worker looks at the done channel. -/
def timelyResponse : List Event :=
  [.recordRequest (evidence "r1"), .recordResponse "r1" answer, .send "r1", .close, .seeDone, .receive, .write,
    .drained, .closeReturns]

/-- At every moment of every run, in which no request ID is used twice: a record is stored at most once, and only when
`RecordResponse` returned nil for its request, which no call reports as lost. -/
theorem stored_once (buffer : Nat) (es : List Event) (s : Recorder) (h : run (step buffer) {} es = some s) (x : String) :
    (ids s.storage).count x ≤ 1 ∧ (x ∈ ids s.storage → x ∈ s.accepted ∧ x ∈ s.returnedNil ∧ x ∉ s.reported) := by
  have hinv := run_invariant (fun _ e _ h hs => step_inv e h hs) es {} s init_inv h
  have hplaces := hinv.places x
  have hone := hinv.once x
  have hsent := hinv.sent x
  unfold places at hplaces
  unfold sent at hsent
  simp only [← List.count_pos_iff]
  omega

theorem stored_once_timely :
    ∃ s, run (step 1000) {} timelyResponse = some s ∧ (ids s.storage).count "r1" ≤ 1 ∧
      ("r1" ∈ ids s.storage → "r1" ∈ s.accepted ∧ "r1" ∈ s.returnedNil ∧ "r1" ∉ s.reported) :=
  ⟨_, rfl, stored_once 1000 timelyResponse _ rfl "r1"⟩

end Recorder

end Jupiter.Evidence
