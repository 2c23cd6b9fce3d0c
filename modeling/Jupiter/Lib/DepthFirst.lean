/-
Depth-first search that lists the vertices of a directed graph in post-order, so that every vertex stands after its
successors, and that fails when it comes back to a vertex it has not finished.

`visiting` is the path from the root of the search, `done` the vertices listed so far. Each call takes a vertex that is
not on the path, so a bound on the length of paths is enough fuel (`visit_ne_outOfFuel`).
-/
import Jupiter.Lib.Cycle
import Mathlib.Data.List.Nodup
import Mathlib.Data.List.Perm.Subperm

namespace Jupiter.Lib.DepthFirst

open Relation

variable {α : Type}

/-- Why a search fails. -/
inductive Failure (α : Type) where
  | cycle (a : α)
  | outOfFuel
  deriving DecidableEq

def visitAll (visit : α → List α → Except (Failure α) (List α)) : List α → List α → Except (Failure α) (List α)
  | [], done => .ok done
  | a :: as, done =>
    match visit a done with
    | .error e => .error e
    | .ok done => visitAll visit as done

variable [DecidableEq α] (edges : α → List α)

def visit : Nat → List α → α → List α → Except (Failure α) (List α)
  | fuel, visiting, a, done =>
    if a ∈ done then .ok done
    else if a ∈ visiting then .error (.cycle a)
    else
      match fuel with
      | 0 => .error .outOfFuel
      | fuel + 1 =>
        match visitAll (visit fuel (a :: visiting)) (edges a) done with
        | .error e => .error e
        | .ok done => .ok (done ++ [a])

def sort (fuel : Nat) (roots : List α) : Except (Failure α) (List α) := visitAll (visit edges fuel []) roots []

/-! ## Successors first -/

def Before (l : List α) (b a : α) : Prop := ∃ pre post, l = pre ++ a :: post ∧ b ∈ pre

omit [DecidableEq α] in
theorem Before.append {l : List α} {b a : α} (h : Before l b a) (new : List α) : Before (l ++ new) b a := by
  obtain ⟨pre, post, rfl, hb⟩ := h
  exact ⟨pre, post ++ new, by simp, hb⟩

omit [DecidableEq α] in
theorem Before.mem_left {l : List α} {b a : α} (h : Before l b a) : b ∈ l := by
  obtain ⟨pre, post, rfl, hb⟩ := h
  exact List.mem_append_left _ hb

/-- No vertex twice, and every vertex after its successors. -/
structure Ordered (l : List α) : Prop where
  nodup : l.Nodup
  before : ∀ a ∈ l, ∀ b ∈ edges a, Before l b a

/-- What a search that succeeds adds to the list: vertices off the path, each a start or a successor. -/
structure Extends (visiting starts done done' : List α) : Prop where
  ordered : Ordered edges done'
  reached : ∀ a ∈ starts, a ∈ done'
  added : ∃ new, done' = done ++ new ∧ ∀ a ∈ new, a ∉ visiting ∧ (a ∈ starts ∨ ∃ b, a ∈ edges b)

variable {edges}

omit [DecidableEq α] in
theorem Ordered.snoc {done : List α} (h : Ordered edges done) {a : α} (ha : a ∉ done) (hs : ∀ b ∈ edges a, b ∈ done) :
    Ordered edges (done ++ [a]) := by
  constructor
  · rw [List.nodup_append_comm]
    simpa using ⟨ha, h.nodup⟩
  · intro x hx b hb
    rcases List.mem_append.1 hx with hx | hx
    · exact (h.before x hx b hb).append [a]
    · obtain rfl := List.mem_singleton.1 hx
      exact ⟨done, [], rfl, hs b hb⟩

omit [DecidableEq α] in
theorem extends_visitAll {visit : α → List α → Except (Failure α) (List α)} {visiting : List α}
    (hvisit : ∀ a done done', Ordered edges done → visit a done = .ok done' → Extends edges visiting [a] done done')
    (starts done done' : List α) (h : Ordered edges done) (hrun : visitAll visit starts done = .ok done') :
    Extends edges visiting starts done done' := by
  induction starts generalizing done with
  | nil =>
    cases hrun
    exact ⟨h, by simp, [], by simp, by simp⟩
  | cons a as ih =>
    rw [visitAll] at hrun
    cases hone : visit a done with
    | error e => simp [hone] at hrun
    | ok mid =>
      simp only [hone] at hrun
      have hfirst := hvisit a done mid h hone
      have hrest := ih mid hfirst.ordered hrun
      obtain ⟨new, rfl, hnew⟩ := hfirst.added
      obtain ⟨new', rfl, hnew'⟩ := hrest.added
      refine ⟨hrest.ordered, ?_, new ++ new', by simp, ?_⟩
      · intro x hx
        rcases List.mem_cons.1 hx with rfl | hx
        · exact List.mem_append_left _ (hfirst.reached x List.mem_cons_self)
        · exact hrest.reached x hx
      · intro x hx
        rcases List.mem_append.1 hx with hx | hx
        · obtain ⟨hoff, rfl | horigin⟩ := (hnew x hx).imp_right (Or.imp_left List.mem_singleton.1)
          · exact ⟨hoff, .inl List.mem_cons_self⟩
          · exact ⟨hoff, .inr horigin⟩
        · exact (hnew' x hx).imp_right (Or.imp_left (List.mem_cons_of_mem a))

/-- By induction on the fuel: the vertex is listed after the search has listed its successors, which cannot have listed
the vertex itself, because it was on their path. -/
theorem extends_visit (fuel : Nat) (visiting : List α) (a : α) (done done' : List α) (h : Ordered edges done)
    (hrun : visit edges fuel visiting a done = .ok done') : Extends edges visiting [a] done done' := by
  induction fuel generalizing visiting a done done' with
  | zero =>
    rw [visit] at hrun
    split at hrun
    · next ha =>
      cases hrun
      exact ⟨h, by simpa using ha, [], by simp, by simp⟩
    · split at hrun <;> cases hrun
  | succ fuel ih =>
    rw [visit] at hrun
    split at hrun
    · next ha =>
      cases hrun
      exact ⟨h, by simpa using ha, [], by simp, by simp⟩
    · next ha =>
      split at hrun
      · cases hrun
      · next hoff =>
        cases hall : visitAll (visit edges fuel (a :: visiting)) (edges a) done with
        | error e => simp [hall] at hrun
        | ok mid =>
          simp only [hall] at hrun
          cases hrun
          have hsucc := extends_visitAll (ih (a :: visiting)) (edges a) done mid h hall
          obtain ⟨new, rfl, hnew⟩ := hsucc.added
          have hmid : a ∉ done ++ new := by
            intro hmem
            rcases List.mem_append.1 hmem with hmem | hmem
            · exact ha hmem
            · exact (hnew a hmem).1 List.mem_cons_self
          refine ⟨hsucc.ordered.snoc hmid hsucc.reached, by simp, new ++ [a], by simp, ?_⟩
          intro x hx
          rcases List.mem_append.1 hx with hx | hx
          · obtain ⟨hpath, horigin⟩ := hnew x hx
            exact ⟨fun hv => hpath (List.mem_cons_of_mem a hv), .inr (horigin.elim (fun hs => ⟨a, hs⟩) id)⟩
          · obtain rfl := List.mem_singleton.1 hx
            exact ⟨hoff, .inl List.mem_cons_self⟩

/-- A search that succeeds lists the roots and successors only, each once and after its successors. -/
theorem sort_spec {fuel : Nat} {roots sorted : List α} (h : sort edges fuel roots = .ok sorted) :
    Ordered edges sorted ∧ (∀ a ∈ roots, a ∈ sorted) ∧ ∀ a ∈ sorted, a ∈ roots ∨ ∃ b, a ∈ edges b := by
  have hext := extends_visitAll (extends_visit fuel []) roots [] sorted ⟨List.nodup_nil, by simp⟩ h
  obtain ⟨new, rfl, hnew⟩ := hext.added
  exact ⟨hext.ordered, hext.reached, fun a ha => (hnew a (by simpa using ha)).2⟩

/-! ## Enough fuel -/

omit [DecidableEq α] in
theorem visitAll_ne_error {visit : α → List α → Except (Failure α) (List α)} {e : Failure α} (starts : List α)
    (h : ∀ a ∈ starts, ∀ done, visit a done ≠ .error e) (done : List α) :
    visitAll visit starts done ≠ .error e := by
  induction starts generalizing done with
  | nil => simp [visitAll]
  | cons a as ih =>
    rw [visitAll]
    cases hone : visit a done with
    | error e' =>
      intro he
      exact h a List.mem_cons_self done (hone.trans he)
    | ok mid => exact ih (fun x hx => h x (List.mem_cons_of_mem a hx)) mid

/-- The path of a search has no vertex twice, so it is no longer than a list of all vertices. -/
theorem visit_ne_outOfFuel {all : List α} (hall : ∀ a ∈ all, ∀ b ∈ edges a, b ∈ all) (fuel : Nat) (visiting : List α)
    (hpath : visiting.Nodup) (hsub : visiting ⊆ all) (hfuel : all.length ≤ fuel + visiting.length) (a : α) (ha : a ∈ all)
    (done : List α) : visit edges fuel visiting a done ≠ .error .outOfFuel := by
  induction fuel generalizing visiting a done with
  | zero =>
    rw [visit]
    split
    · simp
    · split
      · simp
      · next hoff =>
        have hlonger : (a :: visiting).length ≤ all.length :=
          (List.subperm_of_subset (List.nodup_cons.2 ⟨hoff, hpath⟩) (List.cons_subset.2 ⟨ha, hsub⟩)).length_le
        simp only [List.length_cons] at hlonger
        omega
  | succ fuel ih =>
    rw [visit]
    split
    · simp
    · split
      · simp
      · next hoff =>
        have hsucc := visitAll_ne_error (edges a) (fun b hb done' =>
          ih (a :: visiting) (List.nodup_cons.2 ⟨hoff, hpath⟩) (List.cons_subset.2 ⟨ha, hsub⟩)
            (by simp only [List.length_cons]; omega) b (hall a ha b hb) done') done
        cases hrun : visitAll (visit edges fuel (a :: visiting)) (edges a) done with
        | error e =>
          rw [hrun] at hsucc
          simpa using hsucc
        | ok mid => simp

theorem sort_ne_outOfFuel {all roots : List α} (hall : ∀ a ∈ all, ∀ b ∈ edges a, b ∈ all) (hroots : roots ⊆ all)
    {fuel : Nat} (hfuel : all.length ≤ fuel) : sort edges fuel roots ≠ .error .outOfFuel :=
  visitAll_ne_error roots (fun a ha done =>
    visit_ne_outOfFuel hall fuel [] List.nodup_nil (by simp) (by simpa using hfuel) a (hroots ha) done) []

/-! ## No cycle

A rank that falls along every edge rules cycles out, and the order of one search that succeeded is such a rank. -/

theorem visit_ne_cycle {rank : α → Nat} (hrank : ∀ a, ∀ b ∈ edges a, rank b < rank a) (c : α) (fuel : Nat)
    (visiting : List α) (a : α) (hpath : ∀ v ∈ visiting, rank a < rank v) (done : List α) :
    visit edges fuel visiting a done ≠ .error (.cycle c) := by
  have hoff : a ∉ visiting := fun ha => Nat.lt_irrefl _ (hpath a ha)
  induction fuel generalizing visiting a done with
  | zero =>
    rw [visit, if_neg hoff]
    split <;> simp
  | succ fuel ih =>
    rw [visit, if_neg hoff]
    split
    · simp
    · have hsucc := visitAll_ne_error (edges a) (e := .cycle c) (fun b hb done' => by
        have hb' : ∀ v ∈ a :: visiting, rank b < rank v := by
          intro v hv
          rcases List.mem_cons.1 hv with rfl | hv
          · exact hrank v b hb
          · exact Nat.lt_trans (hrank a b hb) (hpath v hv)
        exact ih (a :: visiting) b hb' done' fun hmem => Nat.lt_irrefl _ (hb' b hmem)) done
      cases hrun : visitAll (visit edges fuel (a :: visiting)) (edges a) done with
      | error e =>
        rw [hrun] at hsucc
        simpa using hsucc
      | ok mid => simp

theorem exists_sort {rank : α → Nat} (hrank : ∀ a, ∀ b ∈ edges a, rank b < rank a) {all roots : List α}
    (hall : ∀ a, ∀ b ∈ edges a, b ∈ all) (hroots : roots ⊆ all) :
    ∃ sorted, sort edges all.length roots = .ok sorted := by
  cases h : sort edges all.length roots with
  | ok sorted => exact ⟨sorted, rfl⟩
  | error e =>
    cases e with
    | outOfFuel => exact absurd h (sort_ne_outOfFuel (fun a _ => hall a) hroots (Nat.le_refl _))
    | cycle c =>
      exact absurd h (visitAll_ne_error roots (fun a _ done => visit_ne_cycle hrank c all.length [] a (by simp) done) [])

def position (l : List α) (a : α) : Nat := l.idxOf a

theorem position_lt_length {l : List α} {a : α} (h : a ∈ l) : position l a < l.length := List.idxOf_lt_length_of_mem h

theorem position_append_of_mem {l l' : List α} {a : α} (h : a ∈ l) : position (l ++ l') a = position l a :=
  List.idxOf_append_of_mem h

theorem position_append_of_notMem {l l' : List α} {a : α} (h : a ∉ l) :
    position (l ++ l') a = l.length + position l' a :=
  List.idxOf_append_of_notMem h

theorem Ordered.position_lt {l : List α} (h : Ordered edges l) {a b : α} (ha : a ∈ l) (hb : b ∈ edges a) :
    position l b < position l a := by
  obtain ⟨pre, post, rfl, hpre⟩ := h.before a ha b hb
  have hfresh : a ∉ pre := fun hmem => (List.nodup_append.1 h.nodup).2.2 a hmem a List.mem_cons_self rfl
  rw [position_append_of_mem hpre, position_append_of_notMem hfresh]
  exact Nat.lt_add_right _ (position_lt_length hpre)

/-! ## Cycles

A search that has enough fuel fails exactly when it can come back to a vertex it has passed. -/

def Edge (edges : α → List α) (a b : α) : Prop := b ∈ edges a

omit [DecidableEq α] in
theorem visitAll_error {visit : α → List α → Except (Failure α) (List α)} {e : Failure α} (starts done : List α)
    (h : visitAll visit starts done = .error e) : ∃ a ∈ starts, ∃ done', visit a done' = .error e := by
  by_contra hnone
  push Not at hnone
  exact visitAll_ne_error starts hnone done h

/-- The vertices on the path lead to the vertex at hand, so one that is met again leads to itself. -/
theorem cycle_of_visit {c : α} (fuel : Nat) (visiting : List α) (a : α) (done : List α)
    (hpath : ∀ v ∈ visiting, TransGen (Edge edges) v a) (hrun : visit edges fuel visiting a done = .error (.cycle c)) :
    ReflTransGen (Edge edges) a c ∧ TransGen (Edge edges) c c := by
  induction fuel generalizing visiting a done with
  | zero =>
    rw [visit] at hrun
    split at hrun
    · cases hrun
    · split at hrun
      · next hmet =>
        cases hrun
        exact ⟨.refl, hpath _ hmet⟩
      · cases hrun
  | succ fuel ih =>
    rw [visit] at hrun
    split at hrun
    · cases hrun
    · split at hrun
      · next hmet =>
        cases hrun
        exact ⟨.refl, hpath _ hmet⟩
      · cases hall : visitAll (visit edges fuel (a :: visiting)) (edges a) done with
        | ok mid => simp [hall] at hrun
        | error e =>
          simp only [hall] at hrun
          cases hrun
          obtain ⟨b, hb, done', hrun'⟩ := visitAll_error (edges a) done hall
          have hpath' : ∀ v ∈ a :: visiting, TransGen (Edge edges) v b := by
            intro v hv
            rcases List.mem_cons.1 hv with rfl | hv
            · exact .single hb
            · exact (hpath v hv).tail hb
          obtain ⟨hreach, hcycle⟩ := ih (a :: visiting) b done' hpath' hrun'
          exact ⟨hreach.head hb, hcycle⟩

theorem returns_of_sort {fuel : Nat} {roots : List α} {c : α} (h : sort edges fuel roots = .error (.cycle c)) :
    ∃ a ∈ roots, Cycle.Returns (Edge edges) a := by
  obtain ⟨a, ha, done, hrun⟩ := visitAll_error roots [] h
  exact ⟨a, ha, c, cycle_of_visit fuel [] a done (by simp) hrun⟩

/-- Every way from a vertex of an ordered list ends, since the position in the list falls along it. -/
theorem Ordered.acc {l : List α} (h : Ordered edges l) {a : α} (ha : a ∈ l) : Acc (flip (Edge edges)) a := by
  induction hn : position l a using Nat.strongRecOn generalizing a with
  | _ n ih =>
    subst hn
    refine ⟨a, fun b hb => ?_⟩
    exact ih (position l b) (h.position_lt ha hb) (h.before a ha b hb).mem_left rfl

theorem acc_of_sort {fuel : Nat} {roots sorted : List α} (h : sort edges fuel roots = .ok sorted) {a : α}
    (ha : a ∈ roots) : Acc (flip (Edge edges)) a := by
  obtain ⟨hordered, hroots, -⟩ := sort_spec h
  exact hordered.acc (hroots a ha)

theorem sort_cycle_iff {all roots : List α} (hall : ∀ a ∈ all, ∀ b ∈ edges a, b ∈ all) (hroots : roots ⊆ all)
    {fuel : Nat} (hfuel : all.length ≤ fuel) :
    (∃ c, sort edges fuel roots = .error (.cycle c)) ↔ ∃ a ∈ roots, Cycle.Returns (Edge edges) a := by
  refine ⟨fun ⟨c, hc⟩ => returns_of_sort hc, ?_⟩
  rintro ⟨a, ha, hreturns⟩
  rcases hrun : sort edges fuel roots with e | sorted
  · cases e with
    | cycle c => exact ⟨c, rfl⟩
    | outOfFuel => exact absurd hrun (sort_ne_outOfFuel hall hroots hfuel)
  · exact absurd hreturns (Cycle.not_returns_of_acc (acc_of_sort hrun ha))

/-! ## Roots visited first -/

omit [DecidableEq α] in
theorem visitAll_append (visit : α → List α → Except (Failure α) (List α)) (as bs done : List α) :
    visitAll visit (as ++ bs) done =
      match visitAll visit as done with
      | .error e => .error e
      | .ok mid => visitAll visit bs mid := by
  induction as generalizing done with
  | nil => rfl
  | cons a as ih =>
    simp only [List.cons_append, visitAll]
    cases visit a done with
    | error e => rfl
    | ok mid => exact ih mid

omit [DecidableEq α] in
theorem visitAll_forall {visit : α → List α → Except (Failure α) (List α)} {P : α → Prop}
    (hvisit : ∀ a done done', P a → (∀ x ∈ done, P x) → visit a done = .ok done' → ∀ x ∈ done', P x)
    (starts done done' : List α) (hstarts : ∀ a ∈ starts, P a) (hdone : ∀ x ∈ done, P x)
    (hrun : visitAll visit starts done = .ok done') : ∀ x ∈ done', P x := by
  induction starts generalizing done with
  | nil =>
    cases hrun
    exact hdone
  | cons a as ih =>
    rw [visitAll] at hrun
    cases hone : visit a done with
    | error e => simp [hone] at hrun
    | ok mid =>
      simp only [hone] at hrun
      have hmid := hvisit a done mid (hstarts a List.mem_cons_self) hdone hone
      exact ih mid (fun x hx => hstarts x (List.mem_cons_of_mem a hx)) hmid hrun

theorem visit_forall {P : α → Prop} (hP : ∀ a, P a → ∀ b ∈ edges a, P b) (fuel : Nat) (visiting : List α) (a : α)
    (done done' : List α) (ha : P a) (hdone : ∀ x ∈ done, P x)
    (hrun : visit edges fuel visiting a done = .ok done') : ∀ x ∈ done', P x := by
  induction fuel generalizing visiting a done done' with
  | zero =>
    rw [visit] at hrun
    split at hrun
    · cases hrun
      exact hdone
    · split at hrun <;> cases hrun
  | succ fuel ih =>
    rw [visit] at hrun
    split at hrun
    · cases hrun
      exact hdone
    · split at hrun
      · cases hrun
      · cases hall : visitAll (visit edges fuel (a :: visiting)) (edges a) done with
        | error e => simp [hall] at hrun
        | ok mid =>
          simp only [hall] at hrun
          cases hrun
          have hmid := visitAll_forall (ih (a :: visiting)) (edges a) done mid (hP a ha) hdone hall
          intro x hx
          rcases List.mem_append.1 hx with hx | hx
          · exact hmid x hx
          · exact List.mem_singleton.1 hx ▸ ha

theorem sort_append {P : α → Prop} (hP : ∀ a, P a → ∀ b ∈ edges a, P b) {fuel : Nat} {as bs sorted : List α}
    (has : ∀ a ∈ as, P a) (hrun : sort edges fuel (as ++ bs) = .ok sorted) :
    ∃ first rest, sorted = first ++ rest ∧ (∀ a ∈ as, a ∈ first) ∧ ∀ x ∈ first, P x := by
  unfold sort at hrun
  rw [visitAll_append] at hrun
  cases hfirst : visitAll (visit edges fuel []) as [] with
  | error e => simp [hfirst] at hrun
  | ok first =>
    simp only [hfirst] at hrun
    have hext := extends_visitAll (extends_visit fuel []) as [] first ⟨List.nodup_nil, by simp⟩ hfirst
    obtain ⟨rest, rfl, -⟩ := (extends_visitAll (extends_visit fuel []) bs first sorted hext.ordered hrun).added
    exact ⟨first, rest, rfl, hext.reached, visitAll_forall (visit_forall hP fuel []) as [] first has (by simp) hfirst⟩

end Jupiter.Lib.DepthFirst
