/-
Depth-first search with a bound on the length of its path.

The search skips a vertex it has listed before it looks at the bound, so a long chain stops it only when the last vertex of
the chain is new at that moment: when no root and no successor listed before the chain's own, at any vertex
on the way, leads to it (`Exposed`). On a graph without cycles that is the only way to fail.
-/
import Jupiter.Lib.DepthFirst

namespace Jupiter.Lib.DepthFirst

open Relation

variable {α : Type}

def Chain (edges : α → List α) : Nat → α → Prop
  | 0, _ => True
  | n + 1, a => ∃ b ∈ edges a, Chain edges n b

instance decidableChain (edges : α → List α) : ∀ n a, Decidable (Chain edges n a)
  | 0, _ => .isTrue trivial
  | n + 1, a =>
    have := decidableChain edges n
    inferInstanceAs (Decidable (∃ b ∈ edges a, Chain edges n b))

theorem chain_congr {edges edges' : α → List α} (h : ∀ a b, b ∈ edges' a ↔ b ∈ edges a) (n : Nat) (a : α) :
    Chain edges' n a ↔ Chain edges n a := by
  induction n generalizing a with
  | zero => exact Iff.rfl
  | succ n ih => simp only [Chain, h, ih]

theorem Chain.of_le {edges : α → List α} {n m : Nat} (h : n ≤ m) {a : α} (hm : Chain edges m a) : Chain edges n a := by
  induction n generalizing m a with
  | zero => trivial
  | succ n ih =>
    obtain ⟨m, rfl⟩ : ∃ k, m = k + 1 := ⟨m - 1, by omega⟩
    obtain ⟨b, hb, hrest⟩ := hm
    exact ⟨b, hb, ih (by omega) hrest⟩

/-- A chain of so many edges starts at the vertex and ends in one that nothing passed on the way leads to: none of the
vertices `before`, and no successor listed before the one the chain takes. -/
def Exposed (edges : α → List α) : Nat → List α → α → Prop
  | 0, before, a => ∀ b ∈ before, ¬ ReflTransGen (Edge edges) b a
  | n + 1, before, a => ∃ pre b post, edges a = pre ++ b :: post ∧ Exposed edges n (before ++ pre) b

/-- Such a chain starts at one of the vertices listed, those listed before it being passed on the way. -/
def ExposedIn (edges : α → List α) (n : Nat) (before starts : List α) : Prop :=
  ∃ pre a post, starts = pre ++ a :: post ∧ Exposed edges n (before ++ pre) a

variable {edges : α → List α} {n : Nat} {before starts done : List α} {a : α}

theorem Exposed.chain (h : Exposed edges n before a) : Chain edges n a := by
  induction n generalizing before a with
  | zero => trivial
  | succ n ih =>
    obtain ⟨pre, b, post, heq, hrest⟩ := h
    exact ⟨b, heq ▸ List.mem_append_right _ List.mem_cons_self, ih hrest⟩

theorem ExposedIn.exists_chain (h : ExposedIn edges n before starts) : ∃ a ∈ starts, Chain edges n a := by
  obtain ⟨pre, a, post, rfl, ha⟩ := h
  exact ⟨a, List.mem_append_right _ List.mem_cons_self, ha.chain⟩

theorem not_exposed_of_reach {b : α} (hb : b ∈ before) (hreach : ReflTransGen (Edge edges) b a) :
    ¬ Exposed edges n before a := by
  induction n generalizing before a with
  | zero => exact fun h => h b hb hreach
  | succ n ih =>
    rintro ⟨pre, c, post, heq, hrest⟩
    have hc : c ∈ edges a := heq ▸ List.mem_append_right _ List.mem_cons_self
    exact ih (List.mem_append_left pre hb) (hreach.tail hc) hrest

theorem exposedIn_cons {as : List α} :
    ExposedIn edges n before (a :: as) ↔ Exposed edges n before a ∨ ExposedIn edges n (before ++ [a]) as := by
  constructor
  · rintro ⟨pre, b, post, heq, hb⟩
    cases pre with
    | nil =>
      cases heq
      exact .inl (by simpa using hb)
    | cons x pre =>
      cases heq
      exact .inr ⟨pre, b, post, rfl, by simpa using hb⟩
  · rintro (ha | ⟨pre, b, post, rfl, hb⟩)
    · exact ⟨[], a, as, rfl, by simpa using ha⟩
    · exact ⟨a :: pre, b, post, rfl, by simpa using hb⟩

/-! ## The search -/

def Covers (edges : α → List α) (done before : List α) : Prop :=
  ∀ x, x ∈ done ↔ ∃ b ∈ before, ReflTransGen (Edge edges) b x

/-- The search runs out of fuel when there is an exposed chain, and otherwise lists what the starts lead to. -/
def Bounded (edges : α → List α) (before starts : List α) (exposed : Prop)
    (result : Except (Failure α) (List α)) : Prop :=
  exposed ∧ result = .error .outOfFuel ∨
    ¬ exposed ∧ ∃ done', result = .ok done' ∧ Covers edges done' (before ++ starts)

theorem bounded_visitAll {visit : α → List α → Except (Failure α) (List α)}
    (hvisit : ∀ a ∈ starts, ∀ before done, Covers edges done before →
      Bounded edges before [a] (Exposed edges n before a) (visit a done))
    (hdone : Covers edges done before) :
    Bounded edges before starts (ExposedIn edges n before starts) (visitAll visit starts done) := by
  induction starts generalizing before done with
  | nil =>
    refine .inr ⟨?_, done, rfl, by simpa using hdone⟩
    rintro ⟨pre, a, post, heq, -⟩
    simp at heq
  | cons a as ih =>
    rw [exposedIn_cons, visitAll]
    rcases hvisit a List.mem_cons_self before done hdone with ⟨hexposed, herr⟩ | ⟨hhidden, done', hok, hdone'⟩
    · rw [herr]
      exact .inl ⟨.inl hexposed, rfl⟩
    · rw [hok]
      have hrest := ih (fun b hb => hvisit b (List.mem_cons_of_mem a hb)) hdone'
      rw [Bounded, List.append_assoc, List.singleton_append] at hrest
      rw [Bounded, or_iff_right hhidden]
      exact hrest

variable [DecidableEq α]

theorem visit_of_mem (fuel : Nat) (visiting : List α) (h : a ∈ done) : visit edges fuel visiting a done = .ok done := by
  cases fuel <;> rw [visit, if_pos h]

theorem bounded_of_mem (fuel : Nat) (visiting : List α) (hdone : Covers edges done before) (h : a ∈ done) :
    Bounded edges before [a] (Exposed edges n before a) (visit edges fuel visiting a done) := by
  obtain ⟨b, hb, hreach⟩ := (hdone a).1 h
  refine .inr ⟨not_exposed_of_reach hb hreach, done, visit_of_mem fuel visiting h, fun x => ?_⟩
  rw [hdone x]
  constructor
  · rintro ⟨c, hc, hcx⟩
    exact ⟨c, List.mem_append_left _ hc, hcx⟩
  · rintro ⟨c, hc, hcx⟩
    rcases List.mem_append.1 hc with hc | hc
    · exact ⟨c, hc, hcx⟩
    · obtain rfl := List.mem_singleton.1 hc
      exact ⟨b, hb, hreach.trans hcx⟩

omit [DecidableEq α] in
theorem Covers.snoc (h : Covers edges done (before ++ edges a)) : Covers edges (done ++ [a]) (before ++ [a]) := by
  intro x
  rw [List.mem_append, h x, List.mem_singleton]
  constructor
  · rintro (⟨b, hb, hbx⟩ | rfl)
    · rcases List.mem_append.1 hb with hb | hb
      · exact ⟨b, List.mem_append_left _ hb, hbx⟩
      · exact ⟨a, List.mem_append_right _ List.mem_cons_self, .head hb hbx⟩
    · exact ⟨x, List.mem_append_right _ List.mem_cons_self, .refl⟩
  · rintro ⟨b, hb, hbx⟩
    rcases List.mem_append.1 hb with hb | hb
    · exact .inl ⟨b, List.mem_append_left _ hb, hbx⟩
    · obtain rfl := List.mem_singleton.1 hb
      rcases hbx.cases_head with rfl | ⟨c, hc, hcx⟩
      · exact .inr rfl
      · exact .inl ⟨c, List.mem_append_right _ hc, hcx⟩

/-- Induction on the fuel. What is listed when a vertex is visited is what the vertices before it lead to. -/
theorem bounded_visit (fuel : Nat) (visiting : List α) (hacc : Acc (flip (Edge edges)) a)
    (hpath : ∀ v ∈ visiting, TransGen (Edge edges) v a) (hdone : Covers edges done before) :
    Bounded edges before [a] (Exposed edges fuel before a) (visit edges fuel visiting a done) := by
  induction fuel generalizing visiting a before done with
  | zero =>
    by_cases hseen : a ∈ done
    · exact bounded_of_mem 0 visiting hdone hseen
    · have hoff : a ∉ visiting := fun hmem => Cycle.not_cycle_of_acc hacc (hpath a hmem)
      refine .inl ⟨fun b hb hreach => hseen ((hdone a).2 ⟨b, hb, hreach⟩), ?_⟩
      rw [visit, if_neg hseen, if_neg hoff]
  | succ fuel ih =>
    by_cases hseen : a ∈ done
    · exact bounded_of_mem (fuel + 1) visiting hdone hseen
    · have hoff : a ∉ visiting := fun hmem => Cycle.not_cycle_of_acc hacc (hpath a hmem)
      have hsucc : Bounded edges before (edges a) (ExposedIn edges fuel before (edges a))
          (visitAll (visit edges fuel (a :: visiting)) (edges a) done) := by
        refine bounded_visitAll (fun b hb before' done' hdone' => ?_) hdone
        refine ih (a :: visiting) (hacc.inv hb) (fun v hv => ?_) hdone'
        rcases List.mem_cons.1 hv with rfl | hv
        · exact .single hb
        · exact (hpath v hv).tail hb
      rw [visit, if_neg hseen, if_neg hoff]
      rcases hsucc with ⟨hexposed, herr⟩ | ⟨hhidden, done', hok, hdone'⟩
      · exact .inl ⟨hexposed, by rw [herr]⟩
      · exact .inr ⟨hhidden, done' ++ [a], by rw [hok], hdone'.snoc⟩

theorem bounded_sort (fuel : Nat) {roots : List α} (hacc : ∀ a ∈ roots, Acc (flip (Edge edges)) a) :
    Bounded edges [] roots (ExposedIn edges fuel [] roots) (sort edges fuel roots) :=
  bounded_visitAll (fun _ ha _ _ hdone => bounded_visit fuel [] (hacc _ ha) (by simp) hdone) fun x => by simp

end Jupiter.Lib.DepthFirst
