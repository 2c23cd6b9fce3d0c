/-
Loops that can break and can fail: `scan` walks a list, each element updating a state, until the state says to halt or a
step returns an error. An error keeps the state it left behind.

A loop nested in a loop of the same kind is one loop over the flattened list (`scan_flatMap`). Where the element alone
decides how a step ends, the loop is a fold over the elements up to the first that ends it (`scan_eq_foldl`).
-/
import Mathlib.Data.List.Basic

namespace Jupiter.Lib

section UpTo

variable {α : Type*} (p : α → Bool)

def upTo : List α → List α
  | [] => []
  | a :: l => if p a then [a] else a :: upTo l

variable {p}

theorem upTo_subset {l : List α} {a : α} (h : a ∈ upTo p l) : a ∈ l := by
  induction l with
  | nil => exact h
  | cons b l ih =>
    rw [upTo] at h
    split at h
    · exact List.mem_cons.mpr (.inl (List.mem_singleton.mp h))
    · rcases List.mem_cons.mp h with rfl | h
      · exact List.mem_cons_self
      · exact List.mem_cons_of_mem b (ih h)

theorem upTo_of_find_none {l : List α} (h : l.find? p = none) : upTo p l = l := by
  induction l with
  | nil => rfl
  | cons b l ih =>
    rw [List.find?_eq_none] at h
    rw [upTo, if_neg (h b List.mem_cons_self),
      ih (List.find?_eq_none.mpr fun a ha => h a (List.mem_cons_of_mem b ha))]

theorem upTo_of_find_some {l : List α} {a : α} (h : l.find? p = some a) :
    ∃ pre, upTo p l = pre ++ [a] ∧ (∀ x ∈ pre, p x = false) ∧ p a = true := by
  induction l with
  | nil => cases h
  | cons b l ih =>
    rw [List.find?_cons] at h
    rw [upTo]
    cases hb : p b with
    | true =>
      rw [hb] at h
      obtain rfl : b = a := by simpa using h
      exact ⟨[], rfl, by simp, hb⟩
    | false =>
      rw [hb] at h
      obtain ⟨pre, he, hpre, ha⟩ := ih h
      refine ⟨b :: pre, by simp [he], ?_, ha⟩
      intro x hx
      rcases List.mem_cons.mp hx with rfl | hx
      · exact hb
      · exact hpre x hx

theorem find_of_mem_upTo {l : List α} {a : α} (h : a ∈ upTo p l) (ha : p a = true) :
    l.find? p = some a := by
  cases hf : l.find? p with
  | none => exact absurd ha (by simpa using List.find?_eq_none.mp hf a (upTo_subset h))
  | some b =>
    obtain ⟨pre, he, hpre, -⟩ := upTo_of_find_some hf
    rw [he, List.mem_append, List.mem_singleton] at h
    rcases h with h | rfl
    · rw [hpre a h] at ha; cases ha
    · rfl

theorem mem_upTo_of_find {l : List α} {a : α} (h : l.find? p = some a) : a ∈ upTo p l := by
  obtain ⟨pre, he, -, -⟩ := upTo_of_find_some h
  rw [he]
  exact List.mem_append.mpr (.inr (List.mem_singleton.mpr rfl))

theorem find_congr_of_upTo {q : α → Bool} {l : List α} (h : ∀ a ∈ upTo q l, p a = q a) :
    upTo p l = upTo q l ∧ l.find? p = l.find? q := by
  induction l with
  | nil => exact ⟨rfl, rfl⟩
  | cons b l ih =>
    rw [upTo] at h
    cases hb : q b with
    | true =>
      rw [if_pos hb] at h
      have hp := h b List.mem_cons_self
      simp [upTo, hp, hb]
    | false =>
      rw [if_neg (by rw [hb]; exact Bool.false_ne_true)] at h
      have hp := h b List.mem_cons_self
      obtain ⟨hu, hf⟩ := ih fun a ha => h a (List.mem_cons_of_mem b ha)
      simp [upTo, hp, hb, hu, hf]

theorem upTo_map {β : Type*} {q : β → Bool} (f : α → β) (l : List α) :
    upTo q (l.map f) = (upTo (fun a => q (f a)) l).map f := by
  induction l with
  | nil => rfl
  | cons a l ih =>
    rw [List.map_cons, upTo, upTo]
    split
    · rfl
    · rw [ih, List.map_cons]

theorem upTo_filter {q : α → Bool} (h : ∀ a, p a = true → q a = true) (l : List α) :
    (upTo p l).filter q = upTo p (l.filter q) := by
  induction l with
  | nil => rfl
  | cons a l ih =>
    rw [upTo]
    cases hp : p a with
    | true => simp [upTo, hp, h a hp]
    | false =>
      rw [if_neg Bool.false_ne_true, List.filter_cons, List.filter_cons, ih]
      split
      · rw [upTo, hp, if_neg Bool.false_ne_true]
      · rfl

/-- Two walks of one list that report the same stop at the same place and report the same of each element,
when what is reported of an element shows whether it is a hit. -/
theorem eq_of_map_upTo_eq {β : Type*} {q : α → Bool} {f g : α → β} (hfg : ∀ a, f a = g a → p a = q a)
    {l : List α} (h : (upTo p l).map f = (upTo q l).map g) : ∀ a ∈ upTo p l, f a = g a := by
  induction l with
  | nil => intro a ha; cases ha
  | cons b l ih =>
    have hhead : ∀ r : α → Bool, ∃ t, upTo r (b :: l) = b :: t := by
      intro r
      rw [upTo]
      split
      · exact ⟨[], rfl⟩
      · exact ⟨_, rfl⟩
    obtain ⟨t, ht⟩ := hhead p
    obtain ⟨u, hu⟩ := hhead q
    have hb : f b = g b := by
      rw [ht, hu] at h
      exact (List.cons.inj h).1
    have hpq := hfg b hb
    intro a ha
    rw [upTo] at ha h
    rw [upTo, ← hpq] at h
    cases hp : p b with
    | true =>
      rw [if_pos hp, List.mem_singleton] at ha
      rwa [ha]
    | false =>
      rw [if_neg (by rw [hp]; exact Bool.false_ne_true)] at ha h
      rw [if_neg (by rw [hp]; exact Bool.false_ne_true)] at h
      rcases List.mem_cons.mp ha with rfl | ha
      · exact hb
      · exact ih (List.cons.inj h).2 a ha

end UpTo

section Scan

variable {σ α β ε : Type*} (step : σ → α → σ × Option ε) (halt : σ → Bool)

/-- The loop from state `s`: its last state, and the error that ended it, if one did. -/
def scan : σ → List α → σ × Option ε
  | s, [] => (s, none)
  | s, a :: l =>
    match step s a with
    | (s', some e) => (s', some e)
    | (s', none) => if halt s' then (s', none) else scan s' l

variable {step halt}

theorem scan_cons_error {s s' : σ} {a : α} {l : List α} {e : ε} (h : step s a = (s', some e)) :
    scan step halt s (a :: l) = (s', some e) := by
  rw [scan, h]

theorem scan_cons_halt {s s' : σ} {a : α} {l : List α} (h : step s a = (s', none))
    (hs : halt s' = true) : scan step halt s (a :: l) = (s', none) := by
  rw [scan, h]
  exact if_pos hs

theorem scan_cons_next {s s' : σ} {a : α} {l : List α} (h : step s a = (s', none))
    (hs : halt s' = false) : scan step halt s (a :: l) = scan step halt s' l := by
  rw [scan, h]
  exact if_neg (by rw [hs]; exact Bool.false_ne_true)

/-- How a loop over `l ++ m` goes: through `l`, and on through `m` unless it ended there. -/
theorem scan_append {s : σ} (hs : halt s = false) (l m : List α) :
    scan step halt s (l ++ m) =
      if (scan step halt s l).2.isSome || halt (scan step halt s l).1 then scan step halt s l
      else scan step halt (scan step halt s l).1 m := by
  induction l generalizing s with
  | nil => simp [scan, hs]
  | cons a l ih =>
    rw [List.cons_append]
    rcases h : step s a with ⟨s', _ | e⟩
    · cases hh : halt s' with
      | true => simp [scan_cons_halt h hh, hh]
      | false => rw [scan_cons_next h hh, scan_cons_next h hh, ih hh]
    · simp [scan_cons_error h]

/-- A loop over loops is one loop over all their elements. -/
theorem scan_flatMap {g : β → List α} {s : σ} (hs : halt s = false) (l : List β) :
    scan (fun s b => scan step halt s (g b)) halt s l = scan step halt s (l.flatMap g) := by
  induction l generalizing s with
  | nil => rfl
  | cons b l ih =>
    rw [List.flatMap_cons, scan_append hs, scan]
    rcases h : scan step halt s (g b) with ⟨s', _ | e⟩
    · cases hh : halt s' with
      | true => simp [hh]
      | false => simpa [hh] using ih hh
    · simp

theorem scan_map {g : β → α} (s : σ) (l : List β) :
    scan step halt s (l.map g) = scan (fun s b => step s (g b)) halt s l := by
  induction l generalizing s with
  | nil => rfl
  | cons b l ih =>
    rw [List.map_cons, scan, scan]
    rcases step s (g b) with ⟨s', _ | e⟩
    · simp [ih]
    · rfl

/-- Where `fail` and `stops` say from the element alone how a step ends, the loop is a fold over the
elements up to the first that ends it, and its error is the error of that one. -/
theorem scan_eq_foldl {I : σ → Prop} {next : σ → α → σ} {fail : α → Option ε} {stops : α → Bool}
    (hstep : ∀ s a, I s → step s a = (next s a, fail a))
    (hhalt : ∀ s a, I s → fail a = none → halt (next s a) = stops a)
    (hI : ∀ s a, I s → fail a = none → stops a = false → I (next s a))
    (s : σ) (l : List α) (hs : I s) :
    scan step halt s l =
      ((upTo (fun a => (fail a).isSome || stops a) l).foldl next s,
        (l.find? fun a => (fail a).isSome || stops a).bind fail) := by
  induction l generalizing s with
  | nil => rfl
  | cons a l ih =>
    have h := hstep s a hs
    cases hf : fail a with
    | some e =>
      rw [hf] at h
      simp [scan_cons_error h, upTo, hf]
    | none =>
      rw [hf] at h
      cases hst : stops a with
      | true =>
        have hh := hhalt s a hs hf
        rw [hst] at hh
        simp [scan_cons_halt h hh, upTo, hf, hst]
      | false =>
        have hh := hhalt s a hs hf
        rw [hst] at hh
        rw [scan_cons_next h hh, ih _ (hI s a hs hf hst)]
        simp [upTo, hf, hst]

/-- `step'` does what `step` does or gives up with an error of `abort`, leaving a state that `step` has
passed (`R`); then so does its loop. -/
theorem scan_cut {step' : σ → α → σ × Option ε} {abort : ε → Prop} {R : σ → σ → Prop}
    (hrefl : ∀ s, R s s) (htrans : ∀ s t u, R s t → R t u → R s u)
    (hR : ∀ s a, R s (step s a).1)
    (hcut : ∀ s a, step' s a = step s a ∨
      ∃ e, (step' s a).2 = some e ∧ abort e ∧ R (step' s a).1 (step s a).1)
    (s : σ) (l : List α) :
    R s (scan step halt s l).1 ∧
      (scan step' halt s l = scan step halt s l ∨
        ∃ e, (scan step' halt s l).2 = some e ∧ abort e ∧
          R (scan step' halt s l).1 (scan step halt s l).1) := by
  induction l generalizing s with
  | nil => exact ⟨hrefl s, .inl rfl⟩
  | cons a l ih =>
    have hsa := hR s a
    -- where the loop of `step` goes after `a`
    have hfwd : R (step s a).1 (scan step halt s (a :: l)).1 := by
      rcases h : step s a with ⟨s', _ | e⟩
      · cases hh : halt s' with
        | true => rw [scan_cons_halt h hh]; exact hrefl s'
        | false => rw [scan_cons_next h hh]; exact (ih s').1
      · rw [scan_cons_error h]; exact hrefl s'
    refine ⟨htrans _ _ _ hsa hfwd, ?_⟩
    rcases hcut s a with heq | ⟨e, he, hab, hR'⟩
    · rcases h : step s a with ⟨s', _ | e⟩
      · rw [h] at heq
        cases hh : halt s' with
        | true => exact .inl ((scan_cons_halt heq hh).trans (scan_cons_halt h hh).symm)
        | false =>
          rw [scan_cons_next heq hh, scan_cons_next h hh]
          exact (ih s').2
      · rw [h] at heq
        exact .inl ((scan_cons_error heq).trans (scan_cons_error h).symm)
    · have h' : step' s a = ((step' s a).1, some e) := Prod.ext rfl he
      refine .inr ⟨e, ?_, hab, ?_⟩
      · rw [scan_cons_error h']
      · rw [scan_cons_error h']
        exact htrans _ _ _ hR' hfwd

end Scan

section Fold

variable {σ α β : Type*} {step : σ → α → σ} {p : α → Bool}

/-- A part of the state that the elements of `p` overwrite holds what the last of them wrote. -/
theorem foldl_last {f : σ → β} {g : α → β} (h : ∀ s a, f (step s a) = if p a then g a else f s) (s : σ)
    (l : List α) : f (l.foldl step s) = ((l.filter p).getLast?.map g).getD (f s) := by
  induction l generalizing s with
  | nil => rfl
  | cons a l ih =>
    rw [List.foldl_cons, ih, h, List.filter_cons]
    cases p a with
    | true => cases hl : (l.filter p).getLast? <;> simp [List.getLast?_cons, hl]
    | false => rfl

theorem foldl_append {f : σ → List β} {g : α → β}
    (h : ∀ s a, f (step s a) = if p a then f s ++ [g a] else f s) (s : σ) (l : List α) :
    f (l.foldl step s) = f s ++ (l.filter p).map g := by
  induction l generalizing s with
  | nil => simp
  | cons a l ih =>
    rw [List.foldl_cons, ih, h, List.filter_cons]
    cases p a with
    | true => simp
    | false => rfl

end Fold

end Jupiter.Lib
