/-
Regular expressions with groups, as a backtracking matcher runs them: alternatives in their order, repetitions of a
class as often or as seldom as they can, word boundaries.

`ends` lists where a match from a place can end, best first; `find` takes the first place that has one, and a match at a
given place makes a matcher (`Regex.matcher`). What stands before and after a match decides nothing but the word
boundaries at its ends (`ends_near`), so what matches inside a text also matches when the text stands between others
that touch it with no word character (`find_within`).
-/
import Jupiter.Lib.Rewrite

namespace Jupiter.Lib

open Rewrite

inductive Regex (α : Type) where
  | empty
  | cls (p : α → Bool)
  | many (greedy : Bool) (p : α → Bool)
  | alt (r s : Regex α)
  | seq (r s : Regex α)
  | group (i : Nat) (r : Regex α)
  | boundary

namespace Regex

variable {α : Type}

def opt (r : Regex α) : Regex α := alt r empty

def plus (p : α → Bool) : Regex α := seq (cls p) (many true p)

def times : Nat → Regex α → Regex α
  | 0, _ => empty
  | n + 1, r => seq r (times n r)

def upTo : Nat → Regex α → Regex α
  | 0, _ => empty
  | n + 1, r => opt (seq r (upTo n r))

def sequence (rs : List (Regex α)) : Regex α := rs.foldr seq empty

def literal [DecidableEq α] (l : List α) : Regex α := sequence (l.map fun a => cls (· = a))

/-- A place in a text: what stands before it, last first, and what stands after, with the groups that are set, the last
one first. -/
structure Place (α : Type) where
  before : List α
  after : List α
  groups : List (Nat × List α) := []

/-! ## Matches -/

def manyEnds (greedy : Bool) (p : α → Bool) (groups : List (Nat × List α)) : List α → List α → List (Place α)
  | before, [] => [⟨before, [], groups⟩]
  | before, a :: after =>
    let here : Place α := ⟨before, a :: after, groups⟩
    if p a then
      if greedy then manyEnds greedy p groups (a :: before) after ++ [here]
      else here :: manyEnds greedy p groups (a :: before) after
    else [here]

section Matches

variable (word : α → Bool)

/-- The places where a match can end, in the order a backtracking matcher tries them. -/
def ends : Regex α → Place α → List (Place α)
  | .empty, c => [c]
  | .cls p, ⟨before, after, groups⟩ =>
    match after with
    | [] => []
    | a :: after => if p a then [⟨a :: before, after, groups⟩] else []
  | .many greedy p, c => manyEnds greedy p c.groups c.before c.after
  | .alt r s, c => ends r c ++ ends s c
  | .seq r s, c => (ends r c).flatMap (ends s)
  | .group i r, c =>
    (ends r c).map fun e =>
      { e with groups := (i, c.after.take (c.after.length - e.after.length)) :: e.groups }
  | .boundary, c => if c.before.head?.any word != c.after.head?.any word then [c] else []

def findFrom (r : Regex α) : List α → List α → Option (Place α × Place α)
  | before, [] => (ends word r ⟨before, [], []⟩).head?.map (⟨before, [], []⟩, ·)
  | before, a :: after =>
    match (ends word r ⟨before, a :: after, []⟩).head? with
    | some e => some (⟨before, a :: after, []⟩, e)
    | none => findFrom r (a :: before) after

def find (r : Regex α) (text : List α) : Option (Place α × Place α) := findFrom word r [] text

/-- The matches from a place on that do not overlap. After an empty match the search goes on one character later,
and an empty match right after another is dropped; `prevMatchEnd` is the length of the text up to the last match. -/
def findAllFrom (r : Regex α) : Nat → Option Nat → Place α → List (Place α × Place α)
  | 0, _, _ => []
  | fuel + 1, prevMatchEnd, c =>
    match findFrom word r c.before c.after with
    | none => []
    | some (s, e) =>
      if e.before.length = c.before.length then
        let rest := match c.after with
          | [] => []
          | a :: after => findAllFrom r fuel (some e.before.length) ⟨a :: c.before, after, []⟩
        if prevMatchEnd = some s.before.length then rest else (s, e) :: rest
      else (s, e) :: findAllFrom r fuel (some e.before.length) e

def findAll (r : Regex α) (text : List α) : List (Place α × Place α) :=
  findAllFrom word r (text.length + 1) none ⟨[], text, []⟩

/-- The match that starts at a place. -/
def matchAt (r : Regex α) (before after : List α) : Option (Found α) :=
  (ends word r ⟨before, after, []⟩).head?.map fun e => ⟨after.length - e.after.length, e.groups⟩

/-! ## Where a match is found -/

theorem exists_split_nil {P : List α → List α → Prop} : (∃ taken rest, [] = taken ++ rest ∧ P taken rest) ↔ P [] [] := by
  constructor
  · rintro ⟨taken, rest, h, hp⟩
    obtain ⟨rfl, rfl⟩ := List.append_eq_nil_iff.1 h.symm
    exact hp
  · exact fun hp => ⟨[], [], rfl, hp⟩

theorem exists_split_cons {P : List α → List α → Prop} {a : α} {l : List α} :
    (∃ taken rest, a :: l = taken ++ rest ∧ P taken rest) ↔
      P [] (a :: l) ∨ ∃ taken rest, l = taken ++ rest ∧ P (a :: taken) rest := by
  constructor
  · rintro ⟨taken, rest, h, hp⟩
    rcases List.cons_eq_append_iff.1 h with ⟨rfl, rfl⟩ | ⟨taken', rfl, rfl⟩
    · exact .inl hp
    · exact .inr ⟨taken', rest, rfl, hp⟩
  · rintro (hp | ⟨taken, rest, rfl, hp⟩)
    · exact ⟨[], a :: l, rfl, hp⟩
    · exact ⟨a :: taken, rest, rfl, hp⟩

theorem findFrom_isSome (r : Regex α) (before after : List α) :
    (findFrom word r before after).isSome ↔
      ∃ pre post, after = pre ++ post ∧ ends word r ⟨pre.reverse ++ before, post, []⟩ ≠ [] := by
  induction after generalizing before with
  | nil => rw [findFrom, Option.isSome_map, List.isSome_head?, exists_split_nil]; rfl
  | cons a after ih =>
    rw [findFrom, exists_split_cons]
    cases he : ends word r ⟨before, a :: after, []⟩ with
    | cons e es => exact iff_of_true rfl (.inl (by simp [he]))
    | nil => simp [he, ih]

theorem findAll_ne_nil (r : Regex α) (text : List α) :
    findAll word r text ≠ [] ↔ (find word r text).isSome := by
  unfold findAll find
  rw [findAllFrom]
  cases findFrom word r [] text with
  | none => simp
  | some m =>
    obtain ⟨s, e⟩ := m
    simp only []
    split <;> simp

/-! ## Matches in context -/

theorem mem_manyEnds {greedy : Bool} {p : α → Bool} {groups : List (Nat × List α)} {before after : List α}
    {e : Place α} :
    e ∈ manyEnds greedy p groups before after ↔
      ∃ taken rest, after = taken ++ rest ∧ taken.all p = true ∧ e = ⟨taken.reverse ++ before, rest, groups⟩ := by
  induction after generalizing before with
  | nil => rw [manyEnds, List.mem_singleton, exists_split_nil]; simp
  | cons a after ih =>
    rw [manyEnds, exists_split_cons]
    cases hp : p a with
    | true => cases greedy <;> simp [hp, ih, or_comm]
    | false => simp [hp]

theorem any_head_append {l : List α} {b b' : List α} (h : b'.head?.any word = b.head?.any word) :
    (l ++ b').head?.any word = (l ++ b).head?.any word := by
  cases l with
  | nil => exact h
  | cons a l => rfl

/-- A match takes a stretch of the text, and takes it wherever word characters touch it on the same sides. -/
theorem ends_near {r : Regex α} {c e : Place α} (h : e ∈ ends word r c) :
    ∃ taken, c.after = taken ++ e.after ∧ e.before = taken.reverse ++ c.before ∧
      ∀ before' after' groups, before'.head?.any word = c.before.head?.any word →
        after'.head?.any word = e.after.head?.any word →
        ∃ groups', ⟨taken.reverse ++ before', after', groups'⟩ ∈ ends word r ⟨before', taken ++ after', groups⟩ := by
  induction r generalizing c e with
  | empty =>
    obtain rfl := List.mem_singleton.1 h
    exact ⟨[], rfl, rfl, fun _ _ groups _ _ => ⟨groups, List.mem_singleton.2 rfl⟩⟩
  | cls p =>
    obtain ⟨before, after, groups⟩ := c
    cases after with
    | nil => cases h
    | cons a after =>
      simp only [ends] at h
      split at h
      · next hp =>
        obtain rfl := List.mem_singleton.1 h
        exact ⟨[a], rfl, rfl, fun _ _ groups _ _ => ⟨groups, by simp [ends, hp]⟩⟩
      · cases h
  | many greedy p =>
    obtain ⟨taken, rest, hafter, hall, rfl⟩ := mem_manyEnds.1 h
    refine ⟨taken, hafter, rfl, fun before' after' groups _ _ => ⟨groups, ?_⟩⟩
    exact mem_manyEnds.2 ⟨taken, after', rfl, hall, rfl⟩
  | alt r s ihr ihs =>
    rcases List.mem_append.1 h with h | h
    · obtain ⟨taken, hafter, hbefore, hnear⟩ := ihr h
      exact ⟨taken, hafter, hbefore, fun before' after' groups hb ha =>
        (hnear before' after' groups hb ha).imp fun _ => List.mem_append_left _⟩
    · obtain ⟨taken, hafter, hbefore, hnear⟩ := ihs h
      exact ⟨taken, hafter, hbefore, fun before' after' groups hb ha =>
        (hnear before' after' groups hb ha).imp fun _ => List.mem_append_right _⟩
  | seq r s ihr ihs =>
    obtain ⟨d, hd, he⟩ := List.mem_flatMap.1 h
    obtain ⟨taken, hafter, hbefore, hnear⟩ := ihr hd
    obtain ⟨taken', hafter', hbefore', hnear'⟩ := ihs he
    refine ⟨taken ++ taken', by rw [hafter, hafter', List.append_assoc], by simp [hbefore', hbefore], ?_⟩
    intro before' after' groups hb ha
    -- The second part comes after the first one, the first one before the second.
    obtain ⟨groups₁, hmem₁⟩ := hnear before' (taken' ++ after') groups hb (by rw [hafter', any_head_append word ha])
    obtain ⟨groups₂, hmem₂⟩ := hnear' (taken.reverse ++ before') after' groups₁
      (by rw [hbefore, any_head_append word hb]) ha
    refine ⟨groups₂, List.mem_flatMap.2 ⟨_, by rwa [List.append_assoc], by simpa using hmem₂⟩⟩
  | group i r ih =>
    obtain ⟨d, hd, rfl⟩ := List.mem_map.1 h
    obtain ⟨taken, hafter, hbefore, hnear⟩ := ih hd
    refine ⟨taken, hafter, hbefore, fun before' after' groups hb ha => ?_⟩
    obtain ⟨groups', hmem⟩ := hnear before' after' groups hb ha
    exact ⟨_, List.mem_map.2 ⟨_, hmem, rfl⟩⟩
  | boundary =>
    simp only [ends] at h
    split at h
    · next hboundary =>
      obtain rfl := List.mem_singleton.1 h
      refine ⟨[], rfl, rfl, fun before' after' groups hb ha => ⟨groups, ?_⟩⟩
      simp only [ends, List.nil_append, List.reverse_nil, hb, ha]
      rw [if_pos hboundary]
      exact List.mem_singleton.2 rfl
    · cases h

theorem matchAt_eq_some {r : Regex α} {before after : List α} {found : Found α}
    (h : matchAt word r before after = some found) :
    ∃ e ∈ ends word r ⟨before, after, []⟩, found.length = after.length - e.after.length := by
  obtain ⟨e, he, rfl⟩ := Option.map_eq_some_iff.1 h
  exact ⟨e, List.mem_of_mem_head? he, rfl⟩

def matcher (r : Regex α) : Matcher α where
  find := matchAt word r
  fits h := by
    obtain ⟨e, -, hlength⟩ := matchAt_eq_some word h
    omega
  near := by
    intro before before' stretch after after' found h hlength hb ha
    obtain ⟨e, he, hfound⟩ := matchAt_eq_some word h
    obtain ⟨taken, htaken, -, hnear⟩ := ends_near word he
    -- The stretch is what the match takes, as the two have the same length.
    have hlen := congrArg List.length htaken
    simp only [List.length_append] at hlen hfound
    obtain ⟨rfl, hafter⟩ := List.append_inj htaken (by omega)
    obtain ⟨groups', hmem⟩ := hnear before' after' [] (by rw [hb]) (by rw [ha, hafter])
    rw [matchAt, Option.isSome_map, List.isSome_head?]
    exact List.ne_nil_of_mem hmem

/-- No word character touches what stands between `pre` and `post`. -/
structure Separated (pre post : List α) : Prop where
  left : ∀ a ∈ pre.getLast?, word a = false
  right : ∀ a ∈ post.head?, word a = false

variable {word} in
theorem Separated.find_within {pre post : List α} (h : Separated word pre post) (r : Regex α) {text : List α}
    (hfind : (find word r text).isSome) : (find word r (pre ++ text ++ post)).isSome := by
  obtain ⟨l, l', rfl, hends⟩ := (findFrom_isSome word r [] text).1 hfind
  obtain ⟨e, he⟩ := List.exists_mem_of_ne_nil _ hends
  obtain ⟨taken, hafter, -, hnear⟩ := ends_near word he
  have hpre : pre.reverse.head?.any word = false := by
    rw [List.head?_reverse, Option.any_eq_false]
    exact fun a ha => by simp [h.left a ha]
  have hpost : post.head?.any word = false := by
    rw [Option.any_eq_false]
    exact fun a ha => by simp [h.right a ha]
  obtain ⟨groups', hmem⟩ := hnear (l.reverse ++ pre.reverse) (e.after ++ post) []
    (any_head_append word hpre)
    ((any_head_append word hpost).trans (by rw [List.append_nil]))
  refine (findFrom_isSome word r [] _).2 ⟨pre ++ l, l' ++ post, by simp, ?_⟩
  dsimp only at hafter
  rw [List.append_nil, List.reverse_append, hafter, List.append_assoc]
  exact List.ne_nil_of_mem hmem

end Matches

end Regex

end Jupiter.Lib
