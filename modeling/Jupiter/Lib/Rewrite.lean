/-
Replacing the matches in a text, from left to right and without overlaps.

A matcher says at every place of a text whether a match starts there. No match starts between two kept elements
(`Matcher.find_eq_none`), so a match in the text that some passes leave takes in or touches a place where the first of
them, or a later one, put something (`not_keptMatch_inner`).
-/
import Mathlib.Data.List.Basic

namespace Jupiter.Lib.Rewrite

/-- The length of a match and the texts of its groups. -/
structure Found (α : Type) where
  length : Nat
  groups : List (Nat × List α) := []

/-- The match that starts at a place, given what stands before it, last first, and after it. A match fits into the
text, and a stretch that matches does so wherever it stands between the same two elements. -/
structure Matcher (α : Type) where
  find : List α → List α → Option (Found α)
  fits : ∀ {before after : List α} {m : Found α}, find before after = some m → m.length ≤ after.length
  near : ∀ {before before' stretch after after' : List α} {m : Found α},
    find before (stretch ++ after) = some m → m.length = stretch.length →
      before'.head? = before.head? → after'.head? = after.head? → (find before' (stretch ++ after')).isSome

inductive Token (α : Type) where
  | kept (a : α)
  | put (source text : List α)
  deriving DecidableEq

namespace Token

variable {α : Type}

def source : Token α → List α
  | kept a => [a]
  | put source _ => source

def text : Token α → List α
  | kept a => [a]
  | put _ text => text

def isKept : Token α → Bool
  | kept _ => true
  | put _ _ => false

def Isolated (tokens : List (Token α)) : Prop :=
  ∀ left right t u, tokens = left ++ t :: u :: right → t.isKept = false → u.isKept = false →
    t.source ≠ [] ∧ u.source ≠ []

def sources (tokens : List (Token α)) : List α := tokens.flatMap source

def texts (tokens : List (Token α)) : List α := tokens.flatMap text

@[simp] theorem sources_nil : sources ([] : List (Token α)) = [] := rfl

@[simp] theorem sources_cons (t : Token α) (ts : List (Token α)) : sources (t :: ts) = t.source ++ sources ts := by
  simp [sources]

@[simp] theorem sources_append (ts us : List (Token α)) : sources (ts ++ us) = sources ts ++ sources us := by
  simp [sources]

@[simp] theorem sources_kept (l : List α) : sources (l.map kept) = l := by
  induction l with
  | nil => rfl
  | cons a l ih => rw [List.map_cons, sources_cons, ih, source, List.singleton_append]

@[simp] theorem texts_nil : texts ([] : List (Token α)) = [] := rfl

@[simp] theorem texts_cons (t : Token α) (ts : List (Token α)) : texts (t :: ts) = t.text ++ texts ts := by
  simp [texts]

@[simp] theorem texts_append (ts us : List (Token α)) : texts (ts ++ us) = texts ts ++ texts us := by
  simp [texts]

@[simp] theorem texts_kept (l : List α) : texts (l.map kept) = l := by
  induction l with
  | nil => rfl
  | cons a l ih => rw [List.map_cons, texts_cons, ih, text, List.singleton_append]

end Token

namespace Matcher

variable {α : Type} (m : Matcher α) (repl : List α → Found α → List α)

/-- The rest of a pass. `skip` elements belong to the match just replaced. An empty match is replaced unless it comes
right after another match, and the element after it is kept. -/
def tokensFrom (afterMatch : Bool) (skip : Nat) (before : List α) : List α → List (Token α)
  | [] =>
    match m.find before [] with
    | none => []
    | some found => if afterMatch then [] else [.put [] (repl [] found)]
  | a :: after =>
    match skip with
    | skip + 1 => tokensFrom true skip (a :: before) after
    | 0 =>
      match m.find before (a :: after) with
      | none => .kept a :: tokensFrom false 0 (a :: before) after
      | some found =>
        match found.length with
        | 0 =>
          (if afterMatch then [] else [.put [] (repl [] found)]) ++
            .kept a :: tokensFrom false 0 (a :: before) after
        | n + 1 =>
          .put (a :: after.take n) (repl (a :: after.take n) found) :: tokensFrom true n (a :: before) after

def tokens (text : List α) : List (Token α) := tokensFrom m repl false 0 [] text

/-! ## One pass -/

/-- What a pass does at an element that belongs to no match yet. -/
theorem tokensFrom_cons (afterMatch : Bool) (before : List α) (a : α) (after : List α) :
    (m.find before (a :: after) = none ∧
      m.tokensFrom repl afterMatch 0 before (a :: after) = .kept a :: m.tokensFrom repl false 0 (a :: before) after) ∨
    (∃ found, m.find before (a :: after) = some found ∧ found.length = 0 ∧
      m.tokensFrom repl afterMatch 0 before (a :: after) =
        (if afterMatch then [] else [.put [] (repl [] found)]) ++
          .kept a :: m.tokensFrom repl false 0 (a :: before) after) ∨
    (∃ found n, m.find before (a :: after) = some found ∧ found.length = n + 1 ∧ n ≤ after.length ∧
      m.tokensFrom repl afterMatch 0 before (a :: after) =
        .put (a :: after.take n) (repl (a :: after.take n) found) :: m.tokensFrom repl true n (a :: before) after) := by
  rw [tokensFrom]
  cases hf : m.find before (a :: after) with
  | none => exact .inl ⟨rfl, rfl⟩
  | some found =>
    refine .inr ?_
    cases hl : found.length with
    | zero => exact .inl ⟨found, rfl, hl, by simp only [hl]⟩
    | succ n =>
      have hfits := m.fits hf
      rw [hl, List.length_cons] at hfits
      exact .inr ⟨found, n, rfl, hl, by omega, by simp only [hl]⟩

theorem sources_tokensFrom (afterMatch : Bool) {skip : Nat} (before : List α) {after : List α}
    (h : skip ≤ after.length) : Token.sources (m.tokensFrom repl afterMatch skip before after) = after.drop skip := by
  induction after generalizing afterMatch skip before with
  | nil =>
    rw [tokensFrom, List.drop_nil]
    cases m.find before [] with
    | none => rfl
    | some found => cases afterMatch <;> rfl
  | cons a after ih =>
    cases skip with
    | succ skip => exact ih true (a :: before) (Nat.le_of_succ_le_succ h)
    | zero =>
      have hkept : Token.sources (m.tokensFrom repl false 0 (a :: before) after) = after :=
        ih false (a :: before) (Nat.zero_le _)
      rcases m.tokensFrom_cons repl afterMatch before a after with
        ⟨-, heq⟩ | ⟨found, -, -, heq⟩ | ⟨found, n, -, -, hn, heq⟩
      · rw [heq, Token.sources_cons, hkept]
        rfl
      · rw [heq]
        cases afterMatch <;> simp [Token.source, hkept]
      · rw [heq, Token.sources_cons, ih true (a :: before) hn]
        simp [Token.source]

@[simp] theorem sources_tokens (text : List α) : Token.sources (m.tokens repl text) = text :=
  m.sources_tokensFrom repl false [] (Nat.zero_le _)

theorem mem_tokensFrom_put {afterMatch : Bool} {skip : Nat} {before after source text : List α}
    (h : .put source text ∈ m.tokensFrom repl afterMatch skip before after) : ∃ found, text = repl source found := by
  induction after generalizing afterMatch skip before with
  | nil =>
    rw [tokensFrom] at h
    cases hf : m.find before [] with
    | none => simp [hf] at h
    | some found =>
      obtain ⟨-, rfl, rfl⟩ : afterMatch = false ∧ source = [] ∧ text = repl [] found := by simpa [hf] using h
      exact ⟨found, rfl⟩
  | cons a after ih =>
    cases skip with
    | succ skip => exact ih h
    | zero =>
      rcases m.tokensFrom_cons repl afterMatch before a after with
        ⟨-, heq⟩ | ⟨found, -, -, heq⟩ | ⟨found, n, -, -, -, heq⟩
      all_goals rw [heq] at h
      · exact ih (by simpa using h)
      · rcases List.mem_append.1 h with h | h
        · obtain ⟨-, rfl, rfl⟩ : afterMatch = false ∧ source = [] ∧ text = repl [] found := by simpa using h
          exact ⟨found, rfl⟩
        · exact ih (by simpa using h)
      · rcases List.mem_cons.1 h with h | h
        · cases h
          exact ⟨found, rfl⟩
        · exact ih h

def endsWithPut (tokens : List (Token α)) : Bool := tokens.getLast?.any (!·.isKept)

theorem endsWithPut_cons {t : Token α} {ts : List (Token α)} (h : endsWithPut ts) : endsWithPut (t :: ts) := by
  cases ts with
  | nil => cases h
  | cons u ts => rwa [endsWithPut, List.getLast?_cons_cons]

theorem find_eq_some_from {afterMatch : Bool} {skip : Nat} {before after : List α} (hskip : skip ≤ after.length)
    {left right : List (Token α)} (h : m.tokensFrom repl afterMatch skip before after = left ++ right)
    (hright : right.head?.all Token.isKept) {found : Found α}
    (hfind : m.find ((after.take skip ++ Token.sources left).reverse ++ before) (Token.sources right) = some found) :
    found.length = 0 ∧ (left = [] ∧ (afterMatch ∨ 0 < skip) ∨ endsWithPut left) := by
  induction after generalizing afterMatch skip before left with
  | nil =>
    obtain rfl : skip = 0 := Nat.le_zero.1 hskip
    rw [tokensFrom] at h
    cases hf : m.find before [] with
    | none =>
      obtain ⟨rfl, rfl⟩ : left = [] ∧ right = [] := by simpa [hf, eq_comm] using h
      simp [hf] at hfind
    | some found' =>
      have hempty : found'.length = 0 := Nat.le_zero.1 (m.fits hf)
      cases afterMatch with
      | true =>
        obtain ⟨rfl, rfl⟩ : left = [] ∧ right = [] := by simpa [hf, eq_comm] using h
        obtain rfl : found' = found := by simpa [hf] using hfind
        exact ⟨hempty, .inl ⟨rfl, .inl rfl⟩⟩
      | false =>
        simp only [hf] at h
        rcases List.cons_eq_append_iff.1 h with ⟨-, rfl⟩ | ⟨left', rfl, h'⟩
        · simp [Token.isKept] at hright
        · obtain ⟨rfl, rfl⟩ : left' = [] ∧ right = [] := by simpa using h'.symm
          obtain rfl : found' = found := by simpa [hf, Token.source] using hfind
          exact ⟨hempty, .inr rfl⟩
  | cons a after ih =>
    cases skip with
    | succ skip =>
      obtain ⟨hempty, hleft⟩ := ih (Nat.le_of_succ_le_succ hskip) h (by simpa using hfind)
      exact ⟨hempty, hleft.imp_left fun hl => ⟨hl.1, .inr (Nat.succ_pos skip)⟩⟩
    | zero =>
      -- The place after a kept element, whatever the pass did before it.
      have hkept : ∀ left', m.tokensFrom repl false 0 (a :: before) after = left' ++ right →
          m.find ((a :: Token.sources left').reverse ++ before) (Token.sources right) = some found →
          found.length = 0 ∧ endsWithPut (.kept a :: left') := by
        intro left' h' hfind'
        obtain ⟨hempty, hleft⟩ := ih (Nat.zero_le _) h' (by simpa using hfind')
        exact ⟨hempty, endsWithPut_cons (hleft.resolve_left fun hl => by simp at hl)⟩
      rcases m.tokensFrom_cons repl afterMatch before a after with
        ⟨hf, heq⟩ | ⟨found', hf, hempty, heq⟩ | ⟨found', n, -, -, hn, heq⟩
      · rw [heq] at h
        rcases List.cons_eq_append_iff.1 h with ⟨rfl, rfl⟩ | ⟨left', rfl, h'⟩
        · simp [Token.source, m.sources_tokensFrom repl false (a :: before) (Nat.zero_le _), hf] at hfind
        · exact (hkept left' h' (by simpa [Token.source] using hfind)).imp_right .inr
      · rw [heq] at h
        have hsources := m.sources_tokensFrom repl false (a :: before) (Nat.zero_le after.length)
        cases afterMatch with
        | true =>
          rcases List.cons_eq_append_iff.1 h with ⟨rfl, rfl⟩ | ⟨left', rfl, h'⟩
          · obtain rfl : found' = found := by simpa [Token.source, hsources, hf] using hfind
            exact ⟨hempty, .inl ⟨rfl, .inl rfl⟩⟩
          · exact (hkept left' h' (by simpa [Token.source] using hfind)).imp_right .inr
        | false =>
          rcases List.cons_eq_append_iff.1 h with ⟨-, rfl⟩ | ⟨left', rfl, h'⟩
          · simp [Token.isKept] at hright
          · rcases List.cons_eq_append_iff.1 h' with ⟨rfl, rfl⟩ | ⟨left'', rfl, h''⟩
            · obtain rfl : found' = found := by simpa [Token.source, hsources, hf] using hfind
              exact ⟨hempty, .inr rfl⟩
            · exact (hkept left'' h'' (by simpa [Token.source] using hfind)).imp_right
                fun hput => .inr (endsWithPut_cons hput)
      · rw [heq] at h
        rcases List.cons_eq_append_iff.1 h with ⟨-, rfl⟩ | ⟨left', rfl, h'⟩
        · simp [Token.isKept] at hright
        · obtain ⟨hempty, hleft⟩ := ih hn h' (by simpa [Token.source] using hfind)
          rcases hleft with ⟨rfl, -⟩ | hput
          · exact ⟨hempty, .inr rfl⟩
          · exact ⟨hempty, .inr (endsWithPut_cons hput)⟩

theorem head_tokensFrom {afterMatch : Bool} {skip : Nat} {before after : List α} (hskip : skip ≤ after.length)
    (h : afterMatch ∨ 0 < skip) {t : Token α} {rest : List (Token α)}
    (heq : m.tokensFrom repl afterMatch skip before after = t :: rest) : t.isKept ∨ t.source ≠ [] := by
  induction after generalizing afterMatch skip before with
  | nil =>
    obtain rfl : skip = 0 := Nat.le_zero.1 hskip
    obtain rfl : afterMatch = true := by simpa using h
    rw [tokensFrom] at heq
    cases hf : m.find before [] <;> simp [hf] at heq
  | cons a after ih =>
    cases skip with
    | succ skip => exact ih (Nat.le_of_succ_le_succ hskip) (.inl rfl) heq
    | zero =>
      obtain rfl : afterMatch = true := by simpa using h
      rcases m.tokensFrom_cons repl true before a after with ⟨-, h'⟩ | ⟨found, -, -, h'⟩ | ⟨found, n, -, -, -, h'⟩
      all_goals
        rw [h'] at heq
        obtain ⟨rfl, -⟩ := List.cons.inj heq
      · exact .inl rfl
      · exact .inl rfl
      · exact .inr (by simp [Token.source])

theorem source_ne_nil_from {afterMatch : Bool} {skip : Nat} {before after : List α} {left right : List (Token α)}
    {t u : Token α} (h : m.tokensFrom repl afterMatch skip before after = left ++ t :: u :: right)
    (ht : t.isKept = false) (hu : u.isKept = false) : t.source ≠ [] ∧ u.source ≠ [] := by
  induction after generalizing afterMatch skip before left with
  | nil =>
    have hlength := congrArg List.length h
    rw [tokensFrom, List.length_append, List.length_cons, List.length_cons] at hlength
    cases hf : m.find before [] <;> cases afterMatch <;> simp [hf] at hlength
    omega
  | cons a after ih =>
    cases skip with
    | succ skip => exact ih h
    | zero =>
      have hkept : ∀ left', .kept a :: m.tokensFrom repl false 0 (a :: before) after = left' ++ t :: u :: right →
          t.source ≠ [] ∧ u.source ≠ [] := by
        intro left' h'
        rcases List.cons_eq_append_iff.1 h' with ⟨-, h'⟩ | ⟨left'', -, h''⟩
        · obtain ⟨rfl, -⟩ := List.cons.inj h'
          cases ht
        · exact ih h''
      rcases m.tokensFrom_cons repl afterMatch before a after with
        ⟨-, heq⟩ | ⟨found, -, -, heq⟩ | ⟨found, n, -, -, hn, heq⟩
      · exact hkept left (heq.symm.trans h)
      · rw [heq] at h
        cases afterMatch with
        | true => exact hkept left h
        | false =>
          rcases List.cons_eq_append_iff.1 h with ⟨-, h'⟩ | ⟨left', -, h'⟩
          · obtain ⟨-, h'⟩ := List.cons.inj h'
            obtain ⟨rfl, -⟩ := List.cons.inj h'
            cases hu
          · exact hkept left' h'
      · rw [heq] at h
        rcases List.cons_eq_append_iff.1 h with ⟨-, h'⟩ | ⟨left', -, h'⟩
        · obtain ⟨rfl, hrest⟩ := List.cons.inj h'
          refine ⟨by simp [Token.source], ?_⟩
          exact (m.head_tokensFrom repl hn (.inl rfl) hrest.symm).resolve_left (by simp [hu])
        · exact ih h'

theorem isolated_tokens (text : List α) : Token.Isolated (m.tokens repl text) :=
  fun _ _ _ _ h ht hu => m.source_ne_nil_from repl h ht hu

/-- No match starts between two kept elements, before a kept first one or after a kept last one. -/
theorem find_eq_none {text : List α} {left right : List (Token α)} (h : m.tokens repl text = left ++ right)
    (hleft : endsWithPut left = false) (hright : right.head?.all Token.isKept) :
    m.find (Token.sources left).reverse (Token.sources right) = none := by
  refine Option.eq_none_iff_forall_ne_some.2 fun found hfind => ?_
  obtain ⟨-, hl⟩ := m.find_eq_some_from repl (Nat.zero_le _) h hright (by simpa using hfind)
  simp [hleft] at hl

theorem length_eq_zero_of_find {text : List α} {left right : List (Token α)} (h : m.tokens repl text = left ++ right)
    (hright : right.head?.all Token.isKept) {found : Found α}
    (hfind : m.find (Token.sources left).reverse (Token.sources right) = some found) : found.length = 0 :=
  (m.find_eq_some_from repl (Nat.zero_le _) h hright (by simpa using hfind)).1

end Matcher

/-! ## Several passes -/

/-- Passes over a text, each over what the one before it left. -/
inductive Passes {α : Type} : List α → List (List (Token α)) → List α → Prop
  | nil (text : List α) : Passes text [] text
  | cons {tokens : List (Token α)} {passes : List (List (Token α))} {result : List α} :
    Passes (Token.texts tokens) passes result → Passes (Token.sources tokens) (tokens :: passes) result

/-- The passes keep a stretch: before them it stands between `left` and `right`, after them between `left'` and
`right'`. With `first` nothing is put before it, so that it starts the text, and with `last` nothing after it. -/
inductive Carried {α : Type} (first last : Bool) (stretch : List α) :
    List (List (Token α)) → List α → List α → List α → List α → Prop
  | nil {left right : List α} : (first → left = []) → (last → right = []) →
    Carried first last stretch [] left right left right
  | cons {before after : List (Token α)} {passes : List (List (Token α))} {left' right' : List α} :
    (first → before = []) → (last → after = []) →
    Carried first last stretch passes (Token.texts before) (Token.texts after) left' right' →
    Carried first last stretch ((before ++ stretch.map .kept ++ after) :: passes)
      (Token.sources before) (Token.sources after) left' right'

namespace Carried

variable {α : Type} {first last : Bool} {stretch left right left' right' : List α} {passes : List (List (Token α))}

theorem exists_tokens {tokens : List (Token α)}
    (h : Carried first last stretch (tokens :: passes) left right left' right') :
    ∃ before after, tokens = before ++ stretch.map .kept ++ after ∧ left = Token.sources before ∧
      right = Token.sources after ∧ (first → before = []) ∧ (last → after = []) := by
  cases h with
  | @cons before after _ _ _ hbefore hafter _ => exact ⟨before, after, rfl, rfl, rfl, hbefore, hafter⟩

theorem left_eq_nil (h : Carried first last stretch passes left right left' right') (hfirst : first) :
    left = [] ∧ left' = [] := by
  induction h with
  | nil hl _ => exact ⟨hl hfirst, hl hfirst⟩
  | cons hb _ _ ih => exact ⟨by rw [hb hfirst, Token.sources_nil], ih.2⟩

theorem right_eq_nil (h : Carried first last stretch passes left right left' right') (hlast : last) :
    right = [] ∧ right' = [] := by
  induction h with
  | nil _ hr => exact ⟨hr hlast, hr hlast⟩
  | cons _ ha _ ih => exact ⟨by rw [ha hlast, Token.sources_nil], ih.2⟩

end Carried

/-- A match in the result that lies in a stretch the passes keep; an inner one has a kept element or an end of the text
on either side. -/
def KeptMatch {α : Type} (m : Matcher α) (passes : List (List (Token α))) (result : List α) (inner : Bool) : Prop :=
  ∃ first last x middle y left right left' right' found,
    Carried first last (x ++ middle ++ y) passes left right left' right' ∧
      result = left' ++ x ++ (middle ++ (y ++ right')) ∧
      m.find (left' ++ x).reverse (middle ++ (y ++ right')) = some found ∧ found.length = middle.length ∧
      (inner → (x ≠ [] ∨ first) ∧ (y ≠ [] ∨ last))

/-- What matches does not depend on what stands beside it, and is not empty. -/
structure Matcher.Free {α : Type} (m : Matcher α) : Prop where
  anywhere : ∀ {before before' stretch after after' : List α} {found : Found α},
    m.find before (stretch ++ after) = some found → found.length = stretch.length →
      (m.find before' (stretch ++ after')).isSome
  ne_zero : ∀ {before after : List α} {found : Found α}, m.find before after = some found → found.length ≠ 0

section KeptMatch

variable {α : Type} {m : Matcher α} {repl : List α → Found α → List α} {text result : List α}
  {passes : List (List (Token α))}

/-- No inner match lies in a stretch that the pass for its matcher and all later ones keep. -/
theorem not_keptMatch_inner : ¬ KeptMatch m (m.tokens repl text :: passes) result true := by
  rintro ⟨first, last, x, middle, y, left, right, left', right', found, h, -, hfind, hlength, hinner⟩
  obtain ⟨hx, hy⟩ := hinner rfl
  have hleft : (left ++ x).reverse.head? = (left' ++ x).reverse.head? := by
    rcases hx with hx | hfirst
    · obtain ⟨x, a, rfl⟩ := (List.eq_nil_or_concat x).resolve_left hx
      simp
    · rw [(h.left_eq_nil hfirst).1, (h.left_eq_nil hfirst).2]
  have hright : (y ++ right).head? = (y ++ right').head? := by
    rcases hy with hy | hlast
    · obtain ⟨b, y, rfl⟩ := List.exists_cons_of_ne_nil hy
      rfl
    · rw [(h.right_eq_nil hlast).1, (h.right_eq_nil hlast).2]
  -- The stretch that matches stood between the same elements in the text of the first pass.
  have hsome := m.near hfind hlength hleft hright
  obtain ⟨before, after, htokens, rfl, rfl, hbefore, hafter⟩ := h.exists_tokens
  have hsplit : m.tokens repl text = (before ++ x.map .kept) ++ ((middle ++ y).map .kept ++ after) := by
    simp [htokens]
  have hkeptLeft : Matcher.endsWithPut (before ++ x.map Token.kept) = false := by
    rcases hx with hx | hfirst
    · obtain ⟨x, a, rfl⟩ := (List.eq_nil_or_concat x).resolve_left hx
      simp [Matcher.endsWithPut, ← List.append_assoc, Token.isKept]
    · rw [hbefore hfirst]
      cases hl : x.getLast? <;> simp [Matcher.endsWithPut, hl, Token.isKept]
  have hkeptRight : ((middle ++ y).map Token.kept ++ after).head?.all Token.isKept := by
    cases hm : middle ++ y with
    | cons b rest => rfl
    | nil =>
      -- An empty match at the end of the stretch is one at the end of the text.
      have hlast : last := hy.resolve_left fun hy => hy (List.append_eq_nil_iff.1 hm).2
      rw [hafter hlast]
      rfl
  have hnone := m.find_eq_none repl hsplit hkeptLeft hkeptRight
  simp only [Token.sources_append, Token.sources_kept, List.append_assoc] at hnone
  rw [hnone] at hsome
  exact absurd hsome (by simp)

theorem Matcher.Free.not_keptMatch (hfree : m.Free) : ¬ KeptMatch m (m.tokens repl text :: passes) result false := by
  rintro ⟨first, last, x, middle, y, left, right, left', right', found, h, -, hfind, hlength, -⟩
  have hsome : (m.find (left ++ x).reverse (middle ++ (y ++ right))).isSome := hfree.anywhere hfind hlength
  obtain ⟨before, after, htokens, rfl, rfl, -, -⟩ := h.exists_tokens
  have hsplit : m.tokens repl text = (before ++ x.map .kept) ++ ((middle ++ y).map .kept ++ after) := by
    simp [htokens]
  have hne : middle ≠ [] := by
    rintro rfl
    exact hfree.ne_zero hfind hlength
  obtain ⟨b, middle, rfl⟩ := List.exists_cons_of_ne_nil hne
  obtain ⟨found', hfound'⟩ := Option.isSome_iff_exists.1 hsome
  refine hfree.ne_zero hfound' (m.length_eq_zero_of_find repl hsplit rfl ?_)
  simpa [Token.source] using hfound'

end KeptMatch

end Jupiter.Lib.Rewrite
