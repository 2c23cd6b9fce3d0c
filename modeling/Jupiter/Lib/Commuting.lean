/-
Passes over one text in any order.

The order does not matter where the passes are independent: the text can be marked beforehand with what each pass will
put where, and whichever passes have gone ahead, the next one finds just the places marked as its own.
Then every order leaves the same text (`Independent.run_eq`), and what a pass found survives exactly where it is put
back as it was (`Independent.noSurvivor_iff`).
-/
import Jupiter.Lib.Rewrite

namespace Jupiter.Lib.Rewrite

/-- A part of a text: an element, or a stretch with the pass that owns it and what that pass puts there. -/
inductive Mark (ι α : Type) where
  | kept (a : α)
  | owned (owner : ι) (source text : List α)

variable {ι α : Type} [DecidableEq ι]

namespace Mark

def now (applied : ι → Bool) : Mark ι α → List α
  | kept a => [a]
  | owned owner source text => if applied owner then text else source

def pass (i : ι) (applied : ι → Bool) : Mark ι α → List (Token α)
  | kept a => [.kept a]
  | owned owner source text =>
    if owner = i then [.put source text] else ((owned owner source text).now applied).map .kept

end Mark

def textOf (applied : ι → Bool) (marks : List (Mark ι α)) : List α := marks.flatMap (Mark.now applied)

def passOver (i : ι) (applied : ι → Bool) (marks : List (Mark ι α)) : List (Token α) :=
  marks.flatMap (Mark.pass i applied)

def andThen (applied : ι → Bool) (i : ι) : ι → Bool := fun j => applied j || decide (j = i)

theorem sources_pass {i : ι} {applied : ι → Bool} (hi : applied i = false) (mark : Mark ι α) :
    Token.sources (mark.pass i applied) = mark.now applied := by
  cases mark with
  | kept a => rfl
  | owned owner source text =>
    by_cases ho : owner = i
    · simp [Mark.pass, Mark.now, ho, hi, Token.source]
    · simp [Mark.pass, ho]

theorem texts_pass (i : ι) (applied : ι → Bool) (mark : Mark ι α) :
    Token.texts (mark.pass i applied) = mark.now (andThen applied i) := by
  cases mark with
  | kept a => rfl
  | owned owner source text =>
    by_cases ho : owner = i
    · simp [Mark.pass, Mark.now, andThen, ho, Token.text]
    · simp [Mark.pass, Mark.now, andThen, ho]

theorem sources_passOver {i : ι} {applied : ι → Bool} (hi : applied i = false) (marks : List (Mark ι α)) :
    Token.sources (passOver i applied marks) = textOf applied marks := by
  induction marks with
  | nil => rfl
  | cons mark marks ih =>
    rw [passOver, List.flatMap_cons, Token.sources_append, sources_pass hi, ← passOver, ih]
    rfl

theorem texts_passOver (i : ι) (applied : ι → Bool) (marks : List (Mark ι α)) :
    Token.texts (passOver i applied marks) = textOf (andThen applied i) marks := by
  induction marks with
  | nil => rfl
  | cons mark marks ih =>
    rw [passOver, List.flatMap_cons, Token.texts_append, texts_pass, ← passOver, ih]
    rfl

theorem eq_owned_of_pass {i : ι} {applied : ι → Bool} {mark : Mark ι α} {before after : List (Token α)}
    {source put : List α} (h : mark.pass i applied = before ++ .put source put :: after) :
    mark = .owned i source put ∧ before = [] ∧ after = [] := by
  have hmem : .put source put ∈ mark.pass i applied := by
    rw [h]
    simp
  cases mark with
  | kept a => simp [Mark.pass] at hmem
  | owned owner source' text =>
    by_cases ho : owner = i
    · simp only [Mark.pass, if_pos ho] at h hmem
      obtain ⟨rfl, rfl⟩ : source = source' ∧ put = text := by simpa using hmem
      have hlength := congrArg List.length h
      simp only [List.length_append, List.length_cons, List.length_nil] at hlength
      exact ⟨by rw [ho], List.length_eq_zero_iff.1 (by omega), List.length_eq_zero_iff.1 (by omega)⟩
    · simp [Mark.pass, ho] at hmem

theorem exists_owned {i : ι} {applied : ι → Bool} {marks : List (Mark ι α)} {before after : List (Token α)}
    {source put : List α} (h : passOver i applied marks = before ++ .put source put :: after) :
    ∃ left right, marks = left ++ .owned i source put :: right ∧ before = passOver i applied left ∧
      after = passOver i applied right := by
  induction marks generalizing before with
  | nil => simp [passOver] at h
  | cons mark marks ih =>
    have hsplit : mark.pass i applied ++ passOver i applied marks = before ++ .put source put :: after := h
    rcases List.append_eq_append_iff.1 hsplit with ⟨before', rfl, hrest⟩ | ⟨rest, hmark, hrest⟩
    · obtain ⟨left, right, rfl, rfl, rfl⟩ := ih hrest
      exact ⟨mark :: left, right, rfl, rfl, rfl⟩
    · rcases List.cons_eq_append_iff.1 hrest with ⟨rfl, hmarks⟩ | ⟨rest, rfl, hafter⟩
      · rw [← List.nil_append (Token.put source put :: after)] at hmarks
        obtain ⟨left, right, rfl, hleft, rfl⟩ := ih hmarks
        refine ⟨mark :: left, right, rfl, ?_, rfl⟩
        rw [List.append_nil] at hmark
        rw [← hmark, passOver, List.flatMap_cons, ← passOver, ← hleft, List.append_nil]
      · obtain ⟨rfl, rfl, rfl⟩ := eq_owned_of_pass hmark
        exact ⟨[], marks, rfl, rfl, hafter⟩

/-! ## Runs -/

abbrev Order (ι α : Type) := List (ι × (List α → List (Token α)))

def runPasses (order : Order ι α) (text : List α) : List α := order.foldl (fun text e => Token.texts (e.2 text)) text

def tracePasses : Order ι α → List α → List (List (Token α))
  | [], _ => []
  | e :: order, text => e.2 text :: tracePasses order (Token.texts (e.2 text))

omit [DecidableEq ι] in

/-- The passes keep a stretch that stands between `left` and `right`, or put it back as it was. -/
inductive Survives (stretch : List α) : List (List (Token α)) → List α → List α → Prop
  | nil (left right : List α) : Survives stretch [] left right
  | cons {before inside after : List (Token α)} {passes : List (List (Token α))} :
    Token.sources inside = stretch → Token.texts inside = stretch →
    Survives stretch passes (Token.texts before) (Token.texts after) →
    Survives stretch ((before ++ inside ++ after) :: passes) (Token.sources before) (Token.sources after)

def NoSurvivor (entries : Order ι α) (text : List α) (passes : List (List (Token α))) : Prop :=
  ∀ e ∈ entries, ∀ before source put after,
    e.2 text = before ++ .put source put :: after → source ≠ [] →
      ¬ Survives source passes (Token.sources before) (Token.sources after)

structure Independent (entries : Order ι α) (text : List α) (marks : List (Mark ι α)) : Prop where
  start : textOf (fun _ => false) marks = text
  pass : ∀ e ∈ entries, ∀ applied : ι → Bool, applied e.1 = false →
    e.2 (textOf applied marks) = passOver e.1 applied marks
  owners : ∀ owner source put, .owned owner source put ∈ marks → owner ∈ entries.map Prod.fst

/-- Nothing is put back as it was. -/
def Changed (marks : List (Mark ι α)) : Prop :=
  ∀ owner source put, .owned owner source put ∈ marks → source ≠ [] → put ≠ source

/-! ## One stretch of a pass -/

theorem exists_eq_of_sources {before inside after left mid right : List (Token α)}
    (h : before ++ inside ++ after = left ++ mid ++ right) (hleft : Token.sources before = Token.sources left)
    (hmid : Token.sources inside = Token.sources mid) (hne : mid ≠ [])
    (hhead : ∀ t ∈ mid.head?, t.source ≠ []) (hlast : ∀ t ∈ mid.getLast?, t.source ≠ []) :
    ∃ z z', left = before ++ z ∧ inside = z ++ mid ++ z' ∧ right = z' ++ after ∧
      Token.sources z = [] ∧ Token.sources z' = [] := by
  have hstart : ∃ z, left = before ++ z ∧ inside ++ after = z ++ mid ++ right ∧ Token.sources z = [] := by
    rw [List.append_assoc, List.append_assoc] at h
    rcases List.append_eq_append_iff.1 h with ⟨z, rfl, h'⟩ | ⟨z, rfl, h'⟩
    · exact ⟨z, rfl, by rw [h', List.append_assoc], by simpa using hleft⟩
    · have hz : Token.sources z = [] := by simpa using hleft
      cases z with
      | nil => exact ⟨[], by simp, by simpa using h'.symm, rfl⟩
      | cons t z =>
        -- The first token of the middle would have an empty source.
        obtain ⟨u, mid, rfl⟩ := List.exists_cons_of_ne_nil hne
        obtain ⟨rfl, -⟩ := List.cons.inj h'
        exact absurd (List.append_eq_nil_iff.1 hz).1 (hhead _ rfl)
  obtain ⟨z, hz, h', hzsources⟩ := hstart
  rcases List.append_eq_append_iff.1 h' with ⟨y, hy, rfl⟩ | ⟨z', rfl, rfl⟩
  · have hysources : Token.sources y = [] := by
      have hsum := congrArg Token.sources hy
      simpa [hzsources, hmid] using hsum
    rcases List.eq_nil_or_concat y with rfl | ⟨y, t, rfl⟩
    · exact ⟨z, [], hz, by simpa using hy.symm, by simp, hzsources, rfl⟩
    · obtain ⟨mid, u, rfl⟩ := (List.eq_nil_or_concat mid).resolve_left hne
      obtain ⟨-, rfl⟩ : _ ∧ u = t := by simpa [← List.append_assoc] using hy
      simp only [List.concat_eq_append, Token.sources_append, List.append_eq_nil_iff] at hysources
      exact absurd (by simpa using hysources.2) (hlast u (by simp))
  · exact ⟨z, z', hz, rfl, rfl, hzsources, by simpa [hzsources] using hmid⟩

theorem source_ne_nil_of_mem_kept {l : List α} {t : Token α} (h : t ∈ l.map .kept) : t.source ≠ [] := by
  obtain ⟨a, -, rfl⟩ := List.mem_map.1 h
  simp [Token.source]

theorem isKept_of_source_eq_nil {t : Token α} (h : t.source = []) : t.isKept = false := by
  cases t with
  | kept a => cases h
  | put source text => rfl

theorem eq_nil_of_isolated {left z z' right : List (Token α)} {t : Token α}
    (h : Token.Isolated (left ++ (z ++ [t] ++ z') ++ right)) (ht : t.isKept = false) (hz : Token.sources z = [])
    (hz' : Token.sources z' = []) : z = [] ∧ z' = [] := by
  constructor
  · rcases List.eq_nil_or_concat z with rfl | ⟨z, u, rfl⟩
    · rfl
    · have hu : u.source = [] := by simpa using (List.append_eq_nil_iff.1 (by simpa using hz)).2
      exact absurd hu (h (left ++ z) (z' ++ right) u t (by simp) (isKept_of_source_eq_nil hu) ht).1
  · cases z' with
    | nil => rfl
    | cons u z' =>
      have hu : u.source = [] := (List.append_eq_nil_iff.1 hz').1
      exact absurd hu (h (left ++ z) (z' ++ right) t u (by simp) ht (isKept_of_source_eq_nil hu)).2

/-! ## Every order -/

theorem andThen_foldl (order : Order ι α) (applied : ι → Bool) (i : ι) :
    order.foldl (fun applied e => andThen applied e.1) applied i = (applied i || decide (i ∈ order.map Prod.fst)) := by
  induction order generalizing applied with
  | nil => simp
  | cons e order ih =>
    rw [List.foldl_cons, ih, andThen, List.map_cons, Bool.or_assoc, ← Bool.decide_or]
    exact congrArg _ (decide_eq_decide.2 List.mem_cons.symm)

section Independent

variable {entries order : Order ι α} {text : List α} {marks : List (Mark ι α)} {applied : ι → Bool}
  {e : ι × (List α → List (Token α))}

/-- The passes of the order that are still to come, after those in `applied`. -/
structure Ahead (entries order : Order ι α) (applied : ι → Bool) : Prop where
  mem : ∀ e ∈ order, e ∈ entries
  nodup : (order.map Prod.fst).Nodup
  fresh : ∀ e ∈ order, applied e.1 = false

theorem Ahead.tail (h : Ahead entries (e :: order) applied) :
    Ahead entries order (andThen applied e.1) where
  mem e' he' := h.mem e' (List.mem_cons_of_mem _ he')
  nodup := (List.nodup_cons.1 h.nodup).2
  fresh e' he' := by
    have hne : e'.1 ≠ e.1 := fun heq => (List.nodup_cons.1 h.nodup).1 (heq ▸ List.mem_map_of_mem he')
    simp [andThen, h.fresh e' (List.mem_cons_of_mem _ he'), hne]

omit [DecidableEq ι] in
theorem ahead_of_perm (hnodup : (entries.map Prod.fst).Nodup) (h : order.Perm entries) :
    Ahead entries order fun _ => false :=
  ⟨fun _ he => h.mem_iff.1 he, (h.map Prod.fst).nodup_iff.2 hnodup, fun _ _ => rfl⟩

namespace Independent

variable (hind : Independent entries text marks)
include hind

theorem pass_ahead (h : Ahead entries (e :: order) applied) :
    e.2 (textOf applied marks) = passOver e.1 applied marks ∧
      Token.texts (e.2 (textOf applied marks)) = textOf (andThen applied e.1) marks := by
  have hpass := hind.pass e (h.mem e List.mem_cons_self) applied (h.fresh e List.mem_cons_self)
  exact ⟨hpass, by rw [hpass, texts_passOver]⟩

theorem pass_ahead_split (h : Ahead entries (e :: order) applied) {left right : List (Mark ι α)} {mark : Mark ι α}
    (hmarks : marks = left ++ mark :: right) : e.2 (textOf applied marks) =
      passOver e.1 applied left ++ mark.pass e.1 applied ++ passOver e.1 applied right := by
  rw [(hind.pass_ahead h).1, hmarks]
  simp [passOver]

theorem run_ahead (h : Ahead entries order applied) :
    runPasses order (textOf applied marks) =
      textOf (order.foldl (fun applied e => andThen applied e.1) applied) marks := by
  induction order generalizing applied with
  | nil => rfl
  | cons e order ih =>
    rw [runPasses, List.foldl_cons, (hind.pass_ahead h).2, ← runPasses, ih h.tail]
    rfl

/-- Every order leaves the text with everything put in that is marked. -/
theorem run_eq (hnodup : (entries.map Prod.fst).Nodup) (h : order.Perm entries) :
    runPasses order text = textOf (fun i => decide (i ∈ entries.map Prod.fst)) marks := by
  rw [← hind.start, hind.run_ahead (ahead_of_perm hnodup h)]
  congr 1
  funext i
  rw [andThen_foldl, Bool.false_or]
  exact decide_eq_decide.2 (h.map Prod.fst).mem_iff

theorem survives_of_eq {left right : List (Mark ι α)} {owner : ι} {source : List α}
    (hmarks : marks = left ++ .owned owner source source :: right)
    (h : Ahead entries order applied) :
    Survives source (tracePasses order (textOf applied marks)) (textOf applied left) (textOf applied right) := by
  induction order generalizing applied with
  | nil => exact .nil _ _
  | cons e order ih =>
    have hfresh := h.fresh e List.mem_cons_self
    have hnow : ∀ applied' : ι → Bool, (Mark.owned owner source source).now applied' = source := by
      intro applied'
      simp [Mark.now]
    rw [tracePasses, (hind.pass_ahead h).2, hind.pass_ahead_split h hmarks, ← sources_passOver hfresh left,
      ← sources_passOver hfresh right]
    refine .cons (by rw [sources_pass hfresh, hnow]) (by rw [texts_pass, hnow]) ?_
    rw [texts_passOver, texts_passOver]
    exact ih h.tail

theorem not_survives (hisolated : ∀ e ∈ entries, ∀ text, Token.Isolated (e.2 text)) {left right : List (Mark ι α)}
    {owner : ι} {source put : List α} (hmarks : marks = left ++ .owned owner source put :: right)
    (hsource : source ≠ []) (hput : put ≠ source) (h : Ahead entries order applied)
    (howner : owner ∈ order.map Prod.fst) :
    ¬ Survives source (tracePasses order (textOf applied marks)) (textOf applied left) (textOf applied right) := by
  induction order generalizing applied with
  | nil => cases howner
  | cons e order ih =>
    intro hs
    have hfresh := h.fresh e List.mem_cons_self
    have hsplit := hind.pass_ahead_split h hmarks
    rw [tracePasses, (hind.pass_ahead h).2] at hs
    generalize htokens : e.2 (textOf applied marks) = tokens at hs
    generalize hl : textOf applied left = l at hs
    generalize hr : textOf applied right = r at hs
    cases hs with
    | @cons before inside after _ hsources htexts' hrest =>
      have hleft : Token.sources before = Token.sources (passOver e.1 applied left) := by
        rw [sources_passOver hfresh, hl]
      have heq := htokens.symm.trans hsplit
      by_cases hown : owner = e.1
      · have hmark : (Mark.owned owner source put).pass e.1 applied = [.put source put] := by simp [Mark.pass, hown]
        rw [hmark] at heq
        obtain ⟨z, z', -, rfl, -, hz, hz'⟩ := exists_eq_of_sources heq hleft (by simpa [Token.source] using hsources)
          (by simp) (by simpa [Token.source] using hsource) (by simpa [Token.source] using hsource)
        have hisolated' := hisolated e (h.mem e List.mem_cons_self) (textOf applied marks)
        rw [htokens] at hisolated'
        obtain ⟨rfl, rfl⟩ := eq_nil_of_isolated hisolated' rfl hz hz'
        exact hput (by simpa [Token.text] using htexts')
      · have hmark : (Mark.owned owner source put).pass e.1 applied = source.map .kept := by
          have howned : applied owner = false := by
            obtain ⟨e', he', rfl⟩ := List.mem_map.1 howner
            exact h.fresh e' he'
          simp [Mark.pass, Mark.now, hown, howned]
        rw [hmark] at heq
        obtain ⟨z, z', hz, rfl, hz', -, -⟩ := exists_eq_of_sources heq hleft (by simpa using hsources)
          (by simpa using hsource) (fun t ht => source_ne_nil_of_mem_kept (List.mem_of_mem_head? ht))
          (fun t ht => source_ne_nil_of_mem_kept (List.mem_of_mem_getLast? ht))
        -- What is put in at the ends of the stretch is empty.
        obtain ⟨htz, htz'⟩ : Token.texts z = [] ∧ Token.texts z' = [] := by
          have hlength := congrArg List.length htexts'
          simp only [Token.texts_append, Token.texts_kept, List.length_append] at hlength
          exact ⟨List.length_eq_zero_iff.1 (by omega), List.length_eq_zero_iff.1 (by omega)⟩
        have hbefore : Token.texts before = textOf (andThen applied e.1) left := by
          rw [← texts_passOver, hz, Token.texts_append, htz, List.append_nil]
        have hafter : Token.texts after = textOf (andThen applied e.1) right := by
          rw [← texts_passOver, hz', Token.texts_append, htz', List.nil_append]
        rw [hbefore, hafter] at hrest
        exact ih h.tail ((List.mem_cons.1 howner).resolve_left hown) hrest

/-- Nothing that a pass finds survives exactly if nothing is put back as it was. -/
theorem noSurvivor_iff (hnodup : (entries.map Prod.fst).Nodup) (hperm : order.Perm entries)
    (hisolated : ∀ e ∈ entries, ∀ text, Token.Isolated (e.2 text)) :
    NoSurvivor entries text (tracePasses order text) ↔ Changed marks := by
  have hpass : ∀ e ∈ entries, e.2 text = passOver e.1 (fun _ => false) marks := fun e he => by
    rw [← hind.pass e he _ rfl, hind.start]
  constructor
  · rintro hno owner source put hmem hsource rfl
    obtain ⟨left, right, hmarks⟩ := List.append_of_mem hmem
    obtain ⟨e, he, rfl⟩ := List.mem_map.1 (hind.owners _ _ _ hmem)
    have hsplit : e.2 text = passOver e.1 (fun _ => false) left ++
        .put put put :: passOver e.1 (fun _ => false) right := by
      rw [hpass e he, hmarks]
      simp [passOver, Mark.pass]
    refine hno e he _ _ _ _ hsplit hsource ?_
    rw [sources_passOver rfl, sources_passOver rfl, ← hind.start]
    exact hind.survives_of_eq hmarks (ahead_of_perm hnodup hperm)
  · intro hchanged e he before source put after heq hsource
    rw [hpass e he] at heq
    obtain ⟨left, right, hmarks, rfl, rfl⟩ := exists_owned heq
    have hput := hchanged e.1 source put (by rw [hmarks]; simp) hsource
    have howner : e.1 ∈ order.map Prod.fst := List.mem_map_of_mem (hperm.mem_iff.2 he)
    rw [sources_passOver rfl, sources_passOver rfl, ← hind.start]
    exact hind.not_survives hisolated hmarks hsource hput (ahead_of_perm hnodup hperm) howner

end Independent

end Independent

end Jupiter.Lib.Rewrite
