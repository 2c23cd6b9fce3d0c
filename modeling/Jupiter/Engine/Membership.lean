/-
The operators that look into lists, `in`, `not_in` and `contains`, against equality.

`==` converts numbers before it compares them, `in` and `not_in` compare the elements as they are. `contains` never gets
to its element test: `toString` has a text for every value, so it looks for the text of the value in the text of the
list.
-/
import Jupiter.Engine.Matcher
import Jupiter.Lib.Joined

namespace Jupiter.Engine

open Jupiter.Go Jupiter.Mpl Jupiter.Lib

/-! ## Equality -/

/-- Two numbers that `float64` does not tell apart. -/
def NumericallyEqual (v w : Value) : Prop := ∃ q, convertToFloat64 v = some q ∧ convertToFloat64 w = some q

theorem convertToFloat64_of_deepEqual {v w : Value} (h : v.deepEqual w = true) :
    convertToFloat64 v = convertToFloat64 w := by
  cases v with
  | nil | bool | duration | time | string | slice | map | struct =>
    cases w <;> first | rfl | simp [Value.deepEqual] at h
  | ptr _ target => cases target <;> cases w <;> first | rfl | simp [Value.deepEqual] at h
  | int a | int64 a | uint64 a | float32 a | float64 a =>
    cases w <;> simp only [Value.deepEqual, Bool.false_eq_true, beq_iff_eq] at h
    rw [h]
  | integer j a =>
    cases w <;> simp only [Value.deepEqual, Bool.false_eq_true, Bool.and_eq_true, beq_iff_eq] at h
    rw [h.2]
    rfl

theorem eq_nil_of_isNil {v : Value} (h : v.isNil = true) : v = .nil := by
  cases v with
  | nil => rfl
  | _ => cases h

theorem deepEqual_of_isNil {v w : Value} (h : v.isNil = true ∨ w.isNil = true) :
    v.deepEqual w = (v.isNil && w.isNil) := by
  rcases h with h | h
  · obtain rfl := eq_nil_of_isNil h
    cases w <;> rfl
  · obtain rfl := eq_nil_of_isNil h
    cases v with
    | ptr _ target => cases target <;> rfl
    | _ => rfl

theorem not_numericallyEqual_of_isNil {v w : Value} (h : v.isNil = true ∨ w.isNil = true) :
    ¬NumericallyEqual v w := by
  rintro ⟨q, hv, hw⟩
  rcases h with h | h
  · rw [eq_nil_of_isNil h] at hv; cases hv
  · rw [eq_nil_of_isNil h] at hw; cases hw

theorem evaluateEqual_iff (v w : Value) :
    evaluateEqual v w = true ↔ v.deepEqual w = true ∨ NumericallyEqual v w := by
  by_cases hnil : v.isNil = true ∨ w.isNil = true
  · rw [or_iff_left (not_numericallyEqual_of_isNil hnil), deepEqual_of_isNil hnil]
    rcases hnil with h | h
    · cases hw : w.isNil <;> simp [evaluateEqual, h, hw]
    · cases hv : v.isNil <;> simp [evaluateEqual, h, hv]
  · obtain ⟨hv, hw⟩ := not_or.1 hnil
    simp only [evaluateEqual, hv, hw, Bool.and_self, Bool.or_self, Bool.false_eq_true, if_false]
    split
    · rename_i a e ha he
      -- Identical numbers convert to the same number, so for numbers the second case covers the first.
      have hsame : v.deepEqual w = true → a = e := fun h =>
        Option.some.inj (ha.symm.trans ((convertToFloat64_of_deepEqual h).trans he))
      constructor
      · intro h
        exact .inr ⟨a, ha, by rw [he, of_decide_eq_true h]⟩
      · rintro (h | ⟨q, hq, hq'⟩)
        · exact decide_eq_true (hsame h)
        · rw [ha] at hq
          rw [he] at hq'
          exact decide_eq_true (Option.some.inj (hq.trans hq'.symm))
    · rename_i hnot
      rw [or_iff_left]
      rintro ⟨q, hq, hq'⟩
      exact hnot q q hq hq'

/-! ## Membership -/

/-- The element that makes `in` true makes `==` true, and the other way round. -/
def MembershipAgrees (rt : Runtime) (v : Value) (elem : String) (items : List Value) : Prop :=
  (evaluateOperator rt .isIn v (.slice elem items) = .ok true ↔
    ∃ e ∈ items, evaluateOperator rt .equal v e = .ok true) ∧
  (evaluateOperator rt .notIn v (.slice elem items) = .ok true ↔
    ∀ e ∈ items, evaluateOperator rt .notEqual v e = .ok true)

theorem equal_eq_ok_true (rt : Runtime) (v e : Value) :
    evaluateOperator rt .equal v e = .ok true ↔ v.deepEqual e = true ∨ NumericallyEqual v e := by
  show Except.ok (evaluateEqual v e) = _ ↔ _
  rw [Except.ok.injEq, evaluateEqual_iff]

theorem notEqual_eq_ok_true (rt : Runtime) (v e : Value) :
    evaluateOperator rt .notEqual v e = .ok true ↔ ¬(v.deepEqual e = true ∨ NumericallyEqual v e) := by
  show Except.ok (!evaluateEqual v e) = _ ↔ _
  rw [Except.ok.injEq, Bool.not_eq_true', ← Bool.not_eq_true, evaluateEqual_iff]

theorem isIn_eq_ok_true (rt : Runtime) (v : Value) (elem : String) (items : List Value) :
    evaluateOperator rt .isIn v (.slice elem items) = .ok true ↔ ∃ e ∈ items, v.deepEqual e = true := by
  show Except.ok (items.any v.deepEqual) = _ ↔ _
  rw [Except.ok.injEq, List.any_eq_true]

theorem notIn_eq_ok_true (rt : Runtime) (v : Value) (elem : String) (items : List Value) :
    evaluateOperator rt .notIn v (.slice elem items) = .ok true ↔ ¬∃ e ∈ items, v.deepEqual e = true := by
  show Except.ok (!items.any v.deepEqual) = _ ↔ _
  rw [Except.ok.injEq, Bool.not_eq_true', ← Bool.not_eq_true, List.any_eq_true]

/-- Membership agrees with equality exactly when the list holds the value under its own Go type, or holds no number
that `==` takes for it. -/
theorem membership_agrees_iff (rt : Runtime) (v : Value) (elem : String) (items : List Value) :
    MembershipAgrees rt v elem items ↔
      (∃ e ∈ items, v.deepEqual e = true) ∨ ¬∃ e ∈ items, NumericallyEqual v e := by
  simp only [MembershipAgrees, isIn_eq_ok_true, notIn_eq_ok_true, equal_eq_ok_true, notEqual_eq_ok_true]
  constructor
  · rintro ⟨hin, -⟩
    by_cases h : ∃ e ∈ items, NumericallyEqual v e
    · obtain ⟨e, he, hne⟩ := h
      exact .inl (hin.2 ⟨e, he, .inr hne⟩)
    · exact .inr h
  · intro h
    have hin : (∃ e ∈ items, v.deepEqual e = true) ↔
        ∃ e ∈ items, v.deepEqual e = true ∨ NumericallyEqual v e := by
      constructor
      · rintro ⟨e, he, hd⟩
        exact ⟨e, he, .inl hd⟩
      · rintro ⟨e, he, hd | hn⟩
        · exact ⟨e, he, hd⟩
        · exact h.resolve_right (not_not_intro ⟨e, he, hn⟩)
    refine ⟨hin, ?_⟩
    rw [hin, not_exists]
    exact forall_congr' fun e => not_and

/-- A policy's list of numbers holds `float64`s, a field of the request such as its number of messages is an `int`:
`==` finds it in the list, `in` does not. -/
theorem in_misses_number_of_other_type :
    let rt : Runtime := { sprint := fun _ => "", regexpCompile := fun _ => none, loadLocation := fun _ => none }
    evaluateOperator rt .equal (.int 5) (.float64 5) = .ok true ∧
      evaluateOperator rt .isIn (.int 5) (.list [.float64 5]) = .ok false ∧
      evaluateOperator rt .notIn (.int 5) (.list [.float64 5]) = .ok true := by
  decide +kernel

/-! ## Texts of lists -/

/-- The text `toString` gives a value. -/
def valueText (rt : Runtime) : Value → String
  | .string s => s
  | v => rt.sprint v

theorem toString_eq (rt : Runtime) (v : Value) : toString rt v = some (valueText rt v) := by cases v <;> rfl

/-- The texts of the elements between brackets, as `fmt` prints a slice. -/
def listText (texts : List String) : String := "[" ++ " ".intercalate texts ++ "]"

/-- How `fmt.Sprint` prints slices, `element` being the text of an element: a pointer has its address there. -/
def PrintsSlices (rt : Runtime) (element : Value → String) : Prop :=
  ∀ elem items, rt.sprint (.slice elem items) = listText (items.map element)

def closeLast (text : List Char) : List (List Char) → List (List Char)
  | [] => [text ++ [']']]
  | next :: texts => text :: closeLast next texts

/-- What stands between the spaces of a printed slice: the texts, the first with the opening bracket and the last with
the closing one. -/
def bracketed (texts : List String) : List (List Char) :=
  match texts.map String.toList with
  | [] => [['[', ']']]
  | text :: texts => closeLast ('[' :: text) texts

theorem intercalate_closeLast (text : List Char) (texts : List (List Char)) :
    [' '].intercalate (closeLast text texts) = [' '].intercalate (text :: texts) ++ [']'] := by
  induction texts generalizing text with
  | nil => simp [closeLast]
  | cons next texts ih =>
    have hcons : ∃ l ls, closeLast next texts = l :: ls := by cases texts <;> exact ⟨_, _, rfl⟩
    obtain ⟨l, ls, hl⟩ := hcons
    rw [closeLast, hl, List.intercalate_cons_cons, ← hl, ih, List.intercalate_cons_cons]
    simp only [List.append_assoc]

theorem bracketed_ne_nil (texts : List String) : bracketed texts ≠ [] := by
  unfold bracketed
  split
  · simp
  · rename_i text texts _
    cases texts <;> simp [closeLast]

theorem toList_listText (texts : List String) : (listText texts).toList = [' '].intercalate (bracketed texts) := by
  rw [listText, String.toList_append, String.toList_append, String.toList_intercalate, bracketed]
  cases texts.map String.toList with
  | nil => rfl
  | cons text texts =>
    rw [intercalate_closeLast]
    cases texts <;> simp [List.intercalate_cons_cons]

section Contains

variable {rt : Runtime} {element : Value → String}

theorem contains_slice_iff (h : PrintsSlices rt element) (elem : String) (items : List Value) (x : Value) :
    evaluateOperator rt .contains (.slice elem items) x = .ok true ↔
      (∃ text ∈ bracketed (items.map element), (valueText rt x).toList <:+: text) ∨
        Spans ' ' (bracketed (items.map element)) (valueText rt x).toList := by
  show evaluateContains rt _ _ = _ ↔ _
  rw [evaluateContains, toString_eq, toString_eq]
  show Except.ok (Strings.contains (rt.sprint (.slice elem items)) _) = _ ↔ _
  rw [h, Except.ok.injEq, Strings.contains, Strings.hasInfix_iff, toList_listText,
    infix_intercalate_iff (bracketed_ne_nil _)]

end Contains

/-! ## A printer -/

mutual

/-- The text of nil, Booleans, strings and lists of them. -/
def printed : Value → String
  | .nil => "<nil>"
  | .bool b => if b then "true" else "false"
  | .string s => s
  | .slice _ items => listText (printedItems items)
  | _ => ""

def printedItems : List Value → List String
  | [] => []
  | v :: vs => printed v :: printedItems vs

end

theorem printedItems_eq_map : ∀ items : List Value, printedItems items = items.map printed
  | [] => rfl
  | v :: vs => by rw [printedItems, printedItems_eq_map vs, List.map_cons]

def printer : Runtime :=
  { sprint := printed, regexpCompile := fun _ => none, loadLocation := fun _ => none }

theorem printer_printsSlices : PrintsSlices printer printed := by
  intro elem items
  show printed _ = _
  rw [printed, printedItems_eq_map]

end Jupiter.Engine
