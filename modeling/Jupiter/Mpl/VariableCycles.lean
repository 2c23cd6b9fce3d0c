/-
`validateVariableReferences` against the graph of references between variables.

The check follows a value that is itself a reference; it does not look into arrays and objects. On the graph of these
references it finds every cycle, in whatever order the variables are read, and it reports something else only where two
variables refer to one name that is not defined: such a name stays in progress.
-/
import Jupiter.Mpl.Validator
import Jupiter.Lib.Cycle
import Jupiter.Lib.Table

namespace Jupiter.Mpl

open Jupiter.Go Jupiter.Lib Relation

/-! ## The graph of references -/

def Refers (variableMap : List (String × ValueNode)) (name ref : String) : Prop :=
  ∃ value, variableMap.lookup name = some value ∧ ref ∈ extractVariableReferences value

def SharesUndefined (variableMap : List (String × ValueNode)) : Prop :=
  ∃ name name' ref, name ≠ name' ∧ Refers variableMap name ref ∧ Refers variableMap name' ref ∧
    variableMap.lookup ref = none

mutual

def referencesIn : Value → List String
  | .string s => if isVariableReference s then [extractVariableName s] else []
  | .slice _ items => referencesInItems items
  | .map _ entries => referencesInEntries entries
  | _ => []

def referencesInItems : List Value → List String
  | [] => []
  | item :: items => referencesIn item ++ referencesInItems items

def referencesInEntries : List (String × Value) → List String
  | [] => []
  | (_, item) :: entries => referencesIn item ++ referencesInEntries entries

end

/-- The value of one variable holds a reference to the other, itself or inside an array or an object. -/
def RefersAnywhere (variableMap : List (String × ValueNode)) (name ref : String) : Prop :=
  ∃ value, variableMap.lookup name = some value ∧ ref ∈ referencesIn value.value

def reportsCircular (errors : List ValidationError) : Prop := ∃ cycle, .circularVariable cycle ∈ errors

variable {variableMap : List (String × ValueNode)} {name ref : String} {path : List String} {s : CycleCheck}

theorem Refers.defined (h : Refers variableMap name ref) : variableMap.lookup name ≠ none := by
  obtain ⟨value, hvalue, -⟩ := h
  simp [hvalue]

theorem extractVariableReferences_cases (value : ValueNode) :
    extractVariableReferences value = [] ∨ ∃ ref, extractVariableReferences value = [ref] := by
  unfold extractVariableReferences
  split
  · exact .inr ⟨_, rfl⟩
  · exact .inl rfl

/-! ## One call -/

namespace CycleCheck

def enter (s : CycleCheck) (name : String) : CycleCheck :=
  { s with visited := name :: s.visited, inProgress := name :: s.inProgress }

def leave (s : CycleCheck) (name : String) : CycleCheck := { s with inProgress := s.inProgress.filter (· ≠ name) }

def report (s : CycleCheck) (cycle : List String) : CycleCheck :=
  { s with errors := s.errors ++ [.circularVariable cycle] }

end CycleCheck

def followReference (variableMap : List (String × ValueNode)) (fuel : Nat) (path : List String) (ref : String)
    (s : CycleCheck) : CycleCheck :=
  if ref ∈ s.inProgress then s.report (path ++ [ref])
  else if ref ∈ s.visited then s
  else checkVariableCycle variableMap fuel ref path s

theorem checkVariableCycle_undefined (h : variableMap.lookup name = none) (fuel : Nat) :
    checkVariableCycle variableMap (fuel + 1) name path s = s.enter name := by
  rw [checkVariableCycle, h]
  rfl

theorem checkVariableCycle_defined {value : ValueNode} (h : variableMap.lookup name = some value) (fuel : Nat) :
    checkVariableCycle variableMap (fuel + 1) name path s =
      ((extractVariableReferences value).foldl
        (fun s ref => followReference variableMap fuel (path ++ [name]) ref s) (s.enter name)).leave name := by
  rw [checkVariableCycle, h]
  simp only [followReference, List.contains_iff_mem]
  rfl

def unvisited (variableMap : List (String × ValueNode)) (visited : List String) : Nat :=
  (variableMap.filter fun entry => !visited.contains entry.1).length

theorem unvisited_le_length (variableMap : List (String × ValueNode)) (visited : List String) :
    unvisited variableMap visited ≤ variableMap.length :=
  List.length_filter_le _ _

theorem unvisited_cons_lt {visited : List String} (hnew : name ∉ visited) (hdef : variableMap.lookup name ≠ none) :
    unvisited variableMap (name :: visited) < unvisited variableMap visited := by
  obtain ⟨value, hvalue⟩ := Option.ne_none_iff_exists'.1 hdef
  exact Table.length_unmarked_lt hnew (Table.mem_of_lookup hvalue)

/-- Each call visits a name that was not visited, and goes on only from a name that is defined. -/
theorem checkVariableCycle_fuel (fuel : Nat) (hnew : name ∉ s.visited)
    (hfuel : unvisited variableMap s.visited + 1 ≤ fuel) :
    checkVariableCycle variableMap fuel name path s = checkVariableCycle variableMap (fuel + 1) name path s := by
  induction fuel generalizing name path s with
  | zero => omega
  | succ fuel ih =>
    cases hdef : variableMap.lookup name with
    | none => rw [checkVariableCycle_undefined hdef, checkVariableCycle_undefined hdef]
    | some value =>
      have hless := unvisited_cons_lt hnew (by simp [hdef] : variableMap.lookup name ≠ none)
      have hsame : ∀ ref, followReference variableMap fuel (path ++ [name]) ref (s.enter name) =
          followReference variableMap (fuel + 1) (path ++ [name]) ref (s.enter name) := by
        intro ref
        unfold followReference
        split
        · rfl
        · split
          · rfl
          · next hmet => exact ih hmet (by simp only [CycleCheck.enter]; omega)
      rw [checkVariableCycle_defined hdef, checkVariableCycle_defined hdef]
      rcases extractVariableReferences_cases value with hrefs | ⟨ref, hrefs⟩
      · rw [hrefs]
        rfl
      · rw [hrefs, List.foldl_cons, List.foldl_nil, List.foldl_cons, List.foldl_nil, hsame]

theorem checkVariableCycle_fuel_eq (hnew : name ∉ s.visited) {fuel : Nat} (hfuel : variableMap.length + 1 ≤ fuel) :
    checkVariableCycle variableMap fuel name path s =
      checkVariableCycle variableMap (variableMap.length + 1) name path s := by
  induction fuel, hfuel using Nat.le_induction with
  | base => rfl
  | succ fuel hfuel ih =>
    have hroom := unvisited_le_length variableMap s.visited
    rw [← checkVariableCycle_fuel fuel hnew (by omega), ih]

/-! ## The invariant of the search -/

/-- What holds of the marks and the errors while the search has `path` in progress. -/
structure Searched (variableMap : List (String × ValueNode)) (path : List String) (s : CycleCheck) : Prop where
  progress : ∀ x, x ∈ s.inProgress ↔ x ∈ path ∨ x ∈ s.visited ∧ variableMap.lookup x = none
  onPath : ∀ x ∈ path, x ∈ s.visited
  ends : s.errors = [] → ∀ x ∈ s.visited, x ∉ path → Acc (flip (Refers variableMap)) x
  referred : ∀ x ∈ s.visited, variableMap.lookup x = none → ∃ y ∈ s.visited, Refers variableMap y x
  circular : ∀ e ∈ s.errors, ∃ cycle, e = .circularVariable cycle
  faulty : s.errors ≠ [] → (∃ c, TransGen (Refers variableMap) c c) ∨ SharesUndefined variableMap

namespace Searched

theorem enter_undefined (h : Searched variableMap path s) (hundef : variableMap.lookup name = none)
    (horigin : ∃ y ∈ s.visited, Refers variableMap y name) : Searched variableMap path (s.enter name) where
  progress x := by
    have hbefore := h.progress x
    simp only [CycleCheck.enter, List.mem_cons, hbefore]
    constructor
    · rintro (rfl | hpath | ⟨hv, hx⟩)
      · exact .inr ⟨.inl rfl, hundef⟩
      · exact .inl hpath
      · exact .inr ⟨.inr hv, hx⟩
    · rintro (hpath | ⟨rfl | hv, hx⟩)
      · exact .inr (.inl hpath)
      · exact .inl rfl
      · exact .inr (.inr ⟨hv, hx⟩)
  onPath x hx := List.mem_cons_of_mem _ (h.onPath x hx)
  ends herr x hx hpath := by
    rcases List.mem_cons.1 hx with rfl | hx
    · exact ⟨x, fun y hy => absurd hundef (Refers.defined hy)⟩
    · exact h.ends herr x hx hpath
  referred x hx hx' := by
    have hy : ∃ y ∈ s.visited, Refers variableMap y x := by
      rcases List.mem_cons.1 hx with rfl | hx
      · exact horigin
      · exact h.referred x hx hx'
    obtain ⟨y, hy, hyx⟩ := hy
    exact ⟨y, List.mem_cons_of_mem _ hy, hyx⟩
  circular := h.circular
  faulty := h.faulty

theorem enter_defined (h : Searched variableMap path s) (hdef : variableMap.lookup name ≠ none) :
    Searched variableMap (name :: path) (s.enter name) where
  progress x := by
    have hbefore := h.progress x
    simp only [CycleCheck.enter, List.mem_cons, hbefore]
    constructor
    · rintro (rfl | hpath | ⟨hv, hx⟩)
      · exact .inl (.inl rfl)
      · exact .inl (.inr hpath)
      · exact .inr ⟨.inr hv, hx⟩
    · rintro ((rfl | hpath) | ⟨rfl | hv, hx⟩)
      · exact .inl rfl
      · exact .inr (.inl hpath)
      · exact absurd hx hdef
      · exact .inr (.inr ⟨hv, hx⟩)
  onPath x hx := List.mem_cons.2 ((List.mem_cons.1 hx).imp_right (h.onPath x))
  ends herr x hx hpath := by
    rw [List.mem_cons, not_or] at hpath
    exact h.ends herr x ((List.mem_cons.1 hx).resolve_left hpath.1) hpath.2
  referred x hx hx' := by
    rcases List.mem_cons.1 hx with rfl | hx
    · exact absurd hx' hdef
    · obtain ⟨y, hy, hyx⟩ := h.referred x hx hx'
      exact ⟨y, List.mem_cons_of_mem _ hy, hyx⟩
  circular := h.circular
  faulty := h.faulty

theorem leave (h : Searched variableMap (name :: path) s) (hpath : name ∉ path)
    (hdef : variableMap.lookup name ≠ none) (hends : s.errors = [] → Acc (flip (Refers variableMap)) name) :
    Searched variableMap path (s.leave name) where
  progress x := by
    have hbefore := h.progress x
    simp only [CycleCheck.leave, List.mem_filter, hbefore, List.mem_cons, decide_eq_true_eq]
    constructor
    · rintro ⟨(rfl | hx) | hx, hne⟩
      · exact absurd rfl hne
      · exact .inl hx
      · exact .inr hx
    · rintro (hx | hx)
      · exact ⟨.inl (.inr hx), fun hxn => hpath (hxn ▸ hx)⟩
      · exact ⟨.inr hx, fun hxn => hdef (hxn ▸ hx.2)⟩
  onPath x hx := h.onPath x (List.mem_cons_of_mem _ hx)
  ends herr x hx hoff := by
    by_cases hxn : x = name
    · exact hxn ▸ hends herr
    · exact h.ends herr x hx (by simp [hxn, hoff])
  referred := h.referred
  circular := h.circular
  faulty := h.faulty

theorem report (h : Searched variableMap path s) (cycle : List String)
    (hfault : (∃ c, TransGen (Refers variableMap) c c) ∨ SharesUndefined variableMap) :
    Searched variableMap path (s.report cycle) where
  progress := h.progress
  onPath := h.onPath
  ends herr := absurd herr (by simp [CycleCheck.report])
  referred := h.referred
  circular e he := by
    rcases List.mem_append.1 he with he | he
    · exact h.circular e he
    · exact ⟨cycle, List.mem_singleton.1 he⟩
  faulty _ := hfault

theorem fault_of_progress (h : Searched variableMap path s) (hnew : name ∉ s.visited)
    (hreach : ∀ x ∈ path, TransGen (Refers variableMap) x name) (href : Refers variableMap name ref)
    (hmet : ref ∈ (s.enter name).inProgress) :
    (∃ c, TransGen (Refers variableMap) c c) ∨ SharesUndefined variableMap := by
  rcases ((h.enter_defined href.defined).progress ref).1 hmet with hpath | ⟨hv, hundef⟩
  · left
    rcases List.mem_cons.1 hpath with rfl | hpath
    · exact ⟨ref, .single href⟩
    · exact ⟨ref, (hreach ref hpath).tail href⟩
  · right
    have hold : ref ∈ s.visited := by
      rcases List.mem_cons.1 hv with rfl | hv
      · exact absurd hundef href.defined
      · exact hv
    obtain ⟨y, hy, hyref⟩ := h.referred ref hold hundef
    exact ⟨y, name, ref, fun hyn => hnew (hyn ▸ hy), hyref, href, hundef⟩

end Searched

/-- Induction on the fuel. The names on the path lead to the name at hand, and a name without a definition has been
reached from one that refers to it. -/
theorem searched_checkVariableCycle (fuel : Nat) (trail : List String) (h : Searched variableMap path s)
    (hnew : name ∉ s.visited) (hreach : ∀ x ∈ path, TransGen (Refers variableMap) x name)
    (horigin : variableMap.lookup name ≠ none ∨ ∃ y ∈ s.visited, Refers variableMap y name)
    (hfuel : unvisited variableMap s.visited + 1 ≤ fuel) :
    Searched variableMap path (checkVariableCycle variableMap fuel name trail s) ∧
      name :: s.visited ⊆ (checkVariableCycle variableMap fuel name trail s).visited := by
  induction fuel generalizing name path trail s with
  | zero => omega
  | succ fuel ih =>
    cases hvalue : variableMap.lookup name with
    | none =>
      rw [checkVariableCycle_undefined hvalue]
      exact ⟨h.enter_undefined hvalue (horigin.resolve_left (by simp [hvalue])), List.Subset.refl _⟩
    | some value =>
      have hdef : variableMap.lookup name ≠ none := by simp [hvalue]
      have hpath : name ∉ path := fun hmem => hnew (h.onPath name hmem)
      have hin := h.enter_defined hdef
      rw [checkVariableCycle_defined hvalue]
      rcases extractVariableReferences_cases value with hrefs | ⟨ref, hrefs⟩
      · rw [hrefs]
        refine ⟨hin.leave hpath hdef fun _ => ⟨name, ?_⟩, List.Subset.refl _⟩
        rintro y ⟨value', hvalue', hy⟩
        cases hvalue.symm.trans hvalue'
        simp [hrefs] at hy
      · have href : Refers variableMap name ref := ⟨value, hvalue, by simp [hrefs]⟩
        have hends : Acc (flip (Refers variableMap)) ref → Acc (flip (Refers variableMap)) name := by
          refine fun hacc => ⟨name, ?_⟩
          rintro y ⟨value', hvalue', hy⟩
          cases hvalue.symm.trans hvalue'
          rw [hrefs, List.mem_singleton] at hy
          exact hy ▸ hacc
        rw [hrefs, List.foldl_cons, List.foldl_nil]
        unfold followReference
        split
        · next hmet =>
          have hfault := h.fault_of_progress hnew hreach href hmet
          refine ⟨(hin.report _ hfault).leave hpath hdef ?_, List.Subset.refl _⟩
          intro herr
          simp [CycleCheck.report] at herr
        · next hmet =>
          -- off the path: nothing in progress is met
          have hoff : ref ∉ name :: path := fun hmem => hmet ((hin.progress ref).2 (.inl hmem))
          split
          · next hseen =>
            exact ⟨hin.leave hpath hdef fun herr => hends (hin.ends herr ref hseen hoff), List.Subset.refl _⟩
          · next hunseen =>
            have hless := unvisited_cons_lt hnew hdef
            have hreach' : ∀ x ∈ name :: path, TransGen (Refers variableMap) x ref := by
              intro x hx
              rcases List.mem_cons.1 hx with rfl | hx
              · exact .single href
              · exact (hreach x hx).tail href
            obtain ⟨hrest, hvisited⟩ := ih (trail ++ [name]) hin hunseen hreach' (.inr ⟨name, List.mem_cons_self, href⟩)
              (by simp only [CycleCheck.enter]; omega)
            refine ⟨hrest.leave hpath hdef fun herr => hends (hrest.ends herr ref ?_ hoff), ?_⟩
            · exact hvisited List.mem_cons_self
            · exact fun x hx => hvisited (List.mem_cons_of_mem _ hx)

/-! ## All variables -/

def startAt (variableMap : List (String × ValueNode)) (s : CycleCheck) (entry : String × ValueNode) : CycleCheck :=
  if s.visited.contains entry.1 then s
  else checkVariableCycle variableMap (variableMap.length + 1) entry.1 [] s

theorem validateVariableReferences_eq (p : Policy) :
    validateVariableReferences p = (p.variableMap.foldl (startAt p.variableMap) {}).errors := rfl

theorem searched_startAt (h : Searched variableMap [] s) {entry : String × ValueNode}
    (hdef : variableMap.lookup entry.1 ≠ none) :
    Searched variableMap [] (startAt variableMap s entry) ∧
      entry.1 :: s.visited ⊆ (startAt variableMap s entry).visited := by
  unfold startAt
  split
  · next hseen => exact ⟨h, List.cons_subset.2 ⟨by simpa using hseen, List.Subset.refl _⟩⟩
  · next hunseen =>
    have hroom := unvisited_le_length variableMap s.visited
    exact searched_checkVariableCycle _ [] h (by simpa using hunseen) (by simp) (.inl hdef) (by omega)

theorem searched_starts (entries : List (String × ValueNode)) (h : Searched variableMap [] s)
    (hdef : ∀ entry ∈ entries, variableMap.lookup entry.1 ≠ none) :
    Searched variableMap [] (entries.foldl (startAt variableMap) s) ∧
      entries.map Prod.fst ++ s.visited ⊆ (entries.foldl (startAt variableMap) s).visited := by
  induction entries generalizing s with
  | nil => exact ⟨h, List.Subset.refl _⟩
  | cons entry entries ih =>
    obtain ⟨hone, hvisited⟩ := searched_startAt h (hdef entry List.mem_cons_self)
    obtain ⟨hrest, hall⟩ := ih hone fun e he => hdef e (List.mem_cons_of_mem _ he)
    refine ⟨hrest, fun x hx => hall ?_⟩
    rw [List.map_cons, List.cons_append, List.mem_cons, List.mem_append] at hx
    rw [List.mem_append]
    rcases hx with rfl | hx | hx
    · exact .inr (hvisited List.mem_cons_self)
    · exact .inl hx
    · exact .inr (hvisited (List.mem_cons_of_mem _ hx))

/-- Every cycle is reported, and whatever is reported is a cycle or an undefined name with two references. -/
theorem validateVariableReferences_reports (p : Policy) :
    ((∃ c, TransGen (Refers p.variableMap) c c) → reportsCircular (validateVariableReferences p)) ∧
    (reportsCircular (validateVariableReferences p) →
      (∃ c, TransGen (Refers p.variableMap) c c) ∨ SharesUndefined p.variableMap) := by
  have hstart : Searched p.variableMap [] {} := by
    constructor <;> simp
  obtain ⟨hend, hall⟩ := searched_starts p.variableMap hstart fun entry hentry hnone =>
    Table.lookup_eq_none.1 hnone (List.mem_map_of_mem hentry)
  rw [validateVariableReferences_eq]
  constructor
  · rintro ⟨c, hcycle⟩
    obtain ⟨d, ⟨value, hvalue, -⟩, -⟩ := TransGen.head'_iff.1 hcycle
    have hvisited := hall (List.mem_append_left _ (List.mem_map_of_mem (Table.mem_of_lookup hvalue)))
    have herr : (p.variableMap.foldl (startAt p.variableMap) {}).errors ≠ [] :=
      fun hnone => Cycle.not_cycle_of_acc (hend.ends hnone c hvisited (by simp)) hcycle
    obtain ⟨e, he⟩ := List.exists_mem_of_ne_nil _ herr
    obtain ⟨cycle, rfl⟩ := hend.circular e he
    exact ⟨cycle, he⟩
  · rintro ⟨cycle, hmem⟩
    exact hend.faulty (List.ne_nil_of_mem hmem)

/-- Whatever the order in which the variables are read: the search ends within the fuel it is given, it reports a
circular reference whenever variables refer to each other in a circle, and only then when no two variables refer to
one undefined name. -/
theorem validateVariableReferences_reports_iff_cycle (p : Policy) (hmap : (p.variableMap.map Prod.fst).Nodup)
    (range : MapRange p.variableMap) :
    (∀ fuel name path s, p.variableMap.length + 1 ≤ fuel → name ∉ s.visited →
      checkVariableCycle range.order fuel name path s =
        checkVariableCycle range.order (range.order.length + 1) name path s) ∧
    ((∃ c, TransGen (Refers p.variableMap) c c) →
      reportsCircular (validateVariableReferences { p with variableMap := range.order })) ∧
    (¬ SharesUndefined p.variableMap →
      (reportsCircular (validateVariableReferences { p with variableMap := range.order }) ↔
        ∃ c, TransGen (Refers p.variableMap) c c)) := by
  have hlookup : ∀ name, range.order.lookup name = p.variableMap.lookup name := Table.lookup_of_perm hmap range.perm
  have hrefers : Refers range.order = Refers p.variableMap := by
    funext name ref
    simp only [Refers, hlookup]
  have hshares : SharesUndefined range.order ↔ SharesUndefined p.variableMap := by
    simp only [SharesUndefined, hrefers, hlookup]
  obtain ⟨hcomplete, hsound⟩ := validateVariableReferences_reports { p with variableMap := range.order }
  rw [hrefers] at hcomplete hsound
  rw [hshares] at hsound
  refine ⟨fun fuel name path s hfuel hnew => checkVariableCycle_fuel_eq hnew ?_, hcomplete, fun hnone => ⟨?_, hcomplete⟩⟩
  · rwa [range.perm.length_eq]
  · exact fun hreported => (hsound hreported).resolve_right hnone

def referTo (name : String) : String := "\x7b\x7b variables." ++ name ++ " \x7d\x7d"

def mutualVariables : Policy :=
  { name := "p", variableMap := [("a", .variable (referTo "b")), ("b", .variable (referTo "a"))] }

theorem validateVariableReferences_mutual :
    reportsCircular (validateVariableReferences
      { mutualVariables with variableMap := mutualVariables.variableMap.reverse }) := by
  have hab : Refers mutualVariables.variableMap "a" "b" := ⟨.variable (referTo "b"), rfl, by decide⟩
  have hba : Refers mutualVariables.variableMap "b" "a" := ⟨.variable (referTo "a"), rfl, by decide⟩
  exact (validateVariableReferences_reports_iff_cycle mutualVariables (by decide)
    ⟨mutualVariables.variableMap.reverse, List.reverse_perm _⟩).2.1 ⟨"a", .tail (.single hab) hba⟩

def selfInArray : Policy := { name := "p", variableMap := [("x", .array [.string (referTo "x")])] }

theorem validateVariableReferences_misses_array :
    (∃ c, TransGen (RefersAnywhere selfInArray.variableMap) c c) ∧
      ¬ reportsCircular (validateVariableReferences selfInArray) := by
  constructor
  · exact ⟨"x", .single ⟨.array [.string (referTo "x")], rfl, by decide⟩⟩
  · rintro ⟨cycle, hmem⟩
    have hnone : validateVariableReferences selfInArray = [] := by decide
    simp [hnone] at hmem

end Jupiter.Mpl
