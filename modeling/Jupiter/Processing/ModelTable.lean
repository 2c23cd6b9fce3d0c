/-
Tables keyed by the names of models, as the prices and the characters-per-token ratios are configured.

A lookup tries the name of the model and then takes the first name it meets that the model begins with. The table is a
Go map, so which name that is depends on the `range`.
-/
import Jupiter.Go.Value
import Jupiter.Lib.MostSpecific
import Jupiter.Lib.Table

namespace Jupiter.Processing

open Jupiter.Go Jupiter.Lib

variable {α : Type} {table : List (String × α)} {model : String}

/-- The entry of the model, or the first one in this `range` whose name the model begins with. -/
def findModel (model : String) (visit : MapRange table) : Option α :=
  match table.lookup model with
  | some a => some a
  | none => (visit.order.find? fun e => Strings.startsWith model e.1).map Prod.snd

def specificEntry (table : List (String × α)) (model : String) : Option α :=
  (MostSpecific.best (Strings.startsWith model) String.utf8ByteSize table).map Prod.snd

def Unambiguous (table : List (String × α)) (model : String) : Prop :=
  (∃ e ∈ table, e.1 = model) ∨
    ∀ e ∈ table, ∀ e' ∈ table, Strings.startsWith model e.1 = true → Strings.startsWith model e'.1 = true → e.2 = e'.2

theorem utf8ByteSize_le_of_prefix {a b : String} (h : a.toList <+: b.toList) : a.utf8ByteSize ≤ b.utf8ByteSize := by
  obtain ⟨t, ht⟩ := h
  have hb : b = a ++ String.ofList t := String.toList_injective (by rw [String.toList_append, String.toList_ofList, ht])
  rw [hb, String.utf8ByteSize_append]
  exact Nat.le_add_right _ _

theorem eq_of_prefix_of_utf8ByteSize {a b : String} (h : a.toList <+: b.toList)
    (hsize : a.utf8ByteSize = b.utf8ByteSize) : a = b := by
  obtain ⟨t, ht⟩ := h
  have hb : b = a ++ String.ofList t := String.toList_injective (by rw [String.toList_append, String.toList_ofList, ht])
  have hrest : (String.ofList t).utf8ByteSize = 0 := by
    rw [hb, String.utf8ByteSize_append] at hsize
    omega
  rw [hb, String.utf8ByteSize_eq_zero_iff.1 hrest, String.append_empty]

theorem graded_startsWith (model : String) :
    MostSpecific.Graded (Strings.startsWith model) String.utf8ByteSize := by
  intro a b ha hb hsize
  rcases List.prefix_or_prefix_of_prefix (Strings.startsWith_iff.1 ha) (Strings.startsWith_iff.1 hb) with h | h
  · exact eq_of_prefix_of_utf8ByteSize h hsize
  · exact (eq_of_prefix_of_utf8ByteSize h hsize.symm).symm

theorem specificEntry_eq_none_iff :
    specificEntry table model = none ↔ ∀ e ∈ table, Strings.startsWith model e.1 = false := by
  rw [specificEntry, Option.map_eq_none_iff, MostSpecific.best_eq_none]

theorem findModel_eq_none_iff (visit : MapRange table) :
    findModel model visit = none ↔ ∀ e ∈ table, Strings.startsWith model e.1 = false := by
  rw [findModel]
  cases hl : table.lookup model with
  | some a =>
    refine iff_of_false nofun fun h => ?_
    have hself := h _ (Table.mem_of_lookup hl)
    rw [Strings.startsWith_self model] at hself
    cases hself
  | none =>
    simp only [Option.map_eq_none_iff, List.find?_eq_none, visit.perm.mem_iff, Bool.not_eq_true]

theorem specificEntry_of_lookup (hk : (table.map Prod.fst).Nodup) {a : α} (h : table.lookup model = some a) :
    specificEntry table model = some a := by
  have hbest : MostSpecific.best (Strings.startsWith model) String.utf8ByteSize table = some (model, a) := by
    rw [MostSpecific.best_eq_some_iff (graded_startsWith model) hk]
    refine ⟨Table.mem_of_lookup h, Strings.startsWith_self model, fun e _ he => ?_⟩
    exact utf8ByteSize_le_of_prefix (Strings.startsWith_iff.1 he)
  rw [specificEntry, hbest]
  rfl

theorem findModel_specific_iff (hk : (table.map Prod.fst).Nodup) :
    (∀ visit : MapRange table, findModel model visit = specificEntry table model) ↔ Unambiguous table model := by
  cases hl : table.lookup model with
  | some a =>
    refine iff_of_true (fun visit => ?_) (.inl ⟨_, Table.mem_of_lookup hl, rfl⟩)
    rw [specificEntry_of_lookup hk hl, findModel, hl]
  | none =>
    have hown : ¬∃ e ∈ table, e.1 = model := by
      rintro ⟨e, he, rfl⟩
      simpa using List.lookup_eq_none_iff.1 hl e he
    have hfirst := @MostSpecific.first_eq_best_iff _ α (Strings.startsWith model) String.utf8ByteSize table
    rw [Unambiguous, or_iff_right hown, ← hfirst]
    simp only [findModel, hl]
    exact ⟨fun h l' hp => h ⟨l', hp⟩, fun h visit => h visit.order visit.perm⟩

end Jupiter.Processing
