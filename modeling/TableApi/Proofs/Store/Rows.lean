import Mathlib.Data.List.Nodup
import TableApi.Record.Write

/-! Rows of a table in the order of their numbers. The numbers tell the rows apart: a row with a
fresh number has one place among the others, taking it out again gives them back, and a row is found
by its number. -/

namespace TableApi.Store

def Ascending (rows : List Row) : Prop := rows.Pairwise fun a b => a.number < b.number

def Fresh (row : Row) (rows : List Row) : Prop := ∀ other ∈ rows, other.number ≠ row.number

def without (row : Row) (rows : List Row) : List Row := rows.filter fun r => r.number != row.number

variable {row : Row} {rows : List Row}

theorem fresh_without (row : Row) (rows : List Row) : Fresh row (without row rows) := by
  intro other hother
  simpa using (List.mem_filter.1 hother).2

theorem without_of_fresh (h : Fresh row rows) : without row rows = rows := by
  apply List.filter_eq_self.2
  intro other hother
  simpa using h other hother

theorem without_cons_self (row : Row) (rest : List Row) :
    without row (row :: rest) = without row rest := by
  apply List.filter_cons_of_neg
  simp

theorem without_cons_of_ne {first : Row} (h : first.number ≠ row.number) (rest : List Row) :
    without row (first :: rest) = first :: without row rest := by
  apply List.filter_cons_of_pos
  simpa using h

theorem ascending_without (h : Ascending rows) (row : Row) : Ascending (without row rows) :=
  List.Pairwise.filter _ h

/-- A fresh row keeps the order. -/
theorem ascending_insertRow (h : Ascending rows) (hfresh : Fresh row rows) :
    Ascending (insertRow row rows) := by
  induction rows with
  | nil => exact List.pairwise_singleton _ _
  | cons first rest ih =>
    obtain ⟨hfirst, hrest⟩ := List.pairwise_cons.1 h
    unfold insertRow
    split
    · next hlt =>
      refine List.pairwise_cons.2 ⟨?_, h⟩
      intro other hother
      rcases List.mem_cons.1 hother with rfl | hmem
      · exact hlt
      · exact Int.lt_trans hlt (hfirst other hmem)
    · next hnot =>
      have hne : first.number ≠ row.number := hfresh first List.mem_cons_self
      refine List.pairwise_cons.2 ⟨?_, ih hrest fun other ho => hfresh other (.tail _ ho)⟩
      intro other hother
      rcases mem_insertRow.1 hother with rfl | hmem
      · omega
      · exact hfirst other hmem

/-- Taking out a row that was put among others gives them back. -/
theorem without_insertRow (hfresh : Fresh row rows) : without row (insertRow row rows) = rows := by
  induction rows with
  | nil => exact without_cons_self row []
  | cons first rest ih =>
    have hfirst : first.number ≠ row.number := hfresh first List.mem_cons_self
    have hrest : Fresh row rest := fun other ho => hfresh other (.tail _ ho)
    unfold insertRow
    split
    · rw [without_cons_self, without_of_fresh hfresh]
    · rw [without_cons_of_ne hfirst, ih hrest]

/-- Putting a row back among the others gives all rows. -/
theorem insertRow_without (h : Ascending rows) (hmem : row ∈ rows) :
    insertRow row (without row rows) = rows := by
  induction rows with
  | nil => cases hmem
  | cons first rest ih =>
    obtain ⟨hfirst, hrest⟩ := List.pairwise_cons.1 h
    rcases List.mem_cons.1 hmem with rfl | hlater
    · have hfresh : Fresh row rest := fun other ho => (Int.ne_of_lt (hfirst other ho)).symm
      rw [without_cons_self, without_of_fresh hfresh]
      cases rest with
      | nil => rfl
      | cons next more => rw [insertRow, if_pos (hfirst next List.mem_cons_self)]
    · have hlt : first.number < row.number := hfirst row hlater
      have hnot : ¬ row.number < first.number := by omega
      rw [without_cons_of_ne (Int.ne_of_lt hlt), insertRow, if_neg hnot, ih hrest hlater]

theorem eq_of_number_eq (h : Ascending rows) {a b : Row} (ha : a ∈ rows) (hb : b ∈ rows)
    (hnumber : a.number = b.number) : a = b := by
  induction rows with
  | nil => cases ha
  | cons first rest ih =>
    obtain ⟨hfirst, hrest⟩ := List.pairwise_cons.1 h
    rcases List.mem_cons.1 ha with rfl | ha'
    · rcases List.mem_cons.1 hb with rfl | hb'
      · rfl
      · have := hfirst b hb'
        omega
    · rcases List.mem_cons.1 hb with rfl | hb'
      · have := hfirst a ha'
        omega
      · exact ih hrest ha' hb'

/-- A row is found by its number. -/
theorem find?_number (h : Ascending rows) (hmem : row ∈ rows) :
    rows.find? (·.number == row.number) = some row := by
  cases hfind : rows.find? (·.number == row.number) with
  | none =>
    have hnone := List.find?_eq_none.1 hfind row hmem
    simp at hnone
  | some found =>
    have hnumber : found.number = row.number := by simpa using List.find?_some hfind
    rw [eq_of_number_eq h (List.mem_of_find?_eq_some hfind) hmem hnumber]

/-- The next number is larger than all numbers. -/
theorem number_lt_nextNumber (h : Ascending rows) : ∀ r ∈ rows, r.number < nextNumber rows := by
  intro r hr
  obtain ⟨front, last, rfl⟩ := List.eq_nil_or_concat rows |>.resolve_left (List.ne_nil_of_mem hr)
  have hnext : nextNumber (front.concat last) = last.number + 1 := by simp [nextNumber]
  rw [hnext]
  rw [Ascending, List.concat_eq_append, List.pairwise_append] at h
  rw [List.concat_eq_append, List.mem_append, List.mem_singleton] at hr
  rcases hr with hfront | rfl
  · have := h.2.2 r hfront last (List.mem_singleton.2 rfl)
    omega
  · omega

end TableApi.Store
