import Mathlib.Data.List.Forall2
import TableApi.Proofs.Statement.Rows

/-! Rows behind a mask. A masked row has only the cells of some columns, and no number. A statement
whose terms are all among these columns cannot tell a row from its mask: it selects, sorts and cuts
masked rows as it does the rows themselves, and it meets the same errors. -/

namespace TableApi

/-- The row without its number and without the cells of other columns. -/
def Row.masked (names : List String) (r : Row) : Row :=
  ⟨0, names.map fun name => (name, r.cell name)⟩

/-- Two rows agree when a mask with these columns shows no difference. -/
def Row.Agree (names : List String) (a b : Row) : Prop := ∀ name ∈ names, a.cell name = b.cell name

namespace Row

theorem cell_masked {names : List String} {name : String} (h : name ∈ names) (r : Row) :
    (r.masked names).cell name = r.cell name := by
  have hget : (r.masked names).cells.get? name =
      (names.find? (· == name)).map fun name => r.cell name := Entries.get?_map id _ names name
  cases hfind : names.find? (· == name) with
  | none =>
    have hnone := List.find?_eq_none.1 hfind name h
    simp at hnone
  | some found =>
    have hfound : found = name := by simpa using List.find?_some hfind
    rw [cell, hget, hfind, Option.map_some, Option.getD_some, hfound]

theorem masked_eq_of_agree {names : List String} {a b : Row} (h : Agree names a b) :
    a.masked names = b.masked names := by
  have hcells : (names.map fun name => (name, a.cell name)) =
      names.map fun name => (name, b.cell name) := by
    apply List.map_congr_left
    intro name hname
    rw [h name hname]
  rw [masked, masked, hcells]

theorem map_masked_eq_of_agree {names : List String} {as bs : List Row}
    (h : List.Forall₂ (Agree names) as bs) : as.map (masked names) = bs.map (masked names) := by
  induction h with
  | nil => rfl
  | cons hab _ ih => rw [List.map_cons, List.map_cons, masked_eq_of_agree hab, ih]

end Row

def Term.Within (names : List String) (t : Term) : Prop :=
  ∃ c : Column, t = .column c ∧ c.name ∈ names

structure Select.Within (names : List String) (s : Select) : Prop where
  clauses : ∀ c ∈ s.clauses, ∀ t ∈ c.terms, t.Within names
  order : ∀ o ∈ s.order, o.term.Within names

variable {names : List String}

theorem Term.value_masked {t : Term} (h : t.Within names) (model? : Option Model) (r : Row) :
    (Clause.meaning model? t).value (r.masked names) = (Clause.meaning model? t).value r := by
  obtain ⟨c, rfl, hc⟩ := h
  exact Row.cell_masked hc r

theorem Clause.holds_masked {c : Clause} (h : ∀ t ∈ c.terms, t.Within names)
    (model? : Option Model) (r : Row) : c.holds model? (r.masked names) = c.holds model? r := by
  cases c with
  | search ts term =>
    unfold holds
    simp only
    have hall : ∀ t ∈ ts, holdsTerm term ((meaning model? t).value (r.masked names)) =
        holdsTerm term ((meaning model? t).value r) := by
      intro t ht
      rw [Term.value_masked (h t ht)]
    rw [Bool.eq_iff_iff, List.any_eq_true, List.any_eq_true]
    constructor
    · rintro ⟨t, ht, hholds⟩
      exact ⟨t, ht, (hall t ht) ▸ hholds⟩
    · rintro ⟨t, ht, hholds⟩
      exact ⟨t, ht, (hall t ht).symm ▸ hholds⟩
  | _ =>
    have hterm := Term.value_masked (h _ (List.mem_singleton.2 rfl)) model? r
    simp only [holds, hterm]

namespace Select

theorem rowOrder_masked {order : List Ordered} (h : ∀ o ∈ order, o.term.Within names)
    (model? : Option Model) (a b : Row) :
    rowOrder model? order (a.masked names) (b.masked names) = rowOrder model? order a b := by
  induction order with
  | nil => rfl
  | cons o rest ih =>
    have hhere := Term.value_masked (h o List.mem_cons_self) model?
    have hrest := ih fun o ho => h o (List.mem_cons_of_mem _ ho)
    simp only [rowOrder, hhere, hrest]

variable {s : Select}

theorem map_masked_matching (h : s.Within names) (rows : List Row) :
    (s.matching rows).map (Row.masked names) = s.matching (rows.map (Row.masked names)) := by
  have hholds : ∀ r : Row, s.clauses.all (Clause.holds s.model? (r.masked names)) =
      s.clauses.all (Clause.holds s.model? r) := by
    intro r
    rw [Bool.eq_iff_iff, List.all_eq_true, List.all_eq_true]
    constructor <;> intro hall c hc <;>
      simpa only [Clause.holds_masked (h.clauses c hc)] using hall c hc
  unfold matching
  rw [List.filter_map]
  congr 1
  apply List.filter_congr
  intro r _
  exact (hholds r).symm

theorem map_masked_sorted (h : s.Within names) (rows : List Row) :
    (s.sorted rows).map (Row.masked names) = s.sorted (rows.map (Row.masked names)) := by
  unfold sorted
  split
  · rfl
  · apply List.map_mergeSort
    intro a _ b _
    rw [rowOrder_masked h.order]

theorem map_windowed {α β : Type} (f : α → β) (xs : List α) :
    (s.windowed xs).map f = s.windowed (xs.map f) := by
  unfold windowed
  cases s.limit? <;> simp [List.map_drop, List.map_take]

theorem map_masked_rowsOf (h : s.Within names) (store : Store) :
    (s.rowsOf store).map (Row.masked names) =
      s.windowed (s.sorted (s.matching ((s.source store).map (Row.masked names)))) := by
  rw [rowsOf, map_windowed, map_masked_sorted h, map_masked_matching h]

theorem meetsComplexPattern_masked {clauses : List Clause}
    (h : ∀ c ∈ clauses, ∀ t ∈ c.terms, t.Within names) (model? : Option Model) (r : Row) :
    meetsComplexPattern model? (r.masked names) clauses = meetsComplexPattern model? r clauses := by
  induction clauses with
  | nil => rfl
  | cons c rest ih =>
    have hhere := Clause.holds_masked (h c List.mem_cons_self) model? r
    have hrest := ih fun c hc => h c (List.mem_cons_of_mem _ hc)
    simp only [meetsComplexPattern, hhere, hrest]

theorem any_meetsComplexPattern_masked (h : s.Within names) (rows : List Row) :
    (rows.map (Row.masked names)).any (fun r => meetsComplexPattern s.model? r s.clauses) =
      rows.any fun r => meetsComplexPattern s.model? r s.clauses := by
  induction rows with
  | nil => rfl
  | cons r rest ih =>
    rw [List.map_cons, List.any_cons, List.any_cons, ih, meetsComplexPattern_masked h.clauses]

/-- A statement is checked the same on sources that are the same behind the mask. -/
theorem check_eq_of_masked (h : s.Within names) {store store' : Store}
    (hsource : (s.source store).map (Row.masked names) =
      (s.source store').map (Row.masked names)) : s.check store = s.check store' := by
  have hany := any_meetsComplexPattern_masked h (s.source store)
  rw [hsource, any_meetsComplexPattern_masked h] at hany
  unfold check
  rw [hany]

/-- The answers of a statement without a window are counted the same. -/
theorem countAnswers_eq_of_masked (h : s.Within names) (hs : s.isWindowed = false)
    {store store' : Store} (hsource : (s.source store).map (Row.masked names) =
      (s.source store').map (Row.masked names)) :
    s.countAnswers store = s.countAnswers store' := by
  have hmatching : (s.matching (s.source store)).length =
      (s.matching (s.source store')).length := by
    rw [← List.length_map (f := Row.masked names), map_masked_matching h, hsource,
      ← map_masked_matching h, List.length_map]
  have hlength : (s.answersOf store).length = (s.answersOf store').length := by
    rw [length_answersOf hs, length_answersOf hs, hmatching]
  unfold countAnswers answers
  rw [check_eq_of_masked h hsource]
  cases s.check store' with
  | error e => rfl
  | ok u => exact congrArg Except.ok hlength

end Select

end TableApi
