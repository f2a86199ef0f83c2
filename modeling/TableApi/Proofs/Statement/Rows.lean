import TableApi.Statement.Select

/-! The rows of a statement, which are rows of its table. Without a window its order changes neither
their count nor that of its answers, which only the clauses determine. -/

namespace TableApi.Select

theorem isWindowed_eq_false {s : Select} :
    s.isWindowed = false ↔ s.limit? = none ∧ s.offset? = none := by
  simp [isWindowed]

theorem windowed_of_not_isWindowed {α : Type} {s : Select} (h : s.isWindowed = false)
    (xs : List α) : s.windowed xs = xs := by
  obtain ⟨hl, ho⟩ := isWindowed_eq_false.1 h
  simp [windowed, hl, ho]

theorem length_sorted (s : Select) (rows : List Row) : (s.sorted rows).length = rows.length := by
  unfold sorted
  split
  · rfl
  · exact List.length_mergeSort rows

/-- The order of a statement only rearranges the rows that satisfy its clauses. -/
theorem rowsOf_perm {s : Select} (h : s.isWindowed = false) (store : Store) :
    (s.rowsOf store).Perm (s.matching (s.source store)) := by
  rw [rowsOf, windowed_of_not_isWindowed h, sorted]
  split
  · exact List.Perm.refl _
  · exact List.mergeSort_perm _ _

/-- A statement gives rows of its table. -/
theorem mem_source_of_mem_rowsOf {s : Select} {store : Store} {row : Row}
    (h : row ∈ s.rowsOf store) : row ∈ s.source store := by
  have hsorted : row ∈ s.sorted (s.matching (s.source store)) := by
    unfold rowsOf windowed at h
    dsimp only at h
    split at h
    · exact List.mem_of_mem_drop (List.mem_of_mem_take h)
    · exact List.mem_of_mem_drop h
  have hmatching : row ∈ s.matching (s.source store) := by
    unfold sorted at hsorted
    split at hsorted
    · exact hsorted
    · exact List.mem_mergeSort.1 hsorted
  exact (List.mem_filter.1 hmatching).1

/-- The rows of a statement without a window are those that satisfy its clauses, in its order. -/
theorem mem_rowsOf_iff {s : Select} (h : s.isWindowed = false) {store : Store} {row : Row} :
    row ∈ s.rowsOf store ↔
      row ∈ s.source store ∧ s.clauses.all (Clause.holds s.model? row) = true := by
  rw [rowsOf, windowed_of_not_isWindowed h, sorted]
  split
  · exact List.mem_filter
  · rw [List.mem_mergeSort]
    exact List.mem_filter

/-- The count of answers of a statement without a window, which its order does not change. -/
theorem length_answersOf {s : Select} (h : s.isWindowed = false) (store : Store) :
    (s.answersOf store).length =
      match s.output, s.model? with
      | .records, some _ | .fields _, some _ | .constants _, _ =>
        (s.matching (s.source store)).length
      | .count _, some _ => 1
      | _, _ => 0 := by
  unfold answersOf
  cases s.output <;> cases s.model? <;>
    simp [windowed_of_not_isWindowed h, length_sorted]

theorem length_rowsOf_eq {s : Select} (hmodel : s.model?.isSome = true)
    (hrecords : s.output = .records) (store : Store) :
    (s.rowsOf store).length = (s.answersOf store).length := by
  obtain ⟨m, hm⟩ := Option.isSome_iff_exists.1 hmodel
  rw [answersOf, hrecords, hm, List.length_map, rowsOf]

theorem length_answersOf_le {s : Select} (h : s.isWindowed = false) (store : Store) :
    (s.answersOf store).length ≤ max (s.source store).length 1 := by
  have hm : (s.matching (s.source store)).length ≤ (s.source store).length :=
    List.length_filter_le _ _
  rw [length_answersOf h]
  split <;> omega

end TableApi.Select
