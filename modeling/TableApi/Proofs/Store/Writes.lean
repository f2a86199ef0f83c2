import TableApi.Proofs.Except
import TableApi.Proofs.Store.Sound

/-! What writes do to a store. Adding a record puts one fresh row into its table, changing a row
puts one row in its place, and deleting a row takes it out. Nothing else is touched, and a write
that fails gives no store at all. -/

namespace TableApi.Store

variable {σ : Schema} {s s' : Store} {m : Model}

/-- A row was put among other rows of a table, where its number is fresh. -/
structure Placed (m : Model) (s s' : Store) (others : List Row) (row : Row) : Prop where
  store : s' = s.setRows m (insertRow row others)
  fresh : Fresh row others
  numbers : m.Numbers row

theorem Placed.sound {others : List Row} {row : Row} (h : Placed m s s' others row)
    (hs : Sound σ s) (hm : m ∈ σ.models) (hascending : Ascending others)
    (hnumbers : ∀ r ∈ others, m.Numbers r) : Sound σ s' := by
  rw [h.store]
  refine hs.setRows hm (ascending_insertRow hascending h.fresh) ?_
  intro r hr
  rcases mem_insertRow.1 hr with rfl | hother
  · exact h.numbers
  · exact hnumbers r hother

theorem Placed.rows {others : List Row} {row : Row} (h : Placed m s s' others row)
    (hs : Sound σ s) (hm : m ∈ σ.models) : s'.rows m = insertRow row others := by
  rw [h.store, hs.rows_setRows hm]

theorem Placed.mem {others : List Row} {row : Row} (h : Placed m s s' others row)
    (hs : Sound σ s) (hm : m ∈ σ.models) : row ∈ s'.rows m := by
  rw [h.rows hs hm]
  exact mem_insertRow.2 (.inl rfl)

theorem Placed.find?_number {others : List Row} {row : Row} (h : Placed m s s' others row)
    (hs : Sound σ s) (hm : m ∈ σ.models) (hascending : Ascending others) :
    (s'.rows m).find? (·.number == row.number) = some row := by
  rw [h.rows hs hm]
  exact Store.find?_number (ascending_insertRow hascending h.fresh) (mem_insertRow.2 (.inl rfl))

/-- A row that was put among others is replaced by another one among the same others. -/
theorem Placed.trans {s₁ s₂ : Store} {others : List Row} {row next : Row}
    (h : Placed m s s₁ others row) (h' : Placed m s₁ s₂ (without row (s₁.rows m)) next)
    (hs : Sound σ s) (hm : m ∈ σ.models) : Placed m s s₂ others next := by
  have hothers : without row (s₁.rows m) = others := by
    rw [h.rows hs hm, without_insertRow h.fresh]
  rw [hothers] at h'
  refine ⟨?_, h'.fresh, h'.numbers⟩
  rw [h'.store, h.store, setRows_setRows]

/-- A row that is found by its key is in its table. -/
theorem mem_rows_of_find? {key : Value} {row : Row} (h : s.find? m key = .ok (some row)) :
    row ∈ s.rows m := by
  unfold Store.find? at h
  split at h
  · cases h
  · obtain ⟨prepared, -, h⟩ := bind_eq_ok_iff.1 h
    split at h
    · cases h
    · exact List.mem_of_find?_eq_some (Except.ok.inj h)

/-! ### Rules -/

theorem order_self (x : Magnitude) : x.order x = .eq := by
  cases x with
  | units n => exact Std.ReflOrd.compare_self
  | bottom => rfl
  | top => rfl

theorem sameCell_integer (n : Int) : sameCell (.integer n) (.integer n) = true := by
  have horder : (Cell.integer n).order (.integer n) = .eq := order_self (.ofInt n)
  have hcompares : sameCell (.integer n) (.integer n) =
      Comparison.equal.admits ((Cell.integer n).order (.integer n)) := rfl
  rw [hcompares, horder]
  rfl

/-- A row breaks no rule when its required columns are there, its keys are its own and its
references hold. -/
theorem violation?_eq_none_iff {others : List Row} {row : Row} :
    s.violation? m others row = none ↔
      (∀ c ∈ m.columns, c.nullable = false → (row.cell c.name).isNull = false) ∧
      (∀ key ∈ keysOf m, ∀ other ∈ others, clashes row other key = false) ∧
        ∀ c ∈ m.columns, s.referenceHolds row c = true := by
  have hmissing : (m.columns.find? fun c => !c.nullable && (row.cell c.name).isNull) = none ↔
      ∀ c ∈ m.columns, c.nullable = false → (row.cell c.name).isNull = false := by
    rw [List.find?_eq_none]
    simp
  have hclash : ((keysOf m).find? fun key => others.any fun other => clashes row other key) =
      none ↔ ∀ key ∈ keysOf m, ∀ other ∈ others, clashes row other key = false := by
    rw [List.find?_eq_none]
    simp
  rw [← hmissing, ← hclash, ← List.all_eq_true]
  simp only [violation?]
  split
  · simp_all
  · simp_all
  · split <;> simp_all

theorem fresh_of_violation? {others : List Row} {row : Row} {c : Column}
    (hc : m.rowNumber? = some c) (hrow : m.Numbers row) (hothers : ∀ r ∈ others, m.Numbers r)
    (hok : s.violation? m others row = none) : Fresh row others := by
  intro other hother heq
  have hkey : m.primaryKey ∈ keysOf m := List.mem_cons_self
  have hclash := (violation?_eq_none_iff.1 hok).2.1 m.primaryKey hkey other hother
  have hsame : sameCell (row.cell c.name) (other.cell c.name) = true := by
    rw [hrow c hc, hothers other hother c hc, heq]
    exact sameCell_integer _
  rw [Model.primaryKey_of_rowNumber? hc] at hclash
  simp [clashes, hsame] at hclash

/-! ### Adding -/

/-- The cells of a new row by their columns. -/
theorem cell_newRow (number : Int) (written : Entries Cell) {c : Column} (hc : c ∈ m.columns) :
    ∃ d ∈ m.columns, d.name = c.name ∧
      Row.cell ⟨number, m.columns.map fun c => (c.name, newCell m number written c)⟩ c.name =
        newCell m number written d := by
  have hget : Entries.get? (m.columns.map fun c => (c.name, newCell m number written c)) c.name =
      (m.columns.find? fun d => d.name == c.name).map (newCell m number written) :=
    Entries.get?_map Column.name _ m.columns c.name
  cases hfind : m.columns.find? fun d => d.name == c.name with
  | none =>
    have hnone := List.find?_eq_none.1 hfind c hc
    simp at hnone
  | some d =>
    refine ⟨d, List.mem_of_find?_eq_some hfind, by simpa using List.find?_some hfind, ?_⟩
    rw [Row.cell, hget, hfind, Option.map_some, Option.getD_some]

theorem numbers_newRow (m : Model) (number : Int) (written : Entries Cell) :
    m.Numbers ⟨number, m.columns.map fun c => (c.name, newCell m number written c)⟩ := by
  intro c hc
  obtain ⟨d, -, hname, hcell⟩ := cell_newRow number written (Model.mem_columns_of_rowNumber? hc)
  rw [hcell, newCell, hc, Option.map_some, hname, if_pos rfl]

theorem fresh_newNumber {number : Int} {written : Entries Cell} {cells : Entries Cell}
    (hs : Sound σ s) (hm : m ∈ σ.models) (hnumber : s.newNumber m written = .ok number)
    (hnone : m.rowNumber? = none) : Fresh ⟨number, cells⟩ (s.rows m) := by
  have hnext : number = nextNumber (s.rows m) := by
    simp only [newNumber, hnone, Option.bind_none] at hnumber
    split at hnumber
    · exact (Except.ok.inj hnumber).symm
    · cases hnumber
  intro other hother
  have := number_lt_nextNumber (hs.ascending hm) other hother
  simp only [hnext]
  omega

/-- Adding a record puts one fresh row into its table. -/
theorem placed_of_insert {supply : Supply} {r : Record} {row : Row} (hs : Sound σ s)
    (hm : m ∈ σ.models) (h : s.insert supply m r = .ok (s', row)) :
    Placed m s s' (s.rows m) row := by
  simp only [insert, bind_eq_ok_iff] at h
  obtain ⟨cells, -, number, hnumber, h⟩ := h
  split at h
  · cases h
  · next hok =>
    obtain ⟨rfl, rfl⟩ := Prod.mk.inj (Except.ok.inj h)
    have hnumbers := numbers_newRow m number
    refine ⟨rfl, ?_, hnumbers _⟩
    cases hc : m.rowNumber? with
    | none => exact fresh_newNumber hs hm hnumber hc
    | some c => exact fresh_of_violation? hc (hnumbers _) (hs.numbers hm) hok

/-! ### Changing -/

theorem renumbered_eq_ok {row next : Row} (h : renumbered m row = .ok next) :
    m.Numbers next ∧ (m.rowNumber? = none → next.number = row.number) := by
  unfold renumbered at h
  split at h
  · next hnone =>
    cases h
    exact ⟨fun c hc => absurd (hnone.symm.trans hc) nofun, fun _ => rfl⟩
  · next c hc =>
    split at h
    · next number hcell =>
      cases h
      refine ⟨?_, fun hnone => absurd (hnone.symm.trans hc) nofun⟩
      intro d hd
      rw [hc] at hd
      cases hd
      exact hcell
    · cases h

theorem locate_eq_ok_iff {row : Row} {r : Record} :
    locate m row r = .ok () ↔ row.isNamedBy m r = true := by
  unfold locate
  split
  · next h => exact iff_of_true rfl h
  · next h => exact iff_of_false nofun h

/-- What a change does: it writes nothing, or its values are bound, its key names the row, and the
row with the new cells breaks no rule in its place. -/
theorem of_update {now : Calendar.Moment} {row next : Row} {before after : Record}
    (h : s.update now m row before after = .ok (s', next)) :
    changes now m before after = [] ∧ s' = s ∧ next = row ∨
      ∃ cells, bindColumns (changes now m before after)
          (m.primaryKey.map fun c => (c.kind.parameterType, before.value c.field)) = .ok cells ∧
        row.isNamedBy m before = true ∧
        renumbered m (withCells row
          (((changes now m before after).map fun p => p.1.name).zip cells)) = .ok next ∧
        s.violation? m (s.otherRows m row) next = none ∧
        s' = s.setRows m (insertRow next (s.otherRows m row)) := by
  simp only [update] at h
  split at h
  · next hnothing =>
    obtain ⟨rfl, rfl⟩ := Prod.mk.inj (Except.ok.inj h)
    exact .inl ⟨List.isEmpty_iff.1 hnothing, rfl, rfl⟩
  · obtain ⟨cells, hcells, h⟩ := bind_eq_ok_iff.1 h
    obtain ⟨_, hlocated, h⟩ := bind_eq_ok_iff.1 h
    obtain ⟨next, hnext, h⟩ := bind_eq_ok_iff.1 h
    split at h
    · cases h
    · next hrules =>
      split at h
      · cases h
      · obtain ⟨rfl, rfl⟩ := Prod.mk.inj (Except.ok.inj h)
        exact .inr ⟨cells, hcells, locate_eq_ok_iff.1 hlocated, hnext, hrules, rfl⟩

/-- Changing a row puts one row in its place among the other rows of the table. -/
theorem placed_of_update {now : Calendar.Moment} {row next : Row} {before after : Record}
    (hs : Sound σ s) (hm : m ∈ σ.models) (hrow : row ∈ s.rows m)
    (h : s.update now m row before after = .ok (s', next)) :
    Placed m s s' (without row (s.rows m)) next := by
  rcases of_update h with ⟨-, rfl, rfl⟩ | ⟨cells, -, -, hnext, hrules, rfl⟩
  · -- Nothing is written, and the row is put back where it was.
    refine ⟨?_, fresh_without _ _, hs.numbers hm _ hrow⟩
    rw [insertRow_without (hs.ascending hm) hrow, hs.setRows_rows hm]
  · obtain ⟨hnumbers, hkept⟩ := renumbered_eq_ok hnext
    refine ⟨rfl, ?_, hnumbers⟩
    cases hc : m.rowNumber? with
    | none =>
      intro other hother
      rw [hkept hc]
      exact fresh_without row _ other hother
    | some c => exact fresh_of_violation? hc hnumbers (hs.numbers_without hm row) hrules

/-! ### Deleting -/

theorem setRows_of_delete {row : Row} (h : s.delete m row = .ok s') :
    s' = s.setRows m (without row (s.rows m)) := by
  unfold delete at h
  split at h
  · cases h
  · exact (Except.ok.inj h).symm

/-- Deleting a row takes out that row alone: put back, it gives the rows from before. -/
theorem placed_of_delete {row : Row} (hs : Sound σ s) (hm : m ∈ σ.models) (hrow : row ∈ s.rows m)
    (h : s.delete m row = .ok s') : Placed m s' s (s'.rows m) row := by
  have hstore := setRows_of_delete h
  have hrows : s'.rows m = without row (s.rows m) := by rw [hstore, hs.rows_setRows hm]
  refine ⟨?_, ?_, hs.numbers hm row hrow⟩
  · rw [hrows, insertRow_without (hs.ascending hm) hrow, hstore, setRows_setRows,
      hs.setRows_rows hm]
  · rw [hrows]
    exact fresh_without row _

theorem sound_of_delete {row : Row} (hs : Sound σ s) (hm : m ∈ σ.models)
    (h : s.delete m row = .ok s') : Sound σ s' := by
  rw [setRows_of_delete h]
  exact hs.setRows hm (hs.ascending_without hm row) (hs.numbers_without hm row)

/-! ### Rows of all tables -/

/-- A store all of whose rows are as a property asks of the rows of their models. -/
def Holds (P : Model → Row → Prop) (s : Store) : Prop := ∀ t ∈ s, ∀ row ∈ t.rows, P t.model row

section Holds

variable {P : Model → Row → Prop}

theorem holds_empty (models : List Model) : (empty models).Holds P := by
  intro t ht row hrow
  obtain ⟨m, -, rfl⟩ := List.mem_map.1 ht
  cases hrow

theorem Holds.rows (h : s.Holds P) (hs : s.Sound σ) (hm : m ∈ σ.models) :
    ∀ row ∈ s.rows m, P m row := by
  obtain ⟨t, ht, htm, htable⟩ := hs.exists_table hm
  intro row hrow
  rw [Store.rows, htable] at hrow
  exact htm ▸ h t ht row hrow

theorem Holds.setRows (h : s.Holds P) (hs : s.Sound σ) (hm : m ∈ σ.models) {rows : List Row}
    (hrows : ∀ row ∈ rows, P m row) : (s.setRows m rows).Holds P :=
  hs.forall_setRows hm (P := fun m rows => ∀ row ∈ rows, P m row) h hrows

/-- A row that has the property is put among old ones. -/
theorem Holds.placed (h : s.Holds P) (hs : s.Sound σ) (hm : m ∈ σ.models) {others : List Row}
    {row : Row} (hplaced : Placed m s s' others row) (hothers : ∀ r ∈ others, r ∈ s.rows m)
    (hrow : P m row) : s'.Holds P := by
  rw [hplaced.store]
  refine h.setRows hs hm fun r hr => ?_
  rcases mem_insertRow.1 hr with rfl | hold
  · exact hrow
  · exact h.rows hs hm r (hothers r hold)

end Holds

end TableApi.Store
