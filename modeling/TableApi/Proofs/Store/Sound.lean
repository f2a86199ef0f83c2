import TableApi.Proofs.Store.Rows
import TableApi.Proofs.Store.Schema

/-! Sound stores. A sound store has the tables of its schema, each with rows in the order of their
numbers, which are those of their keys where a key numbers the rows. Every write puts one row in a
place that no other row has, and so keeps a store sound. -/

namespace TableApi

/-- A row whose number is its key, where the key numbers the rows. -/
def Model.Numbers (m : Model) (r : Row) : Prop :=
  ∀ c, m.rowNumber? = some c → r.cell c.name = .integer r.number

theorem Model.soleKey?_of_rowNumber? {m : Model} {c : Column} (h : m.rowNumber? = some c) :
    m.soleKey? = some c ∧ c.kind = .integer := by
  unfold rowNumber? at h
  split at h
  · next d hd =>
    split at h
    · next hkind =>
      cases h
      exact ⟨hd, hkind⟩
    · cases h
  · cases h

theorem Model.primaryKey_of_soleKey? {m : Model} {c : Column} (h : m.soleKey? = some c) :
    m.primaryKey = [c] := by
  unfold soleKey? at h
  split at h
  · next d hd => rw [hd, Option.some.inj h]
  · cases h

theorem Model.primaryKey_of_rowNumber? {m : Model} {c : Column} (h : m.rowNumber? = some c) :
    m.primaryKey = [c] :=
  primaryKey_of_soleKey? (soleKey?_of_rowNumber? h).1

theorem Model.mem_columns_of_rowNumber? {m : Model} {c : Column} (h : m.rowNumber? = some c) :
    c ∈ m.columns := by
  have hkey : c ∈ m.primaryKey := by
    rw [primaryKey_of_rowNumber? h]
    exact List.mem_singleton.2 rfl
  exact (List.mem_filter.1 hkey).1

structure Table.Sound (t : Table) : Prop where
  ascending : Store.Ascending t.rows
  numbers : ∀ r ∈ t.rows, t.model.Numbers r

namespace Store

structure Sound (σ : Schema) (s : Store) : Prop where
  models : s.map Table.model = σ.models
  tables : ∀ t ∈ s, t.Sound

variable {σ : Schema} {s : Store} {m : Model}

theorem sound_empty (σ : Schema) : Sound σ (empty σ.models) := by
  constructor
  · rw [empty, List.map_map]
    exact List.map_id σ.models
  · intro t ht
    obtain ⟨m, -, rfl⟩ := List.mem_map.1 ht
    exact ⟨List.Pairwise.nil, fun r hr => absurd hr List.not_mem_nil⟩

/-! ### Tables -/

/-- Every model of the schema has its table. -/
theorem Sound.exists_table (h : Sound σ s) (hm : m ∈ σ.models) :
    ∃ t ∈ s, t.model = m ∧ s.table? m.table = some t := by
  have hmem : m ∈ s.map Table.model := by
    rw [h.models]
    exact hm
  obtain ⟨t, ht, htm⟩ := List.mem_map.1 hmem
  cases hfind : s.table? m.table with
  | none =>
    have hnone := List.find?_eq_none.1 hfind t ht
    simp [htm] at hnone
  | some u =>
    have hu : u ∈ s := List.mem_of_find?_eq_some hfind
    have htable : u.model.table = m.table := by simpa using List.find?_some hfind
    have hum : u.model = m := by
      have humodel : u.model ∈ σ.models := by
        rw [← h.models]
        exact List.mem_map_of_mem hu
      exact List.inj_on_of_nodup_map σ.tables_nodup humodel hm htable
    exact ⟨u, hu, hum, rfl⟩

theorem Sound.ascending (h : Sound σ s) (hm : m ∈ σ.models) : Ascending (s.rows m) := by
  obtain ⟨t, ht, -, htable⟩ := h.exists_table hm
  rw [rows, htable]
  exact (h.tables t ht).ascending

theorem Sound.numbers (h : Sound σ s) (hm : m ∈ σ.models) : ∀ r ∈ s.rows m, m.Numbers r := by
  obtain ⟨t, ht, htm, htable⟩ := h.exists_table hm
  rw [rows, htable, ← htm]
  exact (h.tables t ht).numbers

theorem Sound.ascending_without (hs : Sound σ s) (hm : m ∈ σ.models) (row : Row) :
    Ascending (without row (s.rows m)) := Store.ascending_without (hs.ascending hm) row

theorem Sound.numbers_without (hs : Sound σ s) (hm : m ∈ σ.models) (row : Row) :
    ∀ r ∈ without row (s.rows m), m.Numbers r :=
  fun r hr => hs.numbers hm r (List.mem_filter.1 hr).1

theorem models_setRows (s : Store) (m : Model) (rows : List Row) :
    (s.setRows m rows).map Table.model = s.map Table.model := by
  rw [setRows, List.map_map]
  apply List.map_congr_left
  intro t _
  rw [Function.comp_apply]
  split <;> rfl

theorem setRows_setRows (s : Store) (m : Model) (as bs : List Row) :
    (s.setRows m as).setRows m bs = s.setRows m bs := by
  rw [setRows, setRows, setRows, List.map_map]
  apply List.map_congr_left
  intro t _
  rw [Function.comp_apply]
  split <;> simp_all

/-- The rows that a table was given. -/
theorem Sound.rows_setRows (h : Sound σ s) (hm : m ∈ σ.models) (rows : List Row) :
    (s.setRows m rows).rows m = rows := by
  obtain ⟨t, -, htm, htable⟩ := h.exists_table hm
  have hgiven : (s.setRows m rows).table? m.table = some { t with rows } := by
    rw [table?, setRows, List.find?_map]
    have hsame : ((fun t : Table => t.model.table == m.table) ∘
        fun t => if t.model.table == m.table then { t with rows } else t) =
          fun t => t.model.table == m.table := by
      funext u
      rw [Function.comp_apply]
      split <;> rfl
    rw [hsame]
    have hfound : List.find? (fun t : Table => t.model.table == m.table) s = some t := htable
    simp [hfound, htm]
  rw [Store.rows, hgiven]
  rfl

/-- Giving a table its own rows changes nothing. -/
theorem Sound.setRows_rows (h : Sound σ s) (hm : m ∈ σ.models) : s.setRows m (s.rows m) = s := by
  obtain ⟨t, ht, htm, htable⟩ := h.exists_table hm
  have hrows : s.rows m = t.rows := by
    rw [rows, htable]
    rfl
  have hnodup : (s.map fun t => t.model.table).Nodup := by
    have hmodels := σ.tables_nodup
    rw [← h.models, List.map_map] at hmodels
    exact hmodels
  rw [setRows, hrows]
  conv_rhs => rw [← List.map_id s]
  apply List.map_congr_left
  intro u hu
  split
  · next heq =>
    have hut : u = t := by
      apply List.inj_on_of_nodup_map hnodup hu ht
      rw [htm]
      simpa using heq
    rw [hut]
    rfl
  · rfl

/-- What holds of the rows of every table still does when one of them is given rows of which it
holds. -/
theorem Sound.forall_setRows (h : Sound σ s) (hm : m ∈ σ.models) {P : Model → List Row → Prop}
    {rows : List Row} (hs : ∀ t ∈ s, P t.model t.rows) (hrows : P m rows) :
    ∀ t ∈ s.setRows m rows, P t.model t.rows := by
  intro u hu
  obtain ⟨t, ht, rfl⟩ := List.mem_map.1 hu
  have htmodel : t.model ∈ σ.models := by
    rw [← h.models]
    exact List.mem_map_of_mem ht
  split
  · next heq =>
    have htm : t.model = m :=
      List.inj_on_of_nodup_map σ.tables_nodup htmodel hm (by simpa using heq)
    exact htm.symm ▸ hrows
  · exact hs t ht

/-- A sound store stays sound when a table is given sound rows. -/
theorem Sound.setRows (h : Sound σ s) (hm : m ∈ σ.models) {rows : List Row}
    (hascending : Ascending rows) (hnumbers : ∀ r ∈ rows, m.Numbers r) :
    Sound σ (s.setRows m rows) := by
  have hmodels : (s.setRows m rows).map Table.model = σ.models := by
    rw [models_setRows, h.models]
  have hall := h.forall_setRows hm (P := fun m rows => Ascending rows ∧ ∀ r ∈ rows, m.Numbers r)
    (fun t ht => ⟨(h.tables t ht).ascending, (h.tables t ht).numbers⟩) ⟨hascending, hnumbers⟩
  exact ⟨hmodels, fun t ht => ⟨(hall t ht).1, (hall t ht).2⟩⟩

end Store

end TableApi
