import Mathlib.Data.List.Nodup
import TableApi.Record.Write

/-! Schemas. A store has a table for every one of its models; the fields and the columns of a model
have names of their own, and no row is without its key. -/

namespace TableApi

theorem Column.kept_null {c : Column} (hc : c.kind ≠ .json) : c.kept .null = .null := by
  unfold kept
  cases hk : c.kind <;> first | rfl | contradiction

/-- A column of a key: it may not be null, and neither JSON, in which null counts as a value, nor a
default can make it so. -/
structure Column.IsKey (c : Column) : Prop where
  key : c.primaryKey = true
  required : c.nullable = false
  kind : c.kind ≠ .json
  default : ∀ d, c.default? = some d → ∀ supply : Supply, (c.kept (supply.value d)).isNull = false

/-- A model whose columns have fields and names of their own, and whose key is never null. -/
structure Model.Keyed (m : Model) : Prop where
  fields : m.fields.Nodup
  names : (m.columns.map Column.name).Nodup
  keys : ∀ c ∈ m.primaryKey, c.IsKey

/-- A model whose key is the one column of the numbers of its rows. -/
theorem Model.keyed_of_id {m : Model} (hfields : m.fields.Nodup)
    (hnames : (m.columns.map Column.name).Nodup)
    (hkey : m.primaryKey = [(Column.plain "id" .integer).asKey]) : m.Keyed where
  fields := hfields
  names := hnames
  keys c hc := by
    rw [hkey, List.mem_singleton] at hc
    subst hc
    exact ⟨rfl, rfl, by decide, nofun⟩

theorem Model.column?_of_mem {m : Model} (hm : m.fields.Nodup) {c : Column} (hc : c ∈ m.columns) :
    m.column? c.field = some c := by
  obtain ⟨d, hd⟩ := Model.exists_column?_of_mem (List.mem_map_of_mem hc)
  rw [hd, List.inj_on_of_nodup_map hm (List.mem_of_find?_eq_some hd) hc (Model.field_of_column? hd)]

/-- The models of a store, each with a key, and no two of which have the same table. -/
structure Schema where
  models : List Model
  tables_nodup : (models.map Model.table).Nodup
  keyed : ∀ m ∈ models, m.Keyed

end TableApi
