import TableApi.Store.Loading
import TableApi.Store.Table

/-! Records: the fields of one row as values. A new record holds only the fields that were set. -/

namespace TableApi

abbrev Record : Type := Entries Value

namespace Record

/-- The value of a field, null when it was not set. -/
def value (r : Record) (field : String) : Value := (Entries.get? r field).getD .null

def ofRow (m : Model) (row : Row) : Record :=
  m.columns.map fun c => (c.field, (row.cell c.name).load c.kind)

theorem get?_ofRow (m : Model) (row : Row) (field : String) :
    Entries.get? (ofRow m row) field =
      (m.column? field).map fun c => (row.cell c.name).load c.kind :=
  Entries.get?_map Column.field _ m.columns field

theorem value_ofRow {m : Model} {field : String} {c : Column} (h : m.column? field = some c)
    (row : Row) : value (ofRow m row) field = (row.cell c.name).load c.kind := by
  rw [value, get?_ofRow, h]
  rfl

end Record

end TableApi
