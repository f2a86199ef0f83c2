import TableApi.Schema.Column

/-! Models: a named table with its columns. -/

namespace TableApi

structure Model where
  name : String
  table : String
  columns : List Column
  deriving Repr, Inhabited

namespace Model

def fields (m : Model) : List String := m.columns.map Column.field

def column? (m : Model) (field : String) : Option Column :=
  m.columns.find? (·.field == field)

theorem exists_column?_of_mem {m : Model} {field : String} (h : field ∈ m.fields) :
    ∃ c, m.column? field = some c := by
  obtain ⟨c, hc, hfield⟩ := List.mem_map.1 h
  exact Option.isSome_iff_exists.1 (List.find?_isSome.2 ⟨c, hc, by simp [hfield]⟩)

theorem field_of_column? {m : Model} {field : String} {c : Column}
    (h : m.column? field = some c) : c.field = field := by
  simpa using List.find?_some h

def columnNamed? (m : Model) (name : String) : Option Column :=
  m.columns.find? (·.name == name)

def primaryKey (m : Model) : List Column := m.columns.filter Column.primaryKey

/-- The single column of the primary key. -/
def soleKey? (m : Model) : Option Column :=
  match m.primaryKey with
  | [c] => some c
  | _ => none

/-- The key column that numbers the rows: a sole key of integers. -/
def rowNumber? (m : Model) : Option Column :=
  match m.soleKey? with
  | some c => if c.kind = .integer then some c else none
  | none => none

end Model

end TableApi
