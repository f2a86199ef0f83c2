import TableApi.Schema.Model
import TableApi.Store.Cell

/-! The store: a table of numbered rows for every model. Rows stand in the order of their
numbers. -/

namespace TableApi

/-- A row: its number and its cells by the names of the columns. -/
structure Row where
  number : Int
  cells : Entries Cell
  deriving DecidableEq, Repr, Inhabited

namespace Row

/-- The cell in a column, null when the row has none. -/
def cell (r : Row) (name : String) : Cell := (r.cells.get? name).getD .null

end Row

structure Table where
  model : Model
  rows : List Row
  deriving Repr, Inhabited

abbrev Store : Type := List Table

namespace Store

def table? (s : Store) (name : String) : Option Table := s.find? (·.model.table == name)

def rows (s : Store) (m : Model) : List Row := ((s.table? m.table).map Table.rows).getD []

def setRows (s : Store) (m : Model) (rows : List Row) : Store :=
  s.map fun t => if t.model.table == m.table then { t with rows } else t

def empty (models : List Model) : Store := models.map fun model => ⟨model, []⟩

/-- The rows with one more, at the place of its number. -/
def insertRow (row : Row) : List Row → List Row
  | [] => [row]
  | r :: rest => if row.number < r.number then row :: r :: rest else r :: insertRow row rest

theorem mem_insertRow {r row : Row} {rows : List Row} :
    r ∈ insertRow row rows ↔ r = row ∨ r ∈ rows := by
  induction rows with
  | nil => simp [insertRow]
  | cons first rest ih =>
    unfold insertRow
    split
    · simp
    · simp only [List.mem_cons, ih]
      constructor
      · rintro (h | h | h) <;> simp [h]
      · rintro (h | h | h) <;> simp [h]

/-- The number of a new row: one more than that of the last row. -/
def nextNumber (rows : List Row) : Int :=
  match rows.getLast? with
  | none => 1
  | some r => r.number + 1

end Store

end TableApi
