import TableApi.Coercion
import TableApi.Record.Basic
import TableApi.Statement.Select
import TableApi.Value.Equality

/-! Writing records: adding a row with its defaults, changing the fields of a row, and deleting a
row. A write that breaks a rule of the tables leaves no trace. -/

namespace TableApi

open TableApi.Calendar

/-- What defaults are drawn from: the time, and the count of identifiers drawn so far. -/
structure Supply where
  now : Moment
  drawn : Nat
  deriving Repr

namespace Supply

def value (s : Supply) : Default → Value
  | .value v => v
  | .now => .moment s.now
  | .nextUuid => .uuid (.ofNat (s.drawn + 1))

end Supply

namespace Record

/-- Whether adding a record draws an identifier. -/
def draws (m : Model) (r : Record) : Bool :=
  m.columns.any fun c => (c.default? matches some .nextUuid) && (r.value c.field).isNull

/-- What a new record sends for a column: the value that was set, or the default. Nothing is sent
for a key or a default that the store makes by itself. Null counts as not set, except that it is a
value of JSON. -/
def sent? (s : Supply) (r : Record) (c : Column) : Option Value :=
  match Entries.get? r c.field with
  | some .null =>
    if c.kind = .json then some .null
    else if c.default?.isSome then c.default?.map s.value
    else if c.primaryKey ∨ c.serverDefault?.isSome then none
    else some .null
  | some v => some v
  | none =>
    if c.default?.isSome then c.default?.map s.value
    else if c.primaryKey ∨ c.serverDefault?.isSome ∨ c.kind = .json then none
    else some .null

end Record

namespace Store

/-- Whether two cells of a column are equal and not null. -/
def sameCell (a b : Cell) : Bool := Affinity.none.compares .equal a b

/-- Whether a value is another one than before. One that was left alone is not, even where it is no
number and so does not equal itself. -/
def differs (before after : Value) : Bool := !after.identical before && !after.same before

end Store

/-- The cell that a column keeps of a value that can be bound. -/
def Column.kept (c : Column) (v : Value) : Cell :=
  c.kind.affinity.stored (Clause.boundCell (c.kind.parameterType, v))

/-- Whether a value names a cell: the cell is loaded as it, or the column keeps it as an equal cell.
Null and what is no number name no cell but their own. -/
def Column.names (c : Column) (cell : Cell) (v : Value) : Bool :=
  !Store.differs (cell.load c.kind) v || Store.sameCell cell (c.kept v)

/-- Whether the key of a record is that of a row. -/
def Row.isNamedBy (m : Model) (r : Record) (row : Row) : Bool :=
  m.primaryKey.all fun c => c.names (row.cell c.name) (r.value c.field)

namespace Store

/-- The cells that a statement would write for values of columns. -/
def bindColumns (sent : List (Column × Value)) (more : List (ParameterType × Value)) :
    Except StoreError (List Cell) := do
  let prepared ← Select.prepareAll
    (sent.map (fun (c, v) => (c.kind.parameterType, v)) ++ more)
  match bindAll 1 prepared with
  | .error e => throw (.bind e)
  | .ok cells => pure ((sent.zip cells).map fun ((c, _), cell) => c.kind.affinity.stored cell)

/-- The keys of a table, each a list of columns: the primary key and every unique column. -/
def keysOf (m : Model) : List (List Column) :=
  m.primaryKey :: (m.columns.filter Column.unique).map fun c => [c]

/-- Whether a row has the same key as another one. -/
def clashes (row other : Row) (key : List Column) : Bool :=
  !key.isEmpty && key.all fun c => sameCell (row.cell c.name) (other.cell c.name)

/-- Whether the row that a reference of a column names is there. -/
def referenceHolds (s : Store) (row : Row) (c : Column) : Bool :=
  match c.references? with
  | none => true
  | some ref =>
    (row.cell c.name).isNull ||
      (((s.table? ref.table).map Table.rows).getD []).any fun other =>
        sameCell (row.cell c.name) (other.cell ref.column)

/-- The rule that a row of a table would break beside other rows. -/
def violation? (s : Store) (m : Model) (others : List Row) (row : Row) : Option Violation :=
  let missing := m.columns.find? fun c => !c.nullable && (row.cell c.name).isNull
  let clash := (keysOf m).find? fun key => others.any fun other => clashes row other key
  match missing, clash with
  | some c, _ => some (.notNull m.table c.name)
  | none, some key => some (.unique m.table (key.map Column.name))
  | none, none =>
    if m.columns.all fun c => s.referenceHolds row c then none else some .reference

/-- The cell of a column in a new row: the number of the row where the column numbers the rows, what
was sent, or the default of the store. -/
def newCell (m : Model) (number : Int) (written : Entries Cell) (c : Column) : Cell :=
  if (m.rowNumber?.map Column.name) = some c.name then .integer number
  else match written.get? c.name with
    | some cell => cell
    | none =>
      match c.serverDefault? with
      | some s => c.kind.affinity.stored (.text s)
      | none => .null

/-- The number of a new row: that of its key when it numbers the rows, the next one else, as long as
the store has one. Behind the largest number the store would try others at random; here it is
full. -/
def newNumber (s : Store) (m : Model) (written : Entries Cell) : Except StoreError Int :=
  match m.rowNumber?.bind fun c => written.get? c.name with
  | some (.integer n) => .ok n
  | some .null | none =>
    let next := nextNumber (s.rows m)
    if Number.fitsStore next then .ok next else .error .full
  | some _ => .error (.violation .mismatch)

/-- Add a record. -/
def insert (s : Store) (supply : Supply) (m : Model) (r : Record) :
    Except StoreError (Store × Row) := do
  let sent := m.columns.filterMap fun c => (r.sent? supply c).map (c, ·)
  let cells ← bindColumns sent []
  let written := (sent.map fun (c, _) => c.name).zip cells
  let number ← newNumber s m written
  let row : Row := ⟨number, m.columns.map fun c => (c.name, newCell m number written c)⟩
  match violation? s m (s.rows m) row with
  | some v => throw (.violation v)
  | none => pure (s.setRows m (insertRow row (s.rows m)), row)

/-- The record as it is known after it was added: what was set or drawn, and for the rest what the
store made of it. -/
def inserted (supply : Supply) (m : Model) (r : Record) (row : Row) : Record :=
  m.columns.map fun c =>
    (c.field, match r.sent? supply c with
      | some v => v
      | none => (row.cell c.name).load c.kind)

def changedColumns (m : Model) (before after : Record) : List Column :=
  m.columns.filter fun c => differs (before.value c.field) (after.value c.field)

/-- The values that a change writes: those of the changed columns, and the time where a column keeps
the time of changes. -/
def changes (now : Moment) (m : Model) (before after : Record) : List (Column × Value) :=
  let changed := (changedColumns m before after).map Column.field
  if changed.isEmpty then []
  else m.columns.filterMap fun c =>
    if changed.contains c.field then some (c, after.value c.field)
    else if c.stampedOnUpdate then some (c, .moment now)
    else none

def withCells (row : Row) (written : Entries Cell) : Row :=
  { row with cells := row.cells.map fun (name, cell) =>
      (name, (Entries.get? written name).getD cell) }

/-- The row with the number that its key gives, where the key numbers the rows. -/
def renumbered (m : Model) (row : Row) : Except StoreError Row :=
  match m.rowNumber? with
  | none => .ok row
  | some c =>
    match row.cell c.name with
    | .integer number => .ok { row with number }
    | _ => .error (.violation .mismatch)

def otherRows (s : Store) (m : Model) (row : Row) : List Row :=
  (s.rows m).filter fun r => r.number != row.number

/-- Whether another row refers to a row. -/
def isReferenced (s : Store) (m : Model) (row : Row) : Bool :=
  s.any fun t => t.model.columns.any fun c =>
    match c.references? with
    | none => false
    | some ref => ref.table == m.table && t.rows.any fun other =>
        (t.model.table != m.table || other.number != row.number) &&
          sameCell (other.cell c.name) (row.cell ref.column)

/-- A row is changed by the key of its record, which finds nothing where it does not name the row. -/
def locate (m : Model) (row : Row) (r : Record) : Except StoreError Unit :=
  if row.isNamedBy m r then .ok () else .error (.stale m.table)

/-- Change a row from one record to another. Nothing is written when no field differs. -/
def update (s : Store) (now : Moment) (m : Model) (row : Row) (before after : Record) :
    Except StoreError (Store × Row) := do
  let written := changes now m before after
  if written.isEmpty then pure (s, row)
  else
    let keys := m.primaryKey.map fun c => (c.kind.parameterType, before.value c.field)
    let cells ← bindColumns written keys
    locate m row before
    let next ← renumbered m (withCells row ((written.map fun (c, _) => c.name).zip cells))
    let others := s.otherRows m row
    match violation? s m others next with
    | some v => throw (.violation v)
    | none =>
      if s.isReferenced m row && !s.isReferenced m next then throw (.violation .reference)
      else pure (s.setRows m (insertRow next others), next)

/-- Delete a row that no other row refers to. -/
def delete (s : Store) (m : Model) (row : Row) : Except StoreError Store :=
  if s.isReferenced m row then .error (.violation .reference)
  else .ok (s.setRows m (s.otherRows m row))

/-- The row with a primary key of one column. -/
def find? (s : Store) (m : Model) (key : Value) : Except StoreError (Option Row) := do
  match m.soleKey? with
  | none => pure none
  | some c =>
    let prepared ← Select.prepareAll [(c.kind.parameterType, key)]
    match bindAll 1 prepared with
    | .error e => throw (.bind e)
    | .ok cells =>
      pure ((s.rows m).find? fun row =>
        cells.all fun operand => c.kind.affinity.compares .equal (row.cell c.name) operand)

/-- Add a record whose values are first converted to their columns. -/
def insertCoerced (s : Store) (supply : Supply) (m : Model) (r : Record) :
    Except StoreError (Store × Row) :=
  s.insert supply m (m.columns.filterMap fun c => (Entries.get? r c.field).map fun v =>
    (c.field, match coerce c.kind v with
      | .ok x => x
      | .error _ => v))

end Store

end TableApi
