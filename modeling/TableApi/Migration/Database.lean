import TableApi.Migration.Statement
import TableApi.Record.Write

/-! Databases as migrations see them: tables with their definitions, indexes and rows. -/

namespace TableApi.Migration

structure DatabaseTable where
  definition : TableDef
  indexes : List IndexDef
  rows : List Row
  deriving Repr

abbrev Database : Type := List DatabaseTable

/-- Why a database refuses a statement. -/
inductive DatabaseError where
  | tableExists (name : String)
  | indexExists (name : String)
  | noTable (name : String)
  | noIndex (name : String)
  | noColumn (table column : String)
  | store (e : StoreError)
  deriving Repr

def DatabaseError.message : DatabaseError → String
  | tableExists name => "table " ++ name ++ " already exists"
  | indexExists name => "index " ++ name ++ " already exists"
  | noTable name => "no such table: " ++ name
  | noIndex name => "no such index: " ++ name
  | noColumn table column => "table " ++ table ++ " has no column named " ++ column
  | store e => e.message

namespace Database

def table? (db : Database) (name : String) : Option DatabaseTable :=
  db.find? (·.definition.name == name)

def hasIndex (db : Database) (name : String) : Bool :=
  db.any fun t => t.indexes.any (·.name == name)

/-- Carry out a statement. -/
def apply (db : Database) : Statement → Except DatabaseError Database
  | .createTable t =>
    if (db.table? t.name).isSome then .error (.tableExists t.name)
    else .ok (db ++ [⟨t, [], []⟩])
  | .createIndex i =>
    if (db.table? i.table).isNone then .error (.noTable i.table)
    else if db.hasIndex i.name then .error (.indexExists i.name)
    else .ok (db.map fun t =>
      if t.definition.name = i.table then { t with indexes := t.indexes ++ [i] } else t)
  | .dropIndex name =>
    if db.hasIndex name then
      .ok (db.map fun t => { t with indexes := t.indexes.filter (·.name != name) })
    else .error (.noIndex name)
  | .dropTable name =>
    if (db.table? name).isSome then .ok (db.filter (·.definition.name != name))
    else .error (.noTable name)

/-- Carry out statements up to the first that is refused: the database then, and the reason. -/
def applyAll (db : Database) : List Statement → Database × Option DatabaseError
  | [] => (db, none)
  | s :: rest =>
    match db.apply s with
    | .ok next => applyAll next rest
    | .error e => (db, some e)

end Database

def SqlType.kind : SqlType → ColumnKind
  | integer => .integer
  | varchar _ | text => .text
  | timestamp => .moment

/-- The model of a table, whose fields are its columns. -/
def TableDef.model (t : TableDef) : Model where
  name := t.name
  table := t.name
  columns := t.columns.map fun c =>
    { Column.plain c.name c.type.kind with
      nullable := c.nullable, primaryKey := c.name == t.key, serverDefault? := c.default? }

namespace Database

/-- Add a row with the given cells to a table. -/
def insert (db : Database) (name : String) (given : Entries Cell) :
    Except DatabaseError Database := do
  match db.table? name with
  | none => throw (.noTable name)
  | some t =>
    let m := t.definition.model
    match given.find? fun entry => (m.columnNamed? entry.1).isNone with
    | some entry => throw (.noColumn name entry.1)
    | none => pure ()
    let written := given.map fun (column, cell) =>
      (column, match m.columnNamed? column with
        | some c => c.kind.affinity.stored cell
        | none => cell)
    let store : Store := [⟨m, t.rows⟩]
    let number ← (Store.newNumber store m written).mapError .store
    let row : Row := ⟨number, m.columns.map fun c => (c.name, Store.newCell m number written c)⟩
    match Store.violation? store m t.rows row with
    | some v => throw (.store (.violation v))
    | none =>
      pure (db.map fun other =>
        if other.definition.name = name then
          { other with rows := Store.insertRow row other.rows }
        else other)

end Database

end TableApi.Migration
