import TableApi.Text.Blank

/-! Statements that change the tables of a database, and their texts in the dialects of two
databases. -/

namespace TableApi.Migration

open TableApi.Text

inductive Dialect where
  | sqlite
  | postgresql
  deriving DecidableEq, Repr

def Dialect.ofUrl (url : String) : Dialect :=
  if "postgresql".toList.isPrefixOf url.toList then .postgresql else .sqlite

inductive SqlType where
  | integer
  | varchar (limit : Nat)
  | text
  | timestamp
  deriving DecidableEq, Repr

def SqlType.sql : Dialect → SqlType → String
  | _, integer => "INTEGER"
  | _, varchar limit => "VARCHAR(" ++ toString limit ++ ")"
  | _, text => "TEXT"
  | .sqlite, timestamp => "DATETIME"
  | .postgresql, timestamp => "TIMESTAMP WITH TIME ZONE"

structure ColumnDef where
  name : String
  type : SqlType
  nullable : Bool
  default? : Option String
  deriving DecidableEq, Repr

/-- A table with the column of its primary key. -/
structure TableDef where
  name : String
  columns : List ColumnDef
  key : String
  deriving DecidableEq, Repr

structure IndexDef where
  name : String
  table : String
  columns : List String
  unique : Bool
  deriving DecidableEq, Repr

inductive Statement where
  | createTable (t : TableDef)
  | createIndex (i : IndexDef)
  | dropIndex (name : String)
  | dropTable (name : String)
  deriving DecidableEq, Repr

def ColumnDef.defaultSql? (c : ColumnDef) : Option String :=
  c.default?.map fun s => "'" ++ s ++ "'"

/-- The type of a column; a key of integers counts by itself where the dialect has a type for
that. -/
def TableDef.typeSql (t : TableDef) (d : Dialect) (c : ColumnDef) : String :=
  if c.name = t.key ∧ c.type = .integer ∧ d = .postgresql then "SERIAL" else c.type.sql d

def TableDef.columnSql (t : TableDef) (d : Dialect) (c : ColumnDef) : String :=
  c.name ++ " " ++ t.typeSql d c ++
    (match c.defaultSql? with
      | some s => " DEFAULT " ++ s
      | none => "") ++
    (if c.nullable then "" else " NOT NULL")

/-- A statement over several lines: its parts are indented and parted by commas. -/
def blockLines (opening : String) (parts : List String) : List String :=
  let count := parts.length
  [opening ++ " ("] ++
    parts.zipIdx.map (fun (part, i) => "    " ++ part ++ (if i + 1 < count then "," else "")) ++
    [");"]

/-- The lines of a statement. -/
def Statement.lines (d : Dialect) : Statement → List String
  | createTable t =>
    blockLines ("CREATE TABLE " ++ t.name)
      (t.columns.map (t.columnSql d) ++ ["PRIMARY KEY (" ++ t.key ++ ")"])
  | createIndex i =>
    ["CREATE " ++ (if i.unique then "UNIQUE " else "") ++ "INDEX " ++ i.name ++ " ON " ++ i.table ++
      " (" ++ joinWith ", " i.columns ++ ");"]
  | dropIndex name => ["DROP INDEX " ++ name ++ ";"]
  | dropTable name => ["DROP TABLE " ++ name ++ ";"]

end TableApi.Migration
