import TableApi.Value

/-! Columns of a model: the field of a record, the column of the table behind it, the kind of
its values and the rules for absent values. -/

namespace TableApi

/-- The kind of the values of a column. A raw column takes values of any kind. -/
inductive ColumnKind where
  | integer
  | float
  | numeric
  | boolean
  | text
  | date
  | moment
  | uuid
  | json
  | raw
  deriving DecidableEq, Repr, Inhabited

/-- What a new record gets in a field that was not given. -/
inductive Default where
  | value (v : Value)
  | now
  | nextUuid
  deriving Repr, Inhabited

/-- A reference to the column of another table. -/
structure Reference where
  table : String
  column : String
  deriving DecidableEq, Repr

structure Column where
  field : String
  name : String
  kind : ColumnKind
  nullable : Bool
  primaryKey : Bool
  unique : Bool
  default? : Option Default
  serverDefault? : Option String
  stampedOnUpdate : Bool
  references? : Option Reference
  deriving Repr, Inhabited

namespace Column

/-- A column without any rule beyond its kind, named like its field. -/
def plain (field : String) (kind : ColumnKind) : Column where
  field
  name := field
  kind
  nullable := false
  primaryKey := false
  unique := false
  default? := none
  serverDefault? := none
  stampedOnUpdate := false
  references? := none

def orNull (c : Column) : Column := { c with nullable := true }

def asKey (c : Column) : Column := { c with primaryKey := true }

def named (c : Column) (name : String) : Column := { c with name }

def withDefault (c : Column) (d : Default) : Column := { c with default? := some d }

def withServerDefault (c : Column) (s : String) : Column := { c with serverDefault? := some s }

def mayBeOmitted (c : Column) : Bool :=
  c.nullable || c.default?.isSome || c.serverDefault?.isSome

end Column

end TableApi
