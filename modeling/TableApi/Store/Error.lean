import TableApi.Store.Binding

/-! Why the store refuses a statement. -/

namespace TableApi

/-- A rule of the tables that a write would break. -/
inductive Violation where
  | unique (table : String) (columns : List String)
  | notNull (table column : String)
  | reference
  | mismatch
  | custom (text : String)
  deriving DecidableEq, Repr

namespace Violation

def message : Violation → String
  | unique table columns =>
    "UNIQUE constraint failed: " ++ Text.joinWith ", " (columns.map fun c => table ++ "." ++ c)
  | notNull table column => "NOT NULL constraint failed: " ++ table ++ "." ++ column
  | reference => "FOREIGN KEY constraint failed"
  | mismatch => "datatype mismatch"
  | custom text => text

end Violation

inductive StoreError where
  | prepare (e : PrepareError)
  | bind (e : BindError)
  | noSuchColumn (name : String)
  | patternTooComplex
  | nothingSelected
  | full
  | stale (table : String)
  | violation (v : Violation)
  deriving Repr

namespace StoreError

def message : StoreError → String
  | prepare e => e.message
  | bind e => e.message
  | noSuchColumn name => "no such column: " ++ name
  | patternTooComplex => "LIKE or GLOB pattern too complex"
  | nothingSelected => "Query contains no columns with which to SELECT from."
  | full => "database or disk is full"
  | stale table =>
    "UPDATE statement on table '" ++ table ++ "' expected to update 1 row(s); 0 were matched."
  | violation v => v.message

end StoreError

end TableApi
