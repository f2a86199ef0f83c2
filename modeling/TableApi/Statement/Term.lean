import TableApi.Store.Table

/-! Terms of a statement: a column of the model, or a bare name that the store looks up by
itself. -/

namespace TableApi

inductive Term where
  | column (c : Column)
  | bare (name : String)
  deriving Repr, Inhabited

namespace Term

/-- The term for a field: its column when the model has one, a bare name else. -/
def ofField (model? : Option Model) (field : String) : Term :=
  match model?.bind (·.column? field) with
  | some c => column c
  | none => bare field

def kind? : Term → Option ColumnKind
  | column c => some c.kind
  | bare _ => none

/-- The words that cannot stand bare in a statement. -/
def reservedWords : List String := [
  "add", "after", "all", "alter", "analyze", "and", "as", "asc", "attach", "autoincrement",
  "before", "begin", "between", "by", "cascade", "case", "cast", "check", "collate", "column",
  "commit", "conflict", "constraint", "create", "cross", "current_date", "current_time",
  "current_timestamp", "database", "default", "deferrable", "deferred", "delete", "desc", "detach",
  "distinct", "drop", "each", "else", "end", "escape", "except", "exclusive", "exists", "explain",
  "false", "fail", "for", "foreign", "from", "full", "glob", "group", "having", "if", "ignore",
  "immediate", "in", "index", "indexed", "initially", "inner", "insert", "instead", "intersect",
  "into", "is", "isnull", "join", "key", "left", "like", "limit", "match", "natural", "not",
  "notnull", "null", "of", "offset", "on", "or", "order", "outer", "plan", "pragma", "primary",
  "query", "raise", "references", "reindex", "rename", "replace", "restrict", "right", "rollback",
  "row", "select", "set", "table", "temp", "temporary", "then", "to", "transaction", "trigger",
  "true", "union", "unique", "update", "using", "vacuum", "values", "view", "virtual", "when",
  "where"]

/-- Whether a name is written in quotes: a reserved word or one with capital letters. -/
def isQuoted (name : String) : Bool :=
  reservedWords.contains name || name.toList.any Char.isUpper

/-- The names by which the number of a row can be reached. -/
def rowNumberNames : List String := ["rowid", "oid", "_rowid_"]

/-- What a term stands for in a row. -/
inductive Meaning where
  | cell (name : String) (affinity : Affinity)
  | rowNumber
  | constant (s : String)
  deriving DecidableEq, Repr

/-- The meaning of a bare name. Names are looked up without regard to case; a quoted name that is
not found is a text. -/
def meaningOf? (model? : Option Model) (name : String) : Option Meaning :=
  let found := model?.bind fun m =>
    match m.columns.find? fun c => Text.foldCase c.name == Text.foldCase name with
    | some c => some (Meaning.cell c.name c.kind.affinity)
    | none => if rowNumberNames.contains (Text.foldCase name) then some .rowNumber else none
  match found with
  | some meaning => some meaning
  | none => if isQuoted name then some (.constant name) else none

def meaning? (model? : Option Model) : Term → Option Meaning
  | column c => some (.cell c.name c.kind.affinity)
  | bare name => meaningOf? model? name

def sql (table : String) : Term → String
  | column c => table ++ "." ++ c.name
  | bare name => if isQuoted name then "\"" ++ name ++ "\"" else name

namespace Meaning

def affinity : Meaning → Affinity
  | cell _ affinity => affinity
  | rowNumber => .numeric
  | constant _ => .none

/-- The cell that a term stands for in a row. -/
def value (r : Row) : Meaning → Cell
  | cell name _ => r.cell name
  | rowNumber => .integer r.number
  | constant s => .text s

end Meaning

end Term

end TableApi
