import TableApi.Options.Basic
import TableApi.Statement.Clause
import TableApi.Store.Error
import TableApi.Store.Loading

/-! Statements that select rows: their text, their parameters and the rows they give. -/

namespace TableApi

/-- What a statement gives for its rows. -/
inductive Output where
  | records
  | fields (fields : List String)
  | count (field : String)
  | constants (vs : List Value)
  | nothing
  deriving Repr, Inhabited

/-- A term to sort by; without a direction it is ascending. -/
structure Ordered where
  term : Term
  direction? : Option Direction
  deriving Repr

/-- A statement on one table. Joins, groups and distinct rows are none of its parts, so a collection
that has them is no statement of this kind. -/
structure Select where
  model? : Option Model
  output : Output
  clauses : List Clause
  order : List Ordered
  limit? : Option Nat
  offset? : Option Nat
  deriving Repr, Inhabited

namespace Select

def all (m : Model) : Select := ⟨some m, .records, [], [], none, none⟩

def isWindowed (s : Select) : Bool := s.limit?.isSome || s.offset?.isSome

/-! ### Text -/

def orderSql (table : String) (o : Ordered) : String :=
  o.term.sql table ++ match o.direction? with
    | some .ascending => " ASC"
    | some .descending => " DESC"
    | none => ""

def whereSql (table : String) (clauses : List Clause) : String :=
  match clauses with
  | [] => ""
  | [c] => " WHERE " ++ c.sql table
  | cs => " WHERE " ++ Text.joinWith " AND " (cs.map (Clause.joinedSql table))

/-- The text of the statement from the table on. -/
def sql (s : Select) : String :=
  let table := (s.model?.map Model.table).getD ""
  let from_ := match s.model? with
    | some m => "FROM " ++ m.table
    | none => ""
  from_ ++ whereSql table s.clauses ++
    (if s.order.isEmpty then ""
      else " ORDER BY " ++ Text.joinWith ", " (s.order.map (orderSql table))) ++
    (if s.isWindowed then " LIMIT ? OFFSET ?" else "")

/-- The parameters of the window. -/
def windowParameters (s : Select) : List (ParameterType × Value) :=
  if s.isWindowed then
    [(.asGiven, .int ((s.limit?.map Int.ofNat).getD (-1))), (.asGiven, .int (s.offset?.getD 0))]
  else []

def parameters (s : Select) : List (ParameterType × Value) :=
  s.clauses.flatMap Clause.parameters ++ s.windowParameters

/-! ### Rows -/

def matching (s : Select) (rows : List Row) : List Row :=
  rows.filter fun r => s.clauses.all (Clause.holds s.model? r)

/-- The order of two rows by the sort terms, the first one that tells them apart deciding. -/
def rowOrder (model? : Option Model) : List Ordered → Row → Row → Ordering
  | [], _, _ => .eq
  | o :: rest, a, b =>
    let m := Clause.meaning model? o.term
    let here := (m.value a).order (m.value b)
    (if o.direction? = some .descending then here.swap else here).then (rowOrder model? rest a b)

/-- The rows in the order of the statement. Ties stay in the order of the row numbers: that is what a
store gives which goes through its table. Where an index on a column of the order is used ties may
stand in another one. -/
def sorted (s : Select) (rows : List Row) : List Row :=
  if s.order.isEmpty then rows
  else rows.mergeSort fun a b => rowOrder s.model? s.order a b != .gt

/-- The part of a list that the window shows. -/
def windowed {α : Type} (s : Select) (xs : List α) : List α :=
  let rest := xs.drop (s.offset?.getD 0)
  match s.limit? with
  | some n => rest.take n
  | none => rest

/-- The rows that the statement goes through: those of its table, or one empty row without a
table. -/
def source (s : Select) (store : Store) : List Row :=
  match s.model? with
  | some m => store.rows m
  | none => [⟨0, []⟩]

def rowsOf (s : Select) (store : Store) : List Row :=
  s.windowed (s.sorted (s.matching (s.source store)))

/-! ### Errors -/

/-- The first error of preparing parameters. -/
def prepareAll : List (ParameterType × Value) → Except StoreError (List Prepared)
  | [] => .ok []
  | (type, v) :: rest =>
    match type.prepare v with
    | .error e => .error (.prepare e)
    | .ok p => (prepareAll rest).map (p :: ·)

/-- The first bare name without a meaning. -/
def unknownName? (s : Select) : Option String :=
  (s.clauses.flatMap Clause.terms ++ s.order.map Ordered.term).findSome? fun t =>
    match t with
    | .bare name => if (t.meaning? s.model?).isNone then some name else none
    | .column _ => none

/-- Whether a row meets a pattern that is too complex before a clause that it does not satisfy. -/
def meetsComplexPattern (model? : Option Model) (r : Row) : List Clause → Bool
  | [] => false
  | c :: rest => c.isTooComplex || (c.holds model? r && meetsComplexPattern model? r rest)

/-- The first error that running the statement meets: in its parameters, in its names, in what the
store takes and in matching patterns. -/
def check (s : Select) (store : Store) : Except StoreError Unit := do
  if s.output matches .nothing then throw .nothingSelected
  let prepared ← prepareAll s.parameters
  match s.unknownName? with
  | some name => throw (.noSuchColumn name)
  | none => pure ()
  match bindAll 1 prepared with
  | .error e => throw (.bind e)
  | .ok _ => pure ()
  if (s.source store).any fun r => meetsComplexPattern s.model? r s.clauses then
    throw .patternTooComplex

def run (s : Select) (store : Store) : Except StoreError (List Row) := do
  s.check store
  pure (s.rowsOf store)

/-! ### Answers -/

/-- The value of a field of a row. -/
def fieldValue (m : Model) (r : Row) (field : String) : Value :=
  match m.column? field with
  | some c => (r.cell c.name).load c.kind
  | none => .null

def fieldValues (m : Model) (r : Row) (fields : List String) : Entries Value :=
  fields.map fun field => (field, fieldValue m r field)

/-- The answers of a statement: for each row the values it gives, by their names. A count is one
answer for all rows. -/
def answersOf (s : Select) (store : Store) : List (Entries Value) :=
  let rows := s.sorted (s.matching (s.source store))
  match s.output, s.model? with
  | .records, some m => (s.windowed rows).map fun r => fieldValues m r m.fields
  | .fields fields, some m => (s.windowed rows).map fun r => fieldValues m r fields
  | .count field, some m =>
    let n := (rows.filter fun r => !(fieldValue m r field).isNull).length
    s.windowed [[("count_1", .int n)]]
  | .constants vs, _ => (s.windowed rows).map fun _ => vs.map fun v => ("", v)
  | _, _ => []

def answers (s : Select) (store : Store) : Except StoreError (List (Entries Value)) := do
  s.check store
  pure (s.answersOf store)

def countAnswers (s : Select) (store : Store) : Except StoreError Nat :=
  (s.answers store).map List.length

end Select

end TableApi
