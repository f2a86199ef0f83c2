import TableApi.Coercion
import TableApi.Listing.SortTerm
import TableApi.Listing.Window
import TableApi.Statement.Select

/-! Building the statement of a listing: the base statement with the filters, the search and the
order that the parameters ask for and the options allow, and then the window of a page. -/

namespace TableApi

/-- Why a statement cannot be built. -/
inductive BuildError where
  | coercion (e : CoercionError)
  | unordered
  | filterAfterLimit
  | orderAfterLimit
  deriving DecidableEq, Repr

namespace BuildError

def message : BuildError → String
  | coercion e => e.message
  | unordered => "Only '=', '!=', 'is_()', 'is_not()', 'is_distinct_from()', " ++
      "'is_not_distinct_from()' operators can be used with None/True/False"
  | filterAfterLimit => "Query.filter() being called on a Query which already has LIMIT or " ++
      "OFFSET applied.  Call filter() before limit() or offset() are applied."
  | orderAfterLimit => "Query.order_by() being called on a Query which already has LIMIT or " ++
      "OFFSET applied.  Call order_by() before limit() or offset() are applied."

end BuildError

namespace Listing

/-- The clause of an equality with one value. -/
def equality (t : Term) (v : Value) : Clause :=
  match v with
  | .null => .isNull t
  | .bool b => .isTruth t b
  | v => .compare t .equal v

def inequality (t : Term) (v : Value) : Clause :=
  match v with
  | .null => .isNotNull t
  | .bool b => .isNotTruth t b
  | v => .compare t .unequal v

/-- The clause of a comparison of order, which null and truth values do not have. -/
def ordering (t : Term) (c : Comparison) (v : Value) : Except BuildError Clause :=
  match v with
  | .null | .bool _ => .error .unordered
  | v => .ok (.compare t c v)

/-- A value in the kind of a term. -/
def coerceFor (t : Term) (v : Value) : Except BuildError Value :=
  match t.kind? with
  | none => .ok v
  | some kind => (coerce kind v).mapError .coercion

def coerceOperand (t : Term) : Operand → Except BuildError Operand
  | .one v => (coerceFor t v).map .one
  | .many vs => (vs.mapM (coerceFor t)).map .many

/-- The clause of an operator and a coerced operand. -/
def clauseOf (t : Term) (op : Operator) (operand : Operand) : Except BuildError Clause :=
  match op, operand with
  | .eq, .one v => .ok (equality t v)
  | .neq, .one v => .ok (inequality t v)
  | .eq, .many vs | .isIn, .many vs => .ok (.isIn t vs)
  | .neq, .many vs | .notIn, .many vs => .ok (.notIn t vs)
  | .isIn, .one v => .ok (.isIn t [v])
  | .notIn, .one v => .ok (.notIn t [v])
  | .gt, .one v => ordering t .greater v
  | .gte, .one v => ordering t .greaterEqual v
  | .lt, .one v => ordering t .less v
  | .lte, .one v => ordering t .lessEqual v
  | .gt, .many _ | .gte, .many _ | .lt, .many _ | .lte, .many _ => .error .unordered

def clauseOfCondition (model? : Option Model) (c : Condition) : Except BuildError Clause := do
  let t := Term.ofField model? c.field
  clauseOf t c.operator (← coerceOperand t c.operand)

def addClause (s : Select) (c : Clause) : Except BuildError Select :=
  if s.isWindowed then .error .filterAfterLimit else .ok { s with clauses := s.clauses ++ [c] }

/-- Add the conditions of the filter parameter. -/
def filtered (o : Options.Filtering) (params : Entries Value) (s : Select) :
    Except BuildError Select :=
  (Condition.readAll o.fields (Params.value params o.filterParam)).foldlM
    (fun s c => do addClause s (← clauseOfCondition s.model? c)) s

/-- Whether a term can be searched: a text column, or a bare name, which the store judges. -/
def isSearchable (t : Term) : Bool :=
  match t.kind? with
  | none | some .text => true
  | some _ => false

/-- The searched text, stripped. -/
def searchText? (o : Options.Searching) (params : Entries Value) : Option String :=
  match Params.value params o.searchParam with
  | .text s => if (Text.strip s).isEmpty then none else some (Text.strip s)
  | _ => none

/-- Add the search for the search parameter in the searchable fields. -/
def searched (o : Options.Searching) (params : Entries Value) (s : Select) :
    Except BuildError Select :=
  match searchText? o params with
  | none => .ok s
  | some term =>
    match (o.fields.map (Term.ofField s.model?)).filter isSearchable with
    | [] => .ok s
    | ts => addClause s (.search ts term)

/-- The term of a sort field: one of the allowed ones, or a column of the model when none are
listed. -/
def sortTerm? (allowed : List String) (model? : Option Model) (field : String) : Option Term :=
  if allowed.isEmpty then (model?.bind (·.column? field)).map Term.column
  else if allowed.contains field then some (Term.ofField model? field)
  else none

/-- The sort terms that the parameter asks for and the options allow. -/
def sortTerms (o : Options.Sorting) (params : Entries Value) (model? : Option Model) :
    List Ordered :=
  match Params.value params o.sortParam with
  | .text raw =>
    (SortTerm.firstOfEach [] (SortTerm.readAll o.defaultDirection raw)).filterMap fun t =>
      (sortTerm? o.allowed model? t.field).map fun term => ⟨term, some t.direction⟩
  | _ => []

/-- Add the order for the sort parameter; a statement with a window takes none. -/
def ordered (o : Options.Sorting) (params : Entries Value) (s : Select) :
    Except BuildError Select :=
  match sortTerms o params s.model? with
  | [] => .ok s
  | ts => if s.isWindowed then .error .orderAfterLimit else .ok { s with order := s.order ++ ts }

/-- The statement with filters, search and order. -/
def refine (o : Options) (params : Entries Value) (base : Select) : Except BuildError Select := do
  let s ← if o.filtering.enabled then filtered o.filtering params base else .ok base
  let s ← if o.searching.enabled then searched o.searching params s else .ok s
  if o.sorting.enabled then ordered o.sorting params s else .ok s

/-- The statement with the window of a page, in place of a window that it has. -/
def paged (o : Options.Pagination) (params : Entries Value) (s : Select) : Select :=
  if o.enabled then
    let w := Window.ofParams o params
    { s with limit? := some w.size.val, offset? := some w.offset }
  else s

end Listing

/-- Why a listing fails. -/
inductive ListingError where
  | build (e : BuildError)
  | store (e : StoreError)
  deriving Repr

def ListingError.message : ListingError → String
  | build e => e.message
  | store e => e.message

/-- A listing: the statement of its page, and the total when the options ask for it. -/
structure Listing where
  page : Select
  total? : Option Nat
  deriving Repr

namespace Listing

/-- The listing that parameters ask for. The total counts the answers before the window. -/
def compile (store : Store) (o : Options) (params : Entries Value) (base : Select) :
    Except ListingError Listing := do
  let s ← (refine o params base).mapError .build
  let total? ← if o.totals.enabled then (s.countAnswers store).mapError .store |>.map some
    else pure none
  pure ⟨paged o.pagination params s, total?⟩

end Listing

end TableApi
