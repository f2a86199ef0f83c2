import TableApi.Listing.Condition
import TableApi.Statement.Pattern
import TableApi.Statement.Term
import TableApi.Store.Binding

/-! Clauses of a statement: each selects rows of the table, none that has null where the clause
looks. -/

namespace TableApi

/-- A comparison of cells. -/
inductive Comparison where
  | equal
  | unequal
  | greater
  | greaterEqual
  | less
  | lessEqual
  deriving DecidableEq, Repr, Inhabited

namespace Comparison

def sign : Comparison → String
  | equal => "="
  | unequal => "!="
  | greater => ">"
  | greaterEqual => ">="
  | less => "<"
  | lessEqual => "<="

def admits : Comparison → Ordering → Bool
  | equal, o => o == .eq
  | unequal, o => o != .eq
  | greater, o => o == .gt
  | greaterEqual, o => o != .lt
  | less, o => o == .lt
  | lessEqual, o => o != .gt

end Comparison

inductive Clause where
  | compare (t : Term) (c : Comparison) (v : Value)
  | isNull (t : Term)
  | isNotNull (t : Term)
  | isTruth (t : Term) (b : Bool)
  | isNotTruth (t : Term) (b : Bool)
  | isIn (t : Term) (vs : List Value)
  | notIn (t : Term) (vs : List Value)
  | search (ts : List Term) (term : String)
  deriving Repr, Inhabited

/-- Two cells compared as a column of an affinity compares with an operand; null compares with
nothing. -/
def Affinity.compares (affinity : Affinity) (c : Comparison) (cell operand : Cell) : Bool :=
  !cell.isNull && !operand.isNull && c.admits (cell.order (affinity.compared operand))

namespace Clause

def terms : Clause → List Term
  | compare t _ _ | isNull t | isNotNull t | isTruth t _ | isNotTruth t _ | isIn t _ | notIn t _ =>
    [t]
  | search ts _ => ts

/-- The type of the parameters of a list: that of its first item that is not null. -/
def listType (t : Term) (vs : List Value) : ParameterType :=
  .compared t.kind? ((vs.find? fun v => !v.isNull).getD .null)

/-- The parameters of a clause with their types. -/
def parameters : Clause → List (ParameterType × Value)
  | compare t _ v => [(.compared t.kind? v, v)]
  | isNull _ | isNotNull _ | isTruth _ _ | isNotTruth _ _ => []
  | isIn t vs | notIn t vs => vs.map fun v => (listType t vs, v)
  | search ts term =>
    let pattern := String.ofList (Pattern.escape term.toList)
    ts.map fun _ => (.asGiven, .text pattern)

/-- The cell of a parameter that can be bound. -/
def boundCell (p : ParameterType × Value) : Cell :=
  match p.1.prepare p.2 with
  | .ok (.cell c) => c
  | _ => .null

def boundCells (clause : Clause) : List Cell := clause.parameters.map boundCell

/-- The characters that a search sees in a cell. -/
def searchChars : Cell → Option (List Char)
  | .null => none
  | .text s => some (s.toList.map Text.seenChar)
  | .blob bytes => some (Text.readLoose bytes)
  | c =>
    match c.numberToText with
    | .text s => some s.toList
    | _ => none

def holdsTerm (term : String) (c : Cell) : Bool :=
  match searchChars c with
  | some cs => Pattern.matchesText (Pattern.holding term) (cs.map Char.toLower)
  | none => false

def meaning (model? : Option Model) (t : Term) : Term.Meaning :=
  (t.meaning? model?).getD (.constant "")

/-- Whether a row satisfies a clause. -/
def holds (model? : Option Model) (r : Row) (clause : Clause) : Bool :=
  match clause with
  | compare t c v =>
    let m := meaning model? t
    m.affinity.compares c (m.value r) (boundCell (.compared t.kind? v, v))
  | isNull t => ((meaning model? t).value r).isNull
  | isNotNull t => !((meaning model? t).value r).isNull
  | isTruth t b =>
    let m := meaning model? t
    m.affinity.compares .equal (m.value r) (.integer b.toNat)
  | isNotTruth t b =>
    let m := meaning model? t
    m.affinity.compares .unequal (m.value r) (.integer b.toNat)
  | isIn t _ =>
    let m := meaning model? t
    clause.boundCells.any fun c => m.affinity.compares .equal (m.value r) c
  | notIn t _ =>
    let m := meaning model? t
    clause.boundCells.all fun c => m.affinity.compares .unequal (m.value r) c
  | search ts term => ts.any fun t => holdsTerm term ((meaning model? t).value r)

def isTooComplex : Clause → Bool
  | search _ term => Pattern.isTooLong (Pattern.holding term)
  | _ => false

/-- The placeholders of a list, or the empty selection that stands for an empty one. -/
def placeholders (vs : List Value) : String :=
  if vs.isEmpty then "(SELECT 1 FROM (SELECT 1) WHERE 1!=1)"
  else "(" ++ Text.joinWith ", " (vs.map fun _ => "?") ++ ")"

def searchSql (table : String) (t : Term) : String :=
  "(lower(" ++ t.sql table ++ ") LIKE '%' || lower(?) || '%' ESCAPE '/')"

/-- The text of a clause that stands alone. -/
def sql (table : String) : Clause → String
  | compare t c _ => t.sql table ++ " " ++ c.sign ++ " ?"
  | isNull t => t.sql table ++ " IS NULL"
  | isNotNull t => t.sql table ++ " IS NOT NULL"
  | isTruth t b => t.sql table ++ " = " ++ toString b.toNat
  | isNotTruth t b => t.sql table ++ " != " ++ toString b.toNat
  | isIn t vs => t.sql table ++ " IN " ++ placeholders vs
  | notIn t vs => "(" ++ t.sql table ++ " NOT IN " ++ placeholders vs ++ ")"
  | search ts _ => Text.joinWith " OR " (ts.map (searchSql table))

/-- The text of a clause beside others. -/
def joinedSql (table : String) (clause : Clause) : String :=
  match clause with
  | search (_ :: _ :: _) _ => "(" ++ clause.sql table ++ ")"
  | _ => clause.sql table

end Clause

end TableApi
