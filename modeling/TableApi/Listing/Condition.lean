import TableApi.Options.Basic
import TableApi.Text.Blank

/-! Filter conditions. A raw filter is a mapping from fields to operands, or to mappings from
operators to operands; what is not well shaped or not filterable is dropped. -/

namespace TableApi

open TableApi.Text

inductive Operator where
  | eq
  | neq
  | gt
  | gte
  | lt
  | lte
  | isIn
  | notIn
  deriving DecidableEq, Repr, Inhabited

namespace Operator

def all : List Operator := [eq, neq, gt, gte, lt, lte, isIn, notIn]

def word : Operator → String
  | eq => "eq"
  | neq => "neq"
  | gt => "gt"
  | gte => "gte"
  | lt => "lt"
  | lte => "lte"
  | isIn => "in"
  | notIn => "nin"

def ofWord? (s : String) : Option Operator := all.find? (·.word == s)

end Operator

/-- What a condition compares with: one value, or the values of a set. -/
inductive Operand where
  | one (v : Value)
  | many (vs : List Value)
  deriving Repr, Inhabited

structure Condition where
  field : String
  operator : Operator
  operand : Operand
  deriving Repr

namespace Condition

/-- A text with commas stands for the values between them. -/
def splitOperand (v : Value) : Operand :=
  match v with
  | .text s => if s.toList.contains ',' then .many ((commaParts s).map Value.text) else .one v
  | _ => .one v

/-- The operand that an operator takes a value for, before its items are looked at. -/
def shape? (op : Operator) (v : Value) : Option Operand :=
  if v.isMap then none
  else match op, v.items? with
    | .eq, some items | .neq, some items | .isIn, some items | .notIn, some items =>
      some (.many items)
    | .eq, none | .neq, none => some (splitOperand v)
    | .isIn, none | .notIn, none => some (.many [v])
    | .gt, none | .gte, none | .lt, none | .lte, none => some (.one v)
    | .gt, some _ | .gte, some _ | .lt, some _ | .lte, some _ => none

/-- The operand of an operator; the values of a set may not be nested. -/
def operand? (op : Operator) (v : Value) : Option Operand :=
  match shape? op v with
  | some (.many items) => if items.any Value.isNested then none else some (.many items)
  | other => other

/-- The first operator that a mapping names, with its raw operand. -/
def firstOperator? (entries : Entries Value) : Option (Operator × Value) :=
  entries.findSome? fun (word, v) => (Operator.ofWord? word).map (·, v)

/-- The operator and the raw operand of a raw filter; without an operator it is equality. -/
def choose? (raw : Value) : Option (Operator × Value) :=
  match raw with
  | .map entries => firstOperator? entries
  | v => some (.eq, v)

/-- The condition of one field, when the field may be filtered and the raw filter is well
shaped. -/
def read? (filterable : List String) (field : String) (raw : Value) : Option Condition :=
  if filterable.contains field then do
    let (op, v) ← choose? raw
    let operand ← operand? op v
    some ⟨field, op, operand⟩
  else none

/-- The conditions of a raw filter, in its order. -/
def readAll (filterable : List String) (raw : Value) : List Condition :=
  match raw with
  | .map entries => entries.filterMap fun (field, v) => read? filterable field v
  | _ => []

end Condition

end TableApi
