import TableApi.Value

/-! The plain form of values in answers: dates, moments and identifiers as texts, decimals as
binary64 numbers, tuples as lists. Only a decimal that signals has none. -/

namespace TableApi.Value

mutual

/-- The plain form of a value, in which a decimal that signals stays as it is. -/
def plain : Value → Value
  | map entries => map (plainEntries entries)
  | list items => list (plainItems items)
  | tuple items => list (plainItems items)
  | moment m => text m.text
  | date d => text d.text
  | uuid u => text u.text
  | decimal d =>
    match d.toDouble? with
    | some x => float x
    | none => decimal d
  | v => v

def plainItems : List Value → List Value
  | [] => []
  | item :: rest => plain item :: plainItems rest

def plainEntries : List (String × Value) → List (String × Value)
  | [] => []
  | (key, value) :: rest => (key, plain value) :: plainEntries rest

end

mutual

/-- Whether a decimal that signals stands somewhere in a value that has a plain form else. -/
def signals : Value → Bool
  | decimal d => d.toDouble?.isNone
  | map entries => entriesSignal entries
  | list items | tuple items => itemsSignal items
  | _ => false

def itemsSignal : List Value → Bool
  | [] => false
  | item :: rest => signals item || itemsSignal rest

def entriesSignal : List (String × Value) → Bool
  | [] => false
  | (_, value) :: rest => signals value || entriesSignal rest

end

def plain? (v : Value) : Option Value := if v.signals then none else some v.plain

end TableApi.Value
