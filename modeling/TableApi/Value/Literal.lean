import TableApi.Number.Shortest
import TableApi.Text.Quoted
import TableApi.Value

/-! The texts of a value: the plain text, and the literal that messages quote, which differ in
texts, dates, decimals and identifiers. -/

namespace TableApi.Value

open TableApi.Text TableApi.Calendar

def boolText (b : Bool) : String := if b then "True" else "False"

/-- A duration in days, seconds and microseconds, the parts that are zero left out. -/
def durationLiteral (micros : Int) : String :=
  let days := micros.fdiv 86400000000
  let rest := micros.fmod 86400000000
  let part (name : String) (n : Int) : List String :=
    if n = 0 then [] else [name ++ "=" ++ toString n]
  let parts := part "days" days ++ part "seconds" (rest / 1000000) ++
    part "microseconds" (rest % 1000000)
  "datetime.timedelta(" ++ (if parts.isEmpty then "0" else joinWith ", " parts) ++ ")"

def offsetLiteral (o : Offset) : String :=
  if o.micros = 0 then "datetime.timezone.utc"
  else "datetime.timezone(" ++ durationLiteral o.micros ++ ")"

def dateLiteral (d : Date) : String :=
  "datetime.date(" ++ joinWith ", " ([d.year, d.month, d.day].map toString) ++ ")"

/-- The parts of a moment; seconds and microseconds are left out while they and what follows them
are zero. -/
def momentLiteral (m : Moment) : String :=
  let t := m.time
  let clock := [m.date.year, m.date.month, m.date.day, t.hour, t.minute] ++
    (if t.microsecond ≠ 0 then [t.second, t.microsecond]
      else if t.second ≠ 0 then [t.second] else [])
  let offset := match m.offset? with
    | some o => ["tzinfo=" ++ offsetLiteral o]
    | none => []
  "datetime.datetime(" ++ joinWith ", " (clock.map toString ++ offset) ++ ")"

def braced (open_ close body : String) : String := open_ ++ body ++ close

mutual

/-- The literal of a value. -/
def literal : Value → String
  | null => "None"
  | bool b => boolText b
  | int n => toString n
  | float x => x.text
  | decimal d => "Decimal(" ++ quote d.text ++ ")"
  | text s => quote s
  | bytes bs => quoteBytes bs
  | date d => dateLiteral d
  | moment m => momentLiteral m
  | uuid u => "UUID(" ++ quote u.text ++ ")"
  | list items => braced "[" "]" (joinWith ", " (literals items))
  | tuple [item] => braced "(" ",)" (literal item)
  | tuple items => braced "(" ")" (joinWith ", " (literals items))
  | set [] => "set()"
  | set items => braced "\x7b" "\x7d" (joinWith ", " (literals items))
  | map entries => braced "\x7b" "\x7d" (joinWith ", " (entryLiterals entries))

def literals : List Value → List String
  | [] => []
  | item :: rest => literal item :: literals rest

def entryLiterals : List (String × Value) → List String
  | [] => []
  | (key, value) :: rest => (quote key ++ ": " ++ literal value) :: entryLiterals rest

end

/-- The plain text of a value. -/
def plainText : Value → String
  | text s => s
  | decimal d => d.text
  | date d => d.text
  | moment m => m.textWith " "
  | uuid u => u.text
  | v => literal v

/-- The name of the kind of a value. -/
def kindName : Value → String
  | null => "NoneType"
  | bool _ => "bool"
  | int _ => "int"
  | float _ => "float"
  | decimal _ => "decimal.Decimal"
  | text _ => "str"
  | bytes _ => "bytes"
  | date _ => "datetime.date"
  | moment _ => "datetime.datetime"
  | uuid _ => "UUID"
  | list _ => "list"
  | tuple _ => "tuple"
  | set _ => "set"
  | map _ => "dict"

end TableApi.Value
