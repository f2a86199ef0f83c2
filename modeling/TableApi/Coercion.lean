import TableApi.Calendar.Reader
import TableApi.Number.Shortest
import TableApi.Schema.Column
import TableApi.Value.Literal

/-! Coercion of request values to the kind of a column. A value that cannot be converted comes back
unchanged; only a number beyond the range of the other number kind is an error. -/

namespace TableApi

open TableApi.Text TableApi.Calendar TableApi.Number

/-- Why a number has no counterpart in another kind of numbers. -/
inductive CoercionError where
  | infinityToInteger
  | integerToFloat
  deriving DecidableEq, Repr

namespace CoercionError

def message : CoercionError → String
  | infinityToInteger => "cannot convert float infinity to integer"
  | integerToFloat => "int too large to convert to float"

end CoercionError

namespace Coercion

def trueWords : List String := ["1", "true", "yes", "y", "on"]

def falseWords : List String := ["0", "false", "no", "n", "off"]

/-- The truth value that a value denotes by its word. -/
def toBool? (v : Value) : Option Value :=
  match v with
  | .bool b => some (.bool b)
  | v =>
    let word := foldCase (strip v.plainText)
    if trueWords.contains word then some (.bool true)
    else if falseWords.contains word then some (.bool false)
    else none

def toInteger? (v : Value) : Except CoercionError (Option Value) :=
  match v with
  | .bool _ => .ok none
  | .int n => .ok (some (.int n))
  | .float (.infinite _) => .error .infinityToInteger
  | .float x => .ok (x.truncate?.map Value.int)
  | v => .ok ((readInteger? v.plainText).map Value.int)

def widen (n : Int) : Except CoercionError (Option Value) :=
  (Double.ofInt? n).elim (.error .integerToFloat) fun x => .ok (some (.float x))

def toFloat? (v : Value) : Except CoercionError (Option Value) :=
  match v with
  | .bool _ => .ok none
  | .int n => widen n
  | .float x => .ok (some (.float x))
  | v => .ok ((Double.read? (strip v.plainText)).map Value.float)

/-- The text of a value. An integer of more digits than a numeral may have is without one. -/
def text? : Value → Option String
  | .text s => some s
  | .int n =>
    if (Nat.toDigits 10 n.natAbs).length ≤ maxNumeralDigits then some (toString n) else none
  | v => some v.plainText

/-- The decimal of a value, by its text. -/
def toDecimal? (v : Value) : Option Value :=
  match v with
  | .bool _ => none
  | .decimal d => some (.decimal d)
  | v => (text? v).bind fun s => (Decimal.read? s).map Value.decimal

/-- The text of a moment with the letter for universal time written as an offset. -/
def spellOffset (s : String) : String :=
  String.ofList (s.toList.flatMap fun c => if c = 'Z' then "+00:00".toList else [c])

def readMomentText? (s : String) : Option Moment := readMoment? (spellOffset s)

def hasTimePart (s : String) : Bool := s.toList.any fun c => c = 'T' || c = ' '

def toDate? (v : Value) : Option Value :=
  match v with
  | .date d => some (.date d)
  | v =>
    let s := strip v.plainText
    if hasTimePart s then (readMomentText? s).map fun m => .date m.date
    else (readDate? s).map Value.date

/-- The moment that a text denotes, midnight for a day. -/
def readDayOrMoment? (s : String) : Option Moment :=
  if !hasTimePart s && s.length == 10 then (readDate? s).map fun d => ⟨d, TimeOfDay.midnight, none⟩
  else readMomentText? s

/-- The moment that a value denotes, taken as universal time when it has no offset. -/
def toMoment? (v : Value) : Option Value :=
  match v with
  | .moment m => some (.moment m.orUtc)
  | v => (text? v).bind fun s => (readDayOrMoment? (strip s)).map fun m => .moment m.orUtc

def toUuid? (v : Value) : Option Value :=
  match v with
  | .uuid u => some (.uuid u)
  | v => (Uuid.read? (strip v.plainText)).map Value.uuid

/-- The value in the kind of a column, when it can be converted. -/
def convert? (kind : ColumnKind) (v : Value) : Except CoercionError (Option Value) :=
  match kind with
  | .integer => toInteger? v
  | .float => toFloat? v
  | .numeric => .ok (toDecimal? v)
  | .boolean => .ok (toBool? v)
  | .date => .ok (toDate? v)
  | .moment => .ok (toMoment? v)
  | .uuid => .ok (toUuid? v)
  | .text | .json | .raw => .ok none

/-- Whether a value is of the kind that a column with typed values asks for; a truth value counts
as an integer, and a moment as a date. Columns of texts, JSON and raw values take any value. -/
def accepts (kind : ColumnKind) (v : Value) : Bool :=
  match kind, v with
  | .integer, .int _ | .integer, .bool _ | .float, .float _ | .numeric, .decimal _
  | .boolean, .bool _ | .date, .date _ | .date, .moment _ | .moment, .moment _
  | .uuid, .uuid _ => true
  | .text, _ | .json, _ | .raw, _ => true
  | _, _ => false

end Coercion

/-- The value converted to the kind of a column, or the value itself where that cannot be done. -/
def coerce (kind : ColumnKind) (v : Value) : Except CoercionError Value :=
  match v with
  | .null => .ok .null
  | v => (Coercion.convert? kind v).map fun converted? => converted?.getD v

end TableApi
