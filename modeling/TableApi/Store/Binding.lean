import TableApi.Json.Writer
import TableApi.Store.Cell
import TableApi.Value.Literal

/-! Binding values to a statement. The type of a parameter first prepares its value; then the store
takes the prepared value as a cell, when it has a form for it. -/

namespace TableApi

open TableApi.Number

/-- Why the type of a parameter refuses a value. -/
inductive PrepareError where
  | notBoolean (v : Value)
  | noTruthValue (v : Value)
  | dateRequired
  | momentRequired
  | notNumeral (s : String)
  | notNumber (kind : String)
  | integerToFloat
  | signalingDecimal
  | noHex (kind : String)
  | notJson (kind : String)
  deriving Repr

namespace PrepareError

def message : PrepareError → String
  | notBoolean v => "Not a boolean value: " ++ v.literal
  | noTruthValue v => "Value " ++ v.literal ++ " is not None, True, or False"
  | dateRequired => "SQLite Date type only accepts Python date objects as input."
  | momentRequired =>
    "SQLite DateTime type only accepts Python datetime and date objects as input."
  | notNumeral s => "could not convert string to float: " ++ Text.quote s
  | notNumber kind => "float() argument must be a string or a real number, not '" ++ kind ++ "'"
  | integerToFloat => "int too large to convert to float"
  | signalingDecimal => "cannot convert signaling NaN to float"
  | noHex kind => "'" ++ kind ++ "' object has no attribute 'hex'"
  | notJson kind => "Object of type " ++ kind ++ " is not JSON serializable"

end PrepareError

/-- A prepared parameter: a cell, an integer beyond the range of the store, or a value that the
store has no form for. -/
inductive Prepared where
  | cell (c : Cell)
  | wide
  | foreign (kind : String)
  deriving DecidableEq, Repr

namespace Prepared

def ofInt (n : Int) : Prepared := if fitsStore n then cell (.integer n) else wide

def ofDouble (x : Double) : Prepared := cell (if x.isNan then .null else .real x)

/-- A value as it is. -/
def ofValue : Value → Prepared
  | .null => cell .null
  | .bool b => cell (.integer b.toNat)
  | .int n => ofInt n
  | .float x => ofDouble x
  | .text s => cell (.text s)
  | .bytes bs => cell (.blob bs)
  | .date d => cell (.text d.text)
  | .moment m => cell (.text (m.textWith " "))
  | v => foreign v.kindName

end Prepared

/-- The type of a parameter. -/
inductive ParameterType where
  | asGiven
  | number
  | boolean
  | date
  | moment
  | uuid
  | json
  deriving DecidableEq, Repr

/-- The type of the parameters of a column. -/
def ColumnKind.parameterType : ColumnKind → ParameterType
  | integer | text | raw => .asGiven
  | float | numeric => .number
  | boolean => .boolean
  | date => .date
  | moment => .moment
  | uuid => .uuid
  | json => .json

namespace ParameterType

/-- The short name of the kind of a value. -/
def shortKind (v : Value) : String :=
  match v with
  | .decimal _ => "Decimal"
  | .date _ => "date"
  | .moment _ => "datetime"
  | v => v.kindName

def prepareNumber (v : Value) : Except PrepareError Prepared :=
  match v with
  | .null => .ok (.cell .null)
  | .bool b => .ok (.ofDouble ((Double.ofInt? b.toNat).getD .nan))
  | .int n =>
    match Double.ofInt? n with
    | some x => .ok (.ofDouble x)
    | none => .error .integerToFloat
  | .float x => .ok (.ofDouble x)
  | .decimal d =>
    match d.toDouble? with
    | some x => .ok (.ofDouble x)
    | none => .error .signalingDecimal
  | .text s =>
    match Double.read? s with
    | some x => .ok (.ofDouble x)
    | none => .error (.notNumeral s)
  | v => .error (.notNumber v.kindName)

/-- Truth values and the numbers zero and one. -/
def prepareBoolean (v : Value) : Except PrepareError Prepared :=
  match v with
  | .null => .ok (.cell .null)
  | .bool b => .ok (.cell (.integer b.toNat))
  | .int n =>
    if n = 0 ∨ n = 1 then .ok (.cell (.integer n)) else .error (.noTruthValue v)
  | .float x =>
    match x.toInt? with
    | some n => if n = 0 ∨ n = 1 then .ok (.cell (.integer n)) else .error (.notBoolean v)
    | none => .error (.notBoolean v)
  | v => .error (.notBoolean v)

def prepareDate (v : Value) : Except PrepareError Prepared :=
  match v with
  | .null => .ok (.cell .null)
  | .date d => .ok (.cell (.text d.text))
  | .moment m => .ok (.cell (.text m.date.text))
  | _ => .error .dateRequired

/-- The reading of a moment with microseconds; its offset is left out. -/
def momentText (m : Calendar.Moment) : String :=
  m.date.text ++ " " ++ m.time.clockText ++ "." ++ Text.padded 6 m.time.microsecond

def prepareMoment (v : Value) : Except PrepareError Prepared :=
  match v with
  | .null => .ok (.cell .null)
  | .moment m => .ok (.cell (.text (momentText m)))
  | .date d => .ok (.cell (.text (momentText ⟨d, .midnight, none⟩)))
  | _ => .error .momentRequired

def prepareUuid (v : Value) : Except PrepareError Prepared :=
  match v with
  | .null => .ok (.cell .null)
  | .uuid u => .ok (.cell (.text u.plainText))
  | .float _ | .bytes _ => .ok (.foreign "builtin_function_or_method")
  | v => .error (.noHex (shortKind v))

mutual

/-- The first part of a value that JSON has no form for. -/
def unwritable? : Value → Option Value
  | .list items | .tuple items => unwritableItem? items
  | .map entries => unwritableMember? entries
  | .null | .bool _ | .int _ | .float _ | .text _ => none
  | v => some v

def unwritableItem? : List Value → Option Value
  | [] => none
  | item :: rest => (unwritable? item).or (unwritableItem? rest)

def unwritableMember? : List (String × Value) → Option Value
  | [] => none
  | (_, value) :: rest => (unwritable? value).or (unwritableMember? rest)

end

def prepareJson (v : Value) : Except PrepareError Prepared :=
  match Json.write? v with
  | some s => .ok (.cell (.text s))
  | none => .error (.notJson (shortKind ((unwritable? v).getD .null)))

/-- Prepare a value for a parameter. -/
def prepare : ParameterType → Value → Except PrepareError Prepared
  | asGiven, v => .ok (.ofValue v)
  | number, v => prepareNumber v
  | boolean, v => prepareBoolean v
  | date, v => prepareDate v
  | moment, v => prepareMoment v
  | uuid, v => prepareUuid v
  | json, v => prepareJson v

/-- The type that a value has by itself. -/
def ofValue? : Value → Option ParameterType
  | .null | .list _ | .tuple _ | .set _ | .map _ => none
  | .bool _ => some boolean
  | .int _ | .text _ | .bytes _ => some asGiven
  | .float _ | .decimal _ => some number
  | .date _ => some date
  | .moment _ => some moment
  | .uuid _ => some uuid

/-- The type of a parameter that a column is compared with: that of the value when it has one, that
of the column else. A text is an identifier where the column has identifiers. -/
def compared (kind? : Option ColumnKind) (v : Value) : ParameterType :=
  let columnType := (kind?.map ColumnKind.parameterType).getD asGiven
  match kind?, v with
  | some .uuid, .text _ => uuid
  | some .raw, _ => asGiven
  | _, v => (ofValue? v).getD columnType

end ParameterType

/-- Why the store cannot take a prepared parameter. -/
inductive BindError where
  | wideInteger
  | foreign (position : Nat) (kind : String)
  deriving DecidableEq, Repr

namespace BindError

def message : BindError → String
  | wideInteger => "Python int too large to convert to SQLite INTEGER"
  | foreign position kind =>
    "Error binding parameter " ++ toString position ++ ": type '" ++ kind ++ "' is not supported"

end BindError

/-- The cells of prepared parameters, which are numbered from `position` on. -/
def bindAll : (position : Nat) → List Prepared → Except BindError (List Cell)
  | _, [] => .ok []
  | position, p :: rest =>
    match p with
    | .cell c => (bindAll (position + 1) rest).map (c :: ·)
    | .wide => .error .wideInteger
    | .foreign kind => .error (.foreign position kind)

end TableApi
