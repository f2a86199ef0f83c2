import TableApi.Calendar.Reader
import TableApi.Json.Reader
import TableApi.Store.Cell
import TableApi.Value

/-! Loading cells into the values of a column. Every kind reads the forms that it writes; a cell of
another form is loaded as it is. -/

namespace TableApi

namespace Cell

/-- The value that a cell is by itself. -/
def toValue : Cell → Value
  | null => .null
  | integer n => .int n
  | real x => .float x
  | text s => .text s
  | blob bytes => .bytes bytes

/-- A number rounded to two places. -/
def loadNumeric (c : Cell) : Value :=
  match c with
  | real x => .decimal (.ofDoubleCents x)
  | integer n => .decimal (.ofDoubleCents ((Double.ofInt? n).getD .nan))
  | c => c.toValue

def loadBoolean (c : Cell) : Value :=
  match c with
  | integer n => .bool (n != 0)
  | c => c.toValue

def loadDate (c : Cell) : Value :=
  match c with
  | text s => ((Calendar.readDate? s).map Value.date).getD (.text s)
  | c => c.toValue

def loadMoment (c : Cell) : Value :=
  match c with
  | text s => ((Calendar.readMoment? s).map Value.moment).getD (.text s)
  | c => c.toValue

def loadUuid (c : Cell) : Value :=
  match c with
  | text s => ((Uuid.read? s).map Value.uuid).getD (.text s)
  | c => c.toValue

/-- The value of a JSON text; a text that the column turned into a number is the number. -/
def loadJson (c : Cell) : Value :=
  match c with
  | text s =>
    match Json.read s with
    | .ok v => v
    | .error _ => .text s
  | c => c.toValue

/-- The value of a cell in a column. Cells are of the kind of their column, as every write leaves
them; those that are not would be refused where they are loaded, and are shown as they are here. -/
def load (kind : ColumnKind) (c : Cell) : Value :=
  match kind with
  | .integer | .float | .text | .raw => c.toValue
  | .numeric => c.loadNumeric
  | .boolean => c.loadBoolean
  | .date => c.loadDate
  | .moment => c.loadMoment
  | .uuid => c.loadUuid
  | .json => c.loadJson

end Cell

end TableApi
