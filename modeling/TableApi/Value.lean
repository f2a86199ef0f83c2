import TableApi.Calendar.Moment
import TableApi.Entries
import TableApi.Number.Decimal
import TableApi.Uuid

/-! Values: what requests carry, what the fields of a record hold and what answers show. -/

namespace TableApi

inductive Value where
  | null
  | bool (b : Bool)
  | int (n : Int)
  | float (x : Double)
  | decimal (d : Decimal)
  | text (s : String)
  | bytes (bs : List Nat)
  | date (d : Calendar.Date)
  | moment (m : Calendar.Moment)
  | uuid (u : Uuid)
  | list (items : List Value)
  | tuple (items : List Value)
  | set (items : List Value)
  | map (entries : List (String × Value))
  deriving Repr, Inhabited

namespace Value

def isNull : Value → Bool
  | null => true
  | _ => false

def isMap : Value → Bool
  | map _ => true
  | _ => false

def items? : Value → Option (List Value)
  | list items | tuple items => some items
  | _ => none

/-- Whether a value holds further values in a list, tuple or mapping. -/
def isNested : Value → Bool
  | list _ | tuple _ | map _ => true
  | _ => false

/-- Whether a value counts as given: not null, false, zero or empty. -/
def isTruthy : Value → Bool
  | null => false
  | bool b => b
  | int n => n != 0
  | float (.finite _ units) => units != 0
  | float _ => true
  | decimal (.finite _ coefficient _) => coefficient != 0
  | decimal _ => true
  | text s => !s.isEmpty
  | bytes bs => !bs.isEmpty
  | date _ | moment _ | uuid _ => true
  | list items | tuple items | set items => !items.isEmpty
  | map entries => !entries.isEmpty

end Value

end TableApi
