import TableApi.Calendar.Date

/-! Times of day, offsets from universal time, and moments: a date with a time and, when it is
known, the offset. -/

namespace TableApi.Calendar

structure TimeOfDay where
  hour : Nat
  minute : Nat
  second : Nat
  microsecond : Nat
  valid : hour < 24 ∧ minute < 60 ∧ second < 60 ∧ microsecond < 1000000
  deriving DecidableEq, Repr

namespace TimeOfDay

def make? (hour minute second microsecond : Nat) : Option TimeOfDay :=
  if h : hour < 24 ∧ minute < 60 ∧ second < 60 ∧ microsecond < 1000000 then
    some ⟨hour, minute, second, microsecond, h⟩
  else none

def midnight : TimeOfDay := ⟨0, 0, 0, 0, by decide⟩

def seconds (t : TimeOfDay) : Nat := t.hour * 3600 + t.minute * 60 + t.second

def micros (t : TimeOfDay) : Nat := t.seconds * 1000000 + t.microsecond

def ofSeconds (n : Nat) : TimeOfDay :=
  let s := n % 86400
  ⟨s / 3600, s / 60 % 60, s % 60, 0, by omega⟩

/-- A fraction of a second, absent when it is zero. -/
def fractionText (microsecond : Nat) : String :=
  if microsecond = 0 then "" else "." ++ Text.padded 6 microsecond

def clockText (t : TimeOfDay) : String :=
  Text.padded 2 t.hour ++ ":" ++ Text.padded 2 t.minute ++ ":" ++ Text.padded 2 t.second

def text (t : TimeOfDay) : String := t.clockText ++ fractionText t.microsecond

end TimeOfDay

/-- An offset from universal time of less than a day, in microseconds. -/
structure Offset where
  micros : Int
  valid : -86400000000 < micros ∧ micros < 86400000000
  deriving DecidableEq, Repr

namespace Offset

def make? (micros : Int) : Option Offset :=
  if h : -86400000000 < micros ∧ micros < 86400000000 then some ⟨micros, h⟩ else none

def utc : Offset := ⟨0, by decide⟩

/-- Hours and minutes with a sign, and seconds when there are any. -/
def text (o : Offset) : String :=
  let n := o.micros.natAbs
  let seconds := n / 1000000
  let fraction := n % 1000000
  (if o.micros < 0 then "-" else "+") ++ Text.padded 2 (seconds / 3600) ++ ":" ++
    Text.padded 2 (seconds / 60 % 60) ++
    (if seconds % 60 = 0 ∧ fraction = 0 then ""
      else ":" ++ Text.padded 2 (seconds % 60) ++ TimeOfDay.fractionText fraction)

end Offset

/-- A date with a time of day, and the offset when it is known. -/
structure Moment where
  date : Date
  time : TimeOfDay
  offset? : Option Offset
  deriving DecidableEq, Repr

namespace Moment

/-- The local reading, in microseconds since the beginning of the calendar. -/
def localMicros (m : Moment) : Int := (m.date.ordinal : Int) * 86400000000 + m.time.micros

/-- The instant in universal time, when the offset is known. -/
def instant? (m : Moment) : Option Int := m.offset?.map fun o => m.localMicros - o.micros

/-- The moment with its offset, universal time when it had none. -/
def orUtc (m : Moment) : Moment := { m with offset? := some (m.offset?.getD Offset.utc) }

def textWith (separator : String) (m : Moment) : String :=
  m.date.text ++ separator ++ m.time.text ++ (m.offset?.map Offset.text).getD ""

def text (m : Moment) : String := m.textWith "T"

/-- Universal time a number of seconds after the beginning of a day. -/
def utcAfter? (ordinal : Int) (seconds : Nat) : Option Moment :=
  (Date.ofOrdinal? (ordinal + seconds / 86400)).map fun date =>
    ⟨date, TimeOfDay.ofSeconds seconds, some Offset.utc⟩

/-- The moment a number of days earlier, or the moment itself where the calendar ends. -/
def daysEarlier (days : Nat) (m : Moment) : Moment :=
  match Date.ofOrdinal? (m.date.ordinal - days) with
  | some date => { m with date }
  | none => m

end Moment

end TableApi.Calendar
