import TableApi.Text.Digit

/-! Dates of the Gregorian calendar from year 1 to year 9999, their place in the count of days,
and the days of ISO weeks. -/

namespace TableApi.Calendar

def isLeap (year : Nat) : Bool := year % 4 == 0 && (year % 100 != 0 || year % 400 == 0)

def daysInMonth (year month : Nat) : Nat :=
  match month with
  | 2 => if isLeap year then 29 else 28
  | 4 | 6 | 9 | 11 => 30
  | _ => 31

/-- A date that the calendar has. -/
structure Date where
  year : Nat
  month : Nat
  day : Nat
  valid : (1 ≤ year ∧ year ≤ 9999) ∧ (1 ≤ month ∧ month ≤ 12) ∧
    (1 ≤ day ∧ day ≤ daysInMonth year month)
  deriving DecidableEq, Repr

namespace Date

def make? (year month day : Nat) : Option Date :=
  if h : (1 ≤ year ∧ year ≤ 9999) ∧ (1 ≤ month ∧ month ≤ 12) ∧
      (1 ≤ day ∧ day ≤ daysInMonth year month) then
    some ⟨year, month, day, h⟩
  else none

end Date

def daysBeforeYear (year : Nat) : Nat :=
  let y := year - 1
  y * 365 + y / 4 - y / 100 + y / 400

def daysInMonths (year : Nat) : (months : Nat) → Nat
  | 0 => 0
  | n + 1 => daysInMonths year n + daysInMonth year (n + 1)

def daysBeforeMonth (year month : Nat) : Nat := daysInMonths year (month - 1)

namespace Date

/-- The number of the day, where the first day of year 1 is day one. -/
def ordinal (d : Date) : Nat := daysBeforeYear d.year + daysBeforeMonth d.year d.month + d.day

/-- The year that holds a day, given the count of days before it. -/
def yearOfDays (days : Nat) : Nat :=
  let guess := days * 400 / 146097 + 1
  if days < daysBeforeYear guess then guess - 1
  else if daysBeforeYear (guess + 1) ≤ days then guess + 1
  else guess

/-- The date with a number, when the calendar has it. -/
def ofOrdinal? (n : Int) : Option Date :=
  if n < 1 then none
  else
    let days := n.toNat - 1
    let year := yearOfDays days
    let dayOfYear := days - daysBeforeYear year
    let month := ((List.range 12).filter fun i => daysBeforeMonth year (i + 1) ≤ dayOfYear).length
    make? year month (dayOfYear - daysBeforeMonth year month + 1)

/-- The number of the Monday that begins the first ISO week of a year, the week with the year's
first Thursday. -/
def firstWeekMonday (year : Nat) : Int :=
  let first : Int := daysBeforeYear year + 1
  let weekday := (first + 6) % 7
  let monday := first - weekday
  if weekday ≤ 3 then monday else monday + 7

def isoWeeks (year : Nat) : Nat := ((firstWeekMonday (year + 1) - firstWeekMonday year) / 7).toNat

/-- The date of a day of an ISO week. -/
def ofIsoWeek? (year week day : Nat) : Option Date :=
  if (1 ≤ year ∧ year ≤ 9999) ∧ (1 ≤ week ∧ week ≤ isoWeeks year) ∧ (1 ≤ day ∧ day ≤ 7) then
    ofOrdinal? (firstWeekMonday year + 7 * (week - 1) + (day - 1))
  else none

def text (d : Date) : String :=
  Text.padded 4 d.year ++ "-" ++ Text.padded 2 d.month ++ "-" ++ Text.padded 2 d.day

end Date

end TableApi.Calendar
