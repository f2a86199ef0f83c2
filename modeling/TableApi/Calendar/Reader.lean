import TableApi.Calendar.Moment
import TableApi.Number.Power
import TableApi.Text.Utf8

/-! Reading dates and moments in the basic and extended ISO 8601 forms, with calendar dates or
week dates. The readers work on the bytes of a text, a zero byte standing for its end. -/

namespace TableApi.Calendar

def bytesOf (s : String) : List Nat := s.toList.flatMap Text.utf8Bytes

/-- The next byte, zero at the end. -/
def peek (cs : List Nat) : Nat := cs.headD 0

def isDigitByte (b : Nat) : Bool := 48 ≤ b && b ≤ 57

/-- A number of exactly `count` digits, added to what was read before, and the rest. -/
def takeNumber? : (count : Nat) → (before : Nat) → List Nat → Option (Nat × List Nat)
  | 0, n, cs => some (n, cs)
  | count + 1, n, c :: cs =>
    if isDigitByte c then takeNumber? count (n * 10 + (c - 48)) cs else none
  | _ + 1, _, [] => none

def hyphen? : List Nat → Option (List Nat)
  | 45 :: cs => some cs
  | _ => none

/-- A week date behind its letter, in a text whose date part still has `left` bytes. -/
def readWeekDate? (year : Nat) (extended : Bool) (left : Nat) (cs : List Nat) : Option Date := do
  let (week, cs) ← takeNumber? 2 0 cs
  if left ≤ 2 then Date.ofIsoWeek? year week 1
  else
    let cs ← if extended then hyphen? cs else some cs
    let (day, _) ← takeNumber? 1 0 cs
    Date.ofIsoWeek? year week day

/-- A date whose text is the first `length` of the bytes. -/
def readDateBytes? (cs : List Nat) (length : Nat) : Option Date := do
  let (year, cs) ← takeNumber? 4 0 cs
  let extended := peek cs = 45
  let cs := if extended then cs.drop 1 else cs
  let used := if extended then 5 else 4
  if peek cs = 87 then readWeekDate? year extended (length - used - 1) (cs.drop 1)
  else
    let (month, cs) ← takeNumber? 2 0 cs
    let cs ← if extended then hyphen? cs else some cs
    let (day, _) ← takeNumber? 2 0 cs
    Date.make? year month day

def readDate? (s : String) : Option Date :=
  let cs := bytesOf s
  if cs.length = 7 ∨ cs.length = 8 ∨ cs.length = 10 then readDateBytes? cs cs.length else none

/-- Where the date part of a moment ends. A hyphen behind a week is taken for the separator when a
digit follows two places later; without hyphens an odd count of digits behind the week's first
digit pair tells that a weekday stands there. -/
def dateLength (cs : List Nat) : Nat :=
  let at_ (i : Nat) := peek (cs.drop i)
  if cs.length = 7 then 7
  else if at_ 4 = 45 then
    if at_ 5 = 87 then
      if 8 < cs.length ∧ at_ 8 = 45 then
        if 10 < cs.length ∧ isDigitByte (at_ 10) then 8 else 10
      else 8
    else 10
  else if at_ 4 = 87 then
    let digits := ((cs.drop 7).takeWhile isDigitByte).length
    if digits < 2 then 7 + digits
    else if (7 + digits) % 2 = 0 then 7 else 8
  else 8

/-- The rest behind the first character. -/
def dropCharacter (cs : List Nat) : List Nat :=
  let b := peek cs
  if b < 0x80 then cs.drop 1
  else if b / 16 = 14 then cs.drop 3
  else if b / 16 = 15 then cs.drop 4
  else cs.drop 2

/-- Hour, minute, second and microsecond, and whether something was left over. -/
structure ClockReading where
  values : List Nat
  microsecond : Nat
  leftOver : Bool

/-- A fraction of a second: six digits count and further ones are skipped. The first `length` of
the bytes belong to the clock. -/
def readFraction? (values : List Nat) (cs : List Nat) (length : Nat) : Option ClockReading := do
  let count := min length 6
  let (n, cs) ← takeNumber? count 0 cs
  some ⟨values, n * Number.tenTo (6 - count), peek (cs.dropWhile isDigitByte) != 0⟩

/-- A clock reading of at most `parts` more pairs of digits, whose text is the first `length` of
the bytes. Colons stand either between all pairs or between none. -/
def readClock? : (parts : Nat) → (colons? : Option Bool) → (values : List Nat) → List Nat →
    (length : Nat) → Option ClockReading
  | 0, _, values, cs, length => readFraction? values cs length
  | parts + 1, colons?, values, cs, length => do
    let (n, rest) ← takeNumber? 2 0 cs
    let values := values ++ [n]
    let c := peek rest
    let colons := colons?.getD (c = 58)
    if length ≤ 3 then some ⟨values, 0, c != 0⟩
    else if colons && c = 58 then readClock? parts (some colons) values (rest.drop 1) (length - 3)
    else if c = 46 ∨ c = 44 then readFraction? values (rest.drop 1) (length - 3)
    else if !colons then readClock? parts (some colons) values rest (length - 2)
    else none

namespace ClockReading

def part (r : ClockReading) (i : Nat) : Nat := r.values.getD i 0

def toTime? (r : ClockReading) : Option TimeOfDay :=
  TimeOfDay.make? (r.part 0) (r.part 1) (r.part 2) r.microsecond

def micros (r : ClockReading) : Int :=
  (r.part 0 * 3600 + r.part 1 * 60 + r.part 2) * 1000000 + r.microsecond

end ClockReading

def isOffsetMark (b : Nat) : Bool := b = 43 || b = 45 || b = 90

/-- Where the offset begins; the first byte is never taken for its mark alone. -/
def offsetStart (cs : List Nat) : Nat := (cs.takeWhile (fun b => !isOffsetMark b)).length

/-- An offset from its mark on. -/
def readOffset? (cs : List Nat) : Option Offset :=
  match cs with
  | 90 :: rest => if peek rest = 0 then some Offset.utc else none
  | mark :: rest => do
    let r ← readClock? 3 none [] rest rest.length
    if r.leftOver then none
    else Offset.make? (if mark = 45 then -r.micros else r.micros)
  | [] => none

/-- A time of day with an optional offset. -/
def readTime? (cs : List Nat) : Option (TimeOfDay × Option Offset) := do
  let start := offsetStart cs
  let r ← readClock? 3 none [] cs start
  let tail := cs.drop start
  if tail.isEmpty then
    if r.leftOver then none else (r.toTime?).map (·, none)
  else
    let offset ← readOffset? tail
    let time ← r.toTime?
    some (time, some offset)

/-- The moment that a text denotes: a date, or a date and a time with one character between
them. -/
def readMoment? (s : String) : Option Moment := do
  let cs := bytesOf s
  if cs.length < 7 then none
  else
    let length := dateLength cs
    let date ← readDateBytes? cs length
    if cs.length ≤ length then some ⟨date, TimeOfDay.midnight, none⟩
    else
      let (time, offset?) ← readTime? (dropCharacter (cs.drop length))
      some ⟨date, time, offset?⟩

end TableApi.Calendar
