import TableApi.Posts.Seed

/-! The seed program: it fills a new store with the first posts and says how many there are. Its
argument is the time, in seconds since the beginning of 1970. -/

namespace TableApi.Posts

def firstDayOf1970 : Nat := 719163

/-- What the program prints, for a time in seconds since 1970. -/
def seedReport (seconds : Nat) : Except String String :=
  match Calendar.Moment.utcAfter? firstDayOf1970 seconds with
  | none => .error "time out of range"
  | some now =>
    match seed now (Store.empty [model]) with
    | .error e => .error e.message
    | .ok store => .ok (report (count store))

end TableApi.Posts

def main (args : List String) : IO UInt32 := do
  match TableApi.Posts.seedReport ((args.head?.bind String.toNat?).getD 0) with
  | .ok report =>
    IO.print report
    return 0
  | .error message =>
    IO.eprintln message
    return 1
