import TableApi.Value

/-! Equality of values. Numbers are equal when they denote the same number, whatever their kinds;
moments with an offset are equal when they are the same instant. No number that is none equals
itself, while every value is identical to itself. -/

namespace TableApi

namespace Decimal

/-- Move trailing zeros of a coefficient, at most `count` of them, into the exponent. -/
def trim : (count : Nat) → Nat → Int → Nat × Int
  | 0, coefficient, exponent => (coefficient, exponent)
  | count + 1, coefficient, exponent =>
    if coefficient % 10 = 0 then trim count (coefficient / 10) (exponent + 1)
    else (coefficient, exponent)

/-- The one representative of all decimals that denote the same number. -/
def normal : Decimal → Decimal
  | finite negative coefficient exponent =>
    if coefficient = 0 then finite false 0 0
    else
      let (c, e) := trim (coefficient.log2 + 1) coefficient exponent
      finite negative c e
  | d => d

/-- A binary64 number as the decimal that it exactly is. -/
def ofDouble : Double → Decimal
  | .finite negative units => finite negative (units * Nat.pow 5 1074) (-1074)
  | .infinite negative => infinite negative
  | .nan => nan false false 0

def isNan : Decimal → Bool
  | nan _ _ _ => true
  | _ => false

end Decimal

/-- Whether two moments are the same: the same instant, or the same reading when neither has an
offset. -/
def Calendar.Moment.same (a b : Calendar.Moment) : Bool :=
  match a.instant?, b.instant? with
  | some x, some y => x == y
  | none, none => a.localMicros == b.localMicros
  | _, _ => false

namespace Value

/-- The number that a value denotes. -/
def number? : Value → Option Decimal
  | bool b => some (.finite false b.toNat 0)
  | int n => some (.finite (decide (n < 0)) n.natAbs 0)
  | float x => some (.ofDouble x)
  | decimal d => some d
  | _ => none

/-- Whether two values denote the same number. -/
def sameNumber (a b : Value) : Bool :=
  match a.number?, b.number? with
  | some x, some y => !x.isNan && !y.isNan && x.normal == y.normal
  | _, _ => false

mutual

def same : Value → Value → Bool
  | null, null => true
  | text a, text b => a == b
  | bytes a, bytes b => a == b
  | date a, date b => a == b
  | moment a, moment b => a.same b
  | uuid a, uuid b => a == b
  | list a, list b => sameItems a b
  | tuple a, tuple b => sameItems a b
  | set a, set b => a.length == b.length && eachIn b a
  | map a, map b => a.length == b.length && eachEntryIn b a
  | a, b => sameNumber a b

def sameItems : List Value → List Value → Bool
  | [], [] => true
  | a :: as, b :: bs => same a b && sameItems as bs
  | _, _ => false

def eachIn (others : List Value) : List Value → Bool
  | [] => true
  | a :: as => others.any (same a) && eachIn others as

/-- Whether every entry has an equal one under its key. -/
def eachEntryIn (others : List (String × Value)) : List (String × Value) → Bool
  | [] => true
  | (key, a) :: rest =>
    (match others.lookup key with
      | some b => same a b
      | none => false) && eachEntryIn others rest

end

/-! ### Identity -/

mutual

/-- Whether two values are the same down to their kinds and digits. -/
def identical : Value → Value → Bool
  | null, null => true
  | bool a, bool b => a == b
  | int a, int b => a == b
  | float a, float b => a == b
  | decimal a, decimal b => a == b
  | text a, text b => a == b
  | bytes a, bytes b => a == b
  | date a, date b => a == b
  | moment a, moment b => a == b
  | uuid a, uuid b => a == b
  | list a, list b | tuple a, tuple b | set a, set b => identicalItems a b
  | map a, map b => identicalEntries a b
  | _, _ => false

def identicalItems : List Value → List Value → Bool
  | [], [] => true
  | a :: as, b :: bs => identical a b && identicalItems as bs
  | _, _ => false

def identicalEntries : List (String × Value) → List (String × Value) → Bool
  | [], [] => true
  | (k, a) :: as, (l, b) :: bs => k == l && identical a b && identicalEntries as bs
  | _, _ => false

end

mutual

@[simp] theorem identical_refl (v : Value) : identical v v = true := by
  cases v with
  | list items | tuple items | set items => simpa only [identical] using identicalItems_refl items
  | map entries => simpa only [identical] using identicalEntries_refl entries
  | _ => simp [identical]

theorem identicalItems_refl (items : List Value) : identicalItems items items = true := by
  cases items with
  | nil => rfl
  | cons item rest => simp [identicalItems, identical_refl item, identicalItems_refl rest]

theorem identicalEntries_refl (entries : List (String × Value)) :
    identicalEntries entries entries = true := by
  cases entries with
  | nil => rfl
  | cons entry rest =>
    obtain ⟨key, value⟩ := entry
    simp [identicalEntries, identical_refl value, identicalEntries_refl rest]

end

end Value

end TableApi
