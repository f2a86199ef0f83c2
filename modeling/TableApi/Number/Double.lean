import TableApi.Number.Power

/-! Binary64 numbers as exact values. Every finite one is a whole number of units, a unit being the
smallest positive number, so comparing two of them is comparing integers. -/

namespace TableApi

open TableApi.Number

/-- A binary64 number: no number, an infinity, or a sign with a count of units of `2⁻¹⁰⁷⁴`. -/
inductive Double where
  | nan
  | infinite (negative : Bool)
  | finite (negative : Bool) (units : Nat)
  deriving DecidableEq, Repr, Inhabited

namespace Double

def scale : Nat := twoTo 1074

def precision : Nat := 53

/-- The least count of units that is too large. -/
def overflowUnits : Nat := twoTo 1024 * scale

/-- The integer nearest to a quotient, the even one of two. -/
def roundQuotient (num den : Nat) : Nat :=
  let q := num / den
  let r := num % den
  if 2 * r < den then q else if den < 2 * r then q + 1 else q + q % 2

def bitLength (n : Nat) : Nat := if n = 0 then 0 else n.log2 + 1

/-- The count of units nearest to a quotient among those with a significand of 53 bits. -/
def nearestUnits (num den : Nat) : Nat :=
  let step := twoTo (bitLength (num / den) - precision)
  roundQuotient num (den * step) * step

/-- The number nearest to a quotient, infinite when that is beyond the largest finite one. -/
def ofRatio (negative : Bool) (num den : Nat) : Double :=
  let units := nearestUnits (num * scale) den
  if overflowUnits ≤ units then infinite negative else finite negative units

/-- The number nearest to `digits · 10^exponent`. Exponents far outside the range are settled
without the power. -/
def ofDecimal (negative : Bool) (digits : Nat) (exponent : Int) : Double :=
  let top := exponent + (Nat.toDigits 10 digits).length
  if digits = 0 ∨ top < -400 then finite negative 0
  else if 400 < top then infinite negative
  else match exponent with
    | .ofNat e => ofRatio negative (digits * tenTo e) 1
    | .negSucc e => ofRatio negative digits (tenTo (e + 1))

def finite? : Double → Option Double
  | finite negative units => some (finite negative units)
  | _ => none

/-- The number nearest to an integer, when it is not beyond the finite ones. -/
def ofInt? (n : Int) : Option Double := (ofRatio (decide (n < 0)) n.natAbs 1).finite?

/-- The integer between zero and the number that is nearest to the number. -/
def truncate? : Double → Option Int
  | finite negative units =>
    let n := units / scale
    some (if negative then -(n : Int) else n)
  | _ => none

/-- The number as an integer, when it is one. -/
def toInt? (x : Double) : Option Int :=
  match x with
  | finite _ units => if units % scale = 0 then x.truncate? else none
  | _ => none

def isNan : Double → Bool
  | nan => true
  | _ => false

def isFinite : Double → Bool
  | finite _ _ => true
  | _ => false

end Double

/-- A number of the extended line, in units: the common measure of integers and binary64 numbers. -/
inductive Magnitude where
  | bottom
  | units (n : Int)
  | top
  deriving DecidableEq, Repr, Inhabited

namespace Magnitude

def ofInt (n : Int) : Magnitude := units (n * Double.scale)

/-- The magnitude of every number that is one. -/
def ofDouble? : Double → Option Magnitude
  | .nan => none
  | .infinite true => some bottom
  | .infinite false => some top
  | .finite negative n => some (units (if negative then -(n : Int) else n))

def order : Magnitude → Magnitude → Ordering
  | units a, units b => compare a b
  | bottom, bottom | top, top => .eq
  | bottom, _ | _, top => .lt
  | top, _ | _, bottom => .gt

end Magnitude

end TableApi
