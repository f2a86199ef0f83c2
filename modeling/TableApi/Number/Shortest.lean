import TableApi.Number.Double
import TableApi.Text.Digit

/-! Decimal texts of binary64 numbers. The shortest text has the fewest digits that read back as
the number, and of those the nearest; a text with a fixed count of significant digits is the
number rounded to them. -/

namespace TableApi.Double

open TableApi.Number

/-- A decimal numeral: the number `digits · 10^exponent`. -/
structure Numeral where
  digits : Nat
  exponent : Int
  deriving DecidableEq, Repr, Inhabited

/-- The exponent of the leading decimal digit of a positive count of units. -/
def leadingExponent (units : Nat) : Int :=
  ((Nat.toDigits 10 (units * tenTo 400 / scale)).length : Int) - 401

/-- The exponent of two that one step of the significand is worth, in units. -/
def stepExponent (units : Nat) : Nat := bitLength units - precision

/-- Four times the distances from a number to the ends of the interval that rounds to it, in
units: downward and upward. -/
def gaps (units : Nat) : Nat × Nat :=
  let q := stepExponent units
  let up := 2 * twoTo q
  (if 0 < q ∧ units = twoTo (52 + q) then twoTo q else up, up)

/-- Whether a numeral reads back as the number. -/
def readsBack (units : Nat) (n : Numeral) : Bool :=
  let (down, up) := gaps units
  let (lift, weight) := match n.exponent with
    | .ofNat e => (tenTo e, 1)
    | .negSucc e => (1, tenTo (e + 1))
  let candidate := 4 * n.digits * lift * scale
  let low := (4 * units - down) * weight
  let high := (4 * units + up) * weight
  let even := (units / twoTo (stepExponent units)) % 2 = 0
  if even then decide (low ≤ candidate ∧ candidate ≤ high)
  else decide (low < candidate ∧ candidate < high)

/-- A positive count of units over a power of ten, as a fraction. -/
def overPower (units : Nat) : Int → Nat × Nat
  | .ofNat e => (units, scale * tenTo e)
  | .negSucc e => (units * tenTo (e + 1), scale)

/-- Of the two numerals next to the number on a decimal grid, the nearest one that reads back. -/
def onGrid? (units : Nat) (exponent : Int) : Option Numeral :=
  let (num, den) := overPower units exponent
  let below : Numeral := ⟨num / den, exponent⟩
  let above : Numeral := ⟨num / den + 1, exponent⟩
  let nearest : Numeral := ⟨roundQuotient num den, exponent⟩
  match readsBack units below, readsBack units above with
  | true, true => some nearest
  | true, false => some below
  | false, true => some above
  | false, false => none

/-- Remove trailing zeros, at most `count` of them. -/
def Numeral.trim : (count : Nat) → Numeral → Numeral
  | 0, n => n
  | count + 1, n =>
    if n.digits ≠ 0 ∧ n.digits % 10 = 0 then trim count ⟨n.digits / 10, n.exponent + 1⟩ else n

/-- The shortest numeral of a positive count of units; seventeen digits always suffice. -/
def shortest (units : Nat) : Numeral :=
  let top := leadingExponent units
  let found := (List.range 17).findSome? fun (n : Nat) => onGrid? units (top - n)
  (found.getD ⟨0, 0⟩).trim 17

/-- The number rounded to a count of significant digits, a half going up. -/
def significant (units count : Nat) : Numeral :=
  let exponent := leadingExponent units - count + 1
  let (num, den) := overPower units exponent
  (⟨(2 * num + den) / (2 * den), exponent⟩ : Numeral).trim count

/-- How a numeral is laid out: the exponents of the leading digit that are written in
positions. -/
structure Layout where
  least : Int
  greatest : Int
  wholePart : Bool
  infinity : String

/-- The layout of numbers in answers and messages. -/
def plainLayout : Layout := ⟨-4, 15, false, "inf"⟩

/-- The layout of numbers that become text in the store: a point in every numeral. -/
def storedLayout : Layout := ⟨-4, 14, true, "Inf"⟩

def zeros (n : Nat) : List Char := List.replicate n '0'

def exponentText (e : Int) : List Char :=
  let digits := Nat.toDigits 10 e.natAbs
  let mark := if e < 0 then '-' else '+'
  'e' :: mark :: ((if digits.length < 2 then ['0'] else []) ++ digits)

/-- The text of a positive numeral. -/
def Numeral.layOut (layout : Layout) (n : Numeral) : List Char :=
  let ds := Nat.toDigits 10 n.digits
  let leading := n.exponent + ds.length - 1
  if layout.least ≤ leading ∧ leading ≤ layout.greatest then
    if leading < 0 then '0' :: '.' :: (zeros (-leading - 1).toNat ++ ds)
    else
      let whole := leading.toNat + 1
      if ds.length ≤ whole then ds ++ zeros (whole - ds.length) ++ ['.', '0']
      else ds.take whole ++ '.' :: ds.drop whole
  else
    let fraction := match ds.drop 1 with
      | [] => if layout.wholePart then ['.', '0'] else []
      | rest => '.' :: rest
    ds.take 1 ++ fraction ++ exponentText leading

def render (layout : Layout) (numeral : Nat → Numeral) : Double → String
  | nan => "nan"
  | infinite negative => (if negative then "-" else "") ++ layout.infinity
  | finite negative units =>
    let body := if units = 0 then ['0', '.', '0'] else (numeral units).layOut layout
    String.ofList (if negative then '-' :: body else body)

def text (x : Double) : String := render plainLayout shortest x

/-- The text that the store makes of a number: fifteen significant digits. -/
def storedText : Double → String
  | finite _ 0 => "0.0"
  | x => render storedLayout (significant · 15) x

end TableApi.Double
