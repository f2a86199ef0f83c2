import TableApi.Number.Double
import TableApi.Number.Integer

/-! Decimal numbers with their scale: `1.50` and `1.5` are two numerals of one value. A decimal is
a coefficient with an exponent, an infinity, or no number with an optional payload. -/

namespace TableApi

open TableApi.Text TableApi.Number

inductive Decimal where
  | finite (negative : Bool) (coefficient : Nat) (exponent : Int)
  | infinite (negative : Bool)
  | nan (negative signaling : Bool) (payload : Nat)
  deriving DecidableEq, Repr, Inhabited

namespace Decimal

def maxExponent : Int := 999999999999999999

def minExponent : Int := -1999999999999999997

def inRange (coefficient : Nat) (exponent : Int) : Bool :=
  let digits := if coefficient = 0 then 1 else (Nat.toDigits 10 coefficient).length
  decide (exponent + digits - 1 ≤ maxExponent ∧ minExponent ≤ exponent)

/-- A digit string before a point or an exponent, and the rest. -/
def takeDigits (cs : List Char) : List Nat × List Char :=
  (cs.takeWhile (fun c => (digitValue? c).isSome) |>.filterMap digitValue?,
    cs.dropWhile (fun c => (digitValue? c).isSome))

/-- The exponent part of a numeral, which must end the text. -/
def readExponent? : List Char → Option Int
  | [] => some 0
  | c :: rest =>
    if c = 'e' ∨ c = 'E' then
      let (negative, body) := splitSign rest
      match takeDigits body with
      | ([], _) => none
      | (digits, []) => some (withSign negative (digitsValue 10 digits))
      | _ => none
    else none

/-- The digits and the exponent of an unsigned numeral: digits with at most one point among them
and an optional exponent. -/
def readUnsigned? (cs : List Char) : Option (Nat × Int) :=
  let (whole, rest) := takeDigits cs
  let (fraction, rest) := match rest with
    | '.' :: more => takeDigits more
    | _ => ([], rest)
  if whole.isEmpty && fraction.isEmpty then none
  else (readExponent? rest).map fun exponent =>
    (digitsValue 10 (whole ++ fraction), exponent - fraction.length)

def lowerChars (cs : List Char) : List Char := cs.map Char.toLower

def readNan? (negative signaling : Bool) (cs : List Char) : Option Decimal :=
  match takeDigits cs with
  | (digits, []) => some (nan negative signaling (digitsValue 10 digits))
  | _ => none

/-- The decimal that a text denotes. Underscores mean nothing, wherever they stand. -/
def read? (s : String) : Option Decimal :=
  let (negative, body) := splitSign ((stripChars s.toList).filter (· ≠ '_'))
  match lowerChars body with
  | ['i', 'n', 'f'] | ['i', 'n', 'f', 'i', 'n', 'i', 't', 'y'] => some (infinite negative)
  | 'n' :: 'a' :: 'n' :: payload => readNan? negative false payload
  | 's' :: 'n' :: 'a' :: 'n' :: payload => readNan? negative true payload
  | _ =>
    match readUnsigned? body with
    | none => none
    | some (coefficient, exponent) =>
      if inRange coefficient exponent then some (finite negative coefficient exponent) else none

def signText (negative : Bool) : String := if negative then "-" else ""

/-- The digits of a finite decimal: in positions while the exponent is not positive and few zeros
follow the point, else with an exponent. -/
def digitsText (coefficient : Nat) (exponent : Int) : List Char :=
  let ds := Nat.toDigits 10 coefficient
  let leading := exponent + ds.length - 1
  if exponent ≤ 0 ∧ -6 ≤ leading then
    if exponent = 0 then ds
    else if leading < 0 then '0' :: '.' :: (List.replicate (-leading - 1).toNat '0' ++ ds)
    else ds.take (leading.toNat + 1) ++ '.' :: ds.drop (leading.toNat + 1)
  else
    let fraction := match ds.drop 1 with
      | [] => []
      | rest => '.' :: rest
    let mark := if leading < 0 then '-' else '+'
    ds.take 1 ++ fraction ++ 'E' :: mark :: Nat.toDigits 10 leading.natAbs

def text : Decimal → String
  | finite negative coefficient exponent =>
    signText negative ++ String.ofList (digitsText coefficient exponent)
  | infinite negative => signText negative ++ "Infinity"
  | nan negative signaling payload =>
    signText negative ++ (if signaling then "sNaN" else "NaN") ++
      (if payload = 0 then "" else toString payload)

/-- The binary64 number nearest to a decimal; a signaling one has none. -/
def toDouble? : Decimal → Option Double
  | finite negative coefficient exponent => some (Double.ofDecimal negative coefficient exponent)
  | infinite negative => some (.infinite negative)
  | nan _ true _ => none
  | nan _ false _ => some .nan

/-- A binary64 number rounded to two places, as a decimal. -/
def ofDoubleCents : Double → Decimal
  | .finite negative units => finite negative (Double.roundQuotient (units * 100) Double.scale) (-2)
  | .infinite negative => infinite negative
  | .nan => nan false false 0

end Decimal

namespace Double

/-- The number that a text denotes: a decimal numeral with single underscores between digits, an
infinity or no number, rounded to the nearest. -/
def read? (s : String) : Option Double :=
  let cs := trimChars isNumeralBlank s.toList
  if underscoresBetween false cs then
    let (negative, body) := splitSign (cs.filter (· ≠ '_'))
    match Decimal.lowerChars body with
    | ['i', 'n', 'f'] | ['i', 'n', 'f', 'i', 'n', 'i', 't', 'y'] => some (infinite negative)
    | ['n', 'a', 'n'] => some nan
    | _ => (Decimal.readUnsigned? body).map fun (digits, exponent) =>
        ofDecimal negative digits exponent
  else none
where
  /-- Whether every underscore stands between two digits; the flag tells that a digit stands in
  front. -/
  underscoresBetween (afterDigit : Bool) : List Char → Bool
    | [] => true
    | ['_'] => false
    | '_' :: c :: rest =>
      afterDigit && (digitValue? c).isSome && underscoresBetween true rest
    | c :: rest => underscoresBetween (digitValue? c).isSome rest

end Double

end TableApi
