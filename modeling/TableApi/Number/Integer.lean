import TableApi.Text.Blank
import TableApi.Text.Digit

/-! Integer numerals. The general numeral has digits of any script and single underscores between
digits; the plain numeral has digits of the basic alphabet only. -/

namespace TableApi.Number

open TableApi.Text

def maxNumeralDigits : Nat := 4300

/-- The sign in front of a numeral, true for a minus, and what follows it. -/
def splitSign : List Char → Bool × List Char
  | '-' :: rest => (true, rest)
  | '+' :: rest => (false, rest)
  | cs => (false, cs)

def withSign (negative : Bool) (n : Nat) : Int := if negative then -(n : Int) else n

/-- The digit values of a numeral whose digits may be parted by single underscores. -/
def groupedDigits? (value? : Char → Option Nat) (cs : List Char) : Option (List Nat) :=
  ((splitChars '_' cs).mapM fun (group : List Char) =>
    if group.isEmpty then none else group.mapM value?).map List.flatten

/-- The integer that a text denotes, white space around it aside. -/
def readInteger? (s : String) : Option Int :=
  let (negative, body) := splitSign (stripChars s.toList)
  match groupedDigits? digitValue? body with
  | none => none
  | some digits =>
    if digits.length ≤ maxNumeralDigits then some (withSign negative (digitsValue 10 digits))
    else none

/-- The integer that a text denotes, when its digits are those of the basic alphabet and nothing
parts them. -/
def readPlainInteger? (s : String) : Option Int :=
  let (negative, body) := splitSign (stripChars s.toList)
  if !body.isEmpty && body.all isPlainDigit && decide (body.length ≤ maxNumeralDigits) then
    some (withSign negative (digitsValue 10 (body.map fun c => c.toNat - 48)))
  else none

/-- What stands after the prefix of a hexadecimal numeral. -/
def dropHexMark : List Char → List Char
  | '0' :: 'x' :: '_' :: rest | '0' :: 'X' :: '_' :: rest => rest
  | '0' :: 'x' :: rest | '0' :: 'X' :: rest => rest
  | cs => cs

/-- The integer that a hexadecimal text denotes, with or without the prefix `0x`. -/
def readHex? (cs : List Char) : Option Int :=
  let (negative, body) := splitSign (trimChars isNumeralBlank cs)
  (groupedDigits? hexValue? (dropHexMark body)).map fun digits =>
    withSign negative (digitsValue 16 digits)

def maxStored : Int := 9223372036854775807

def minStored : Int := -9223372036854775808

def fitsStore (n : Int) : Bool := decide (minStored ≤ n ∧ n ≤ maxStored)

end TableApi.Number
