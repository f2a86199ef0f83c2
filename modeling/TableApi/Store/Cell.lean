import TableApi.Number.Integer
import TableApi.Number.Shortest
import TableApi.Schema.Column
import TableApi.Text.Blank

/-! Cells of the store: their order, and the affinity of a column, which turns texts into numbers
and numbers into texts. -/

namespace TableApi

open TableApi.Text TableApi.Number

inductive Cell where
  | null
  | integer (n : Int)
  | real (x : Double)
  | text (s : String)
  | blob (bytes : List Nat)
  deriving DecidableEq, Repr, Inhabited

namespace Cell

def isNull : Cell → Bool
  | null => true
  | _ => false

/-- The number in a cell, on the common scale of integers and binary64 numbers. -/
def magnitude? : Cell → Option Magnitude
  | integer n => some (.ofInt n)
  | real x => Magnitude.ofDouble? x
  | _ => none

/-- The classes of cells in their order. What is no number, which the store never keeps, stands
behind the nulls and before all numbers. -/
def rank : Cell → Nat
  | null => 0
  | real .nan => 1
  | integer _ | real _ => 2
  | text _ => 3
  | blob _ => 4

/-- Nulls come before numbers, numbers before texts, texts before byte strings. -/
def order (a b : Cell) : Ordering :=
  match a, b with
  | text s, text t => compare s t
  | blob x, blob y => bytesOrder x y
  | a, b =>
    match a.magnitude?, b.magnitude? with
    | some x, some y => x.order y
    | _, _ => compare a.rank b.rank
where
  bytesOrder : List Nat → List Nat → Ordering
    | [], [] => .eq
    | [], _ :: _ => .lt
    | _ :: _, [] => .gt
    | x :: xs, y :: ys => (compare x y).then (bytesOrder xs ys)

/-- The text of a number as the store writes it; other cells stay. -/
def numberToText : Cell → Cell
  | integer n => text (toString n)
  | real x => text x.storedText
  | c => c

/-- A real number as an integer, when it is one within the range of the store. -/
def narrow : Cell → Cell
  | real x =>
    match x.toInt? with
    | some n => if minStored < n ∧ n < maxStored then integer n else real x
    | none => real x
  | c => c

end Cell

namespace Store

def isSpace (c : Char) : Bool := c = ' ' || (9 ≤ c.toNat && c.toNat ≤ 13)

/-- An exponent, which must have a digit; none is zero. -/
def readExponent? : List Char → Option Int
  | [] => some 0
  | c :: rest =>
    if c = 'e' ∨ c = 'E' then
      let (negative, digits) := splitSign rest
      if !digits.isEmpty && digits.all isPlainDigit then
        some (withSign negative (digitsValue 10 (digits.map fun d => d.toNat - 48)))
      else none
    else none

/-- The number that a text denotes: an integer within the range of the store, or a real number. -/
def readNumber? (s : String) : Option Cell :=
  let (negative, body) := splitSign (trimChars isSpace s.toList)
  let whole := body.takeWhile isPlainDigit
  let rest := body.dropWhile isPlainDigit
  let (fraction, rest, pointed) := match rest with
    | '.' :: more => (more.takeWhile isPlainDigit, more.dropWhile isPlainDigit, true)
    | _ => ([], rest, false)
  let digits := digitsValue 10 ((whole ++ fraction).map fun d => d.toNat - 48)
  if whole.isEmpty && fraction.isEmpty then none
  else if !pointed && rest.isEmpty && fitsStore (withSign negative digits) then
    some (.integer (withSign negative digits))
  else (readExponent? rest).map fun exponent =>
    .real (.ofDecimal negative digits (exponent - fraction.length))

end Store

/-- The kind of cells that a column prefers. -/
inductive Affinity where
  | numeric
  | real
  | text
  | none
  deriving DecidableEq, Repr, Inhabited

namespace Affinity

/-- Turn a text that reads as a number into the number. -/
def toNumber : Cell → Cell
  | .text s => (Store.readNumber? s).getD (.text s)
  | c => c

/-- What a column makes of an operand that it is compared with. -/
def compared : Affinity → Cell → Cell
  | numeric, c | real, c => toNumber c
  | text, c => c.numberToText
  | none, c => c

/-- What a column keeps of a cell that is written to it. -/
def stored : Affinity → Cell → Cell
  | numeric, c => (toNumber c).narrow
  | real, c =>
    match (toNumber c).narrow with
    | .integer n => .real ((Double.ofInt? n).getD .nan)
    | c => c
  | text, c => c.numberToText
  | none, c => c

end Affinity

/-- The affinity of the columns of a kind. -/
def ColumnKind.affinity : ColumnKind → Affinity
  | .text | .uuid | .raw => .text
  | .float => .real
  | .integer | .numeric | .boolean | .date | .moment | .json => .numeric

end TableApi
