import TableApi.Number.Integer

/-! Identifiers of 128 bits and their texts: 32 hexadecimal digits, plain or in five groups. -/

namespace TableApi

open TableApi.Text

structure Uuid where
  bits : BitVec 128
  deriving DecidableEq, Repr, Inhabited

namespace Uuid

def ofNat (n : Nat) : Uuid := ⟨BitVec.ofNat 128 n⟩

def digits (u : Uuid) : List Char := hexDigits 32 u.bits.toNat

def plainText (u : Uuid) : String := String.ofList u.digits

/-- The digits in groups of 8, 4, 4, 4 and 12. -/
def text (u : Uuid) : String :=
  let ds := u.digits
  let group (start count : Nat) := String.ofList ((ds.drop start).take count)
  joinWith "-" [group 0 8, group 8 4, group 12 4, group 16 4, group 20 12]

/-- The text without any occurrence of a pattern, searched from the left; `skip` characters of a
found occurrence are still to be left out. -/
def without (pattern : List Char) : (skip : Nat) → List Char → List Char
  | _, [] => []
  | skip + 1, _ :: cs => without pattern skip cs
  | 0, c :: cs =>
    if pattern.isPrefixOf (c :: cs) then without pattern (pattern.length - 1) cs
    else c :: without pattern 0 cs

def isBrace (c : Char) : Bool := c = '\x7b' || c = '\x7d'

/-- The 32 characters of an identifier, its labels, braces and hyphens left out. -/
def core (s : String) : List Char :=
  let cs := without "uuid:".toList 0 (without "urn:".toList 0 s.toList)
  (trimChars isBrace cs).filter (· ≠ '-')

/-- The identifier that a text denotes. -/
def read? (s : String) : Option Uuid :=
  let cs := core s
  if cs.length = 32 then
    match Number.readHex? cs with
    | some (.ofNat n) => some (ofNat n)
    | _ => none
  else none

end Uuid

end TableApi
