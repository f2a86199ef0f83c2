import TableApi.Params.Tree
import TableApi.Text.Blank
import TableApi.Text.Digit
import TableApi.Text.Utf8

/-! Query strings: items between ampersands, each a key and a value in percent encoding. -/

namespace TableApi.Web

open TableApi.Text

def plainHex? (c : Char) : Option Nat := if c.toNat < 128 then hexValue? c else none

/-- The bytes of a text in percent encoding; a percent sign without two digits is itself. -/
def percentBytes : List Char → List Nat
  | [] => []
  | '%' :: a :: b :: rest =>
    match plainHex? a, plainHex? b with
    | some high, some low => (high * 16 + low) :: percentBytes rest
    | _, _ => 0x25 :: percentBytes (a :: b :: rest)
  | c :: rest => utf8Bytes c ++ percentBytes rest

def percentDecode (s : String) : String := decodeUtf8 (percentBytes s.toList)

/-- A part of a query string, where a plus sign stands for a space. -/
def decodePart (cs : List Char) : String :=
  decodeUtf8 (percentBytes (cs.map fun c => if c = '+' then ' ' else c))

/-- The item of a piece of a query string: its key up to the first equals sign, and its value. -/
def readItem (cs : List Char) : Params.Item :=
  ⟨decodePart (cs.takeWhile (· ≠ '=')), decodePart ((cs.dropWhile (· ≠ '=')).drop 1)⟩

/-- The items of a query string; empty pieces mean nothing. -/
def readQuery (s : String) : List Params.Item :=
  ((splitChars '&' s.toList).filter (fun cs => !cs.isEmpty)).map readItem

def lastValue? (items : List Params.Item) (key : String) : Option String :=
  (items.reverse.find? (·.key == key)).map Params.Item.value

/-- Characters that stand for themselves in a location. -/
def isLocationChar (c : Char) : Bool :=
  c.isAlpha || isPlainDigit c || "_.-~:/%#?=@[]!$&'()*+,;".toList.contains c

def hexUpper (n : Nat) : Char := (hexChar n).toUpper

def encodeByte (b : Nat) : List Char := ['%', hexUpper (b / 16), hexUpper (b % 16)]

def encodeLocation (s : String) : String :=
  String.ofList (s.toList.flatMap fun c =>
    if isLocationChar c then [c] else (utf8Bytes c).flatMap encodeByte)

end TableApi.Web
