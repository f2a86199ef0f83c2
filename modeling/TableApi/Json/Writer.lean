import TableApi.Number.Shortest
import TableApi.Value

/-! Writing JSON in basic letters: characters beyond them are escaped. -/

namespace TableApi.Json

open TableApi.Text

def escapeUnit (n : Nat) : List Char := '\x5c' :: 'u' :: hexDigits 4 n

/-- A character inside a text. -/
def escapeChar (c : Char) : List Char :=
  match c with
  | '\x22' => ['\x5c', '\x22']
  | '\x5c' => ['\x5c', '\x5c']
  | '\n' => ['\x5c', 'n']
  | '\r' => ['\x5c', 'r']
  | '\t' => ['\x5c', 't']
  | '\x08' => ['\x5c', 'b']
  | '\x0c' => ['\x5c', 'f']
  | c =>
    let n := c.toNat
    if 32 ≤ n ∧ n < 127 then [c]
    else if n < 0x10000 then escapeUnit n
    else
      let m := n - 0x10000
      escapeUnit (0xD800 + m / 0x400) ++ escapeUnit (0xDC00 + m % 0x400)

def writeText (s : String) : String :=
  String.ofList ('\x22' :: (s.toList.flatMap escapeChar ++ ['\x22']))

def writeDouble : Double → String
  | .nan => "NaN"
  | .infinite negative => if negative then "-Infinity" else "Infinity"
  | x => x.text

mutual

/-- The text of a value, when it is made of the kinds that JSON has. -/
def write? : Value → Option String
  | .null => some "null"
  | .bool b => some (if b then "true" else "false")
  | .int n => some (toString n)
  | .float x => some (writeDouble x)
  | .text s => some (writeText s)
  | .list items | .tuple items =>
    (writeItems? items).map fun parts => "[" ++ joinWith ", " parts ++ "]"
  | .map entries =>
    (writeMembers? entries).map fun parts => "\x7b" ++ joinWith ", " parts ++ "\x7d"
  | _ => none

def writeItems? : List Value → Option (List String)
  | [] => some []
  | item :: rest => do
    let part ← write? item
    let parts ← writeItems? rest
    some (part :: parts)

def writeMembers? : List (String × Value) → Option (List String)
  | [] => some []
  | (key, value) :: rest => do
    let part ← write? value
    let parts ← writeMembers? rest
    some ((writeText key ++ ": " ++ part) :: parts)

end

end TableApi.Json
