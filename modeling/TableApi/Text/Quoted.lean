import TableApi.Text.Digit
import TableApi.Text.Printable

/-! Quoted texts, as they appear in error messages. A text stands in single quotes, or in double
quotes when it holds a single quote and no double one; the chosen quote, the backslash and all
characters that cannot be printed are escaped. -/

namespace TableApi.Text

def quoteMark (cs : List Char) : Char :=
  if cs.contains '\x27' && !cs.contains '\x22' then '\x22' else '\x27'

def escapeChar (mark c : Char) : List Char :=
  if c = mark ∨ c = '\x5c' then ['\x5c', c]
  else if c = '\n' then ['\x5c', 'n']
  else if c = '\t' then ['\x5c', 't']
  else if c = '\r' then ['\x5c', 'r']
  else if isPrintable c then [c]
  else
    let n := c.toNat
    if n < 0x100 then '\x5c' :: 'x' :: hexDigits 2 n
    else if n < 0x10000 then '\x5c' :: 'u' :: hexDigits 4 n
    else '\x5c' :: 'U' :: hexDigits 8 n

/-- The text in quotes. -/
def quote (s : String) : String :=
  let cs := s.toList
  let mark := quoteMark cs
  String.ofList (mark :: (cs.flatMap (escapeChar mark) ++ [mark]))

/-- A byte in a quoted byte string, where every byte beyond the printable ones is escaped. -/
def escapeByte (mark : Char) (b : Nat) : List Char :=
  let c := Char.ofNat b
  if c = mark ∨ c = '\x5c' then ['\x5c', c]
  else if c = '\n' then ['\x5c', 'n']
  else if c = '\t' then ['\x5c', 't']
  else if c = '\r' then ['\x5c', 'r']
  else if 32 ≤ b ∧ b < 127 then [c]
  else '\x5c' :: 'x' :: hexDigits 2 b

/-- A byte string in quotes after the letter `b`. -/
def quoteBytes (bytes : List Nat) : String :=
  let mark := quoteMark (bytes.map Char.ofNat)
  String.ofList ('b' :: mark :: (bytes.flatMap (escapeByte mark) ++ [mark]))

end TableApi.Text
