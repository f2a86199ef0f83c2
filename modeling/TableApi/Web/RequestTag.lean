import TableApi.Text.Blank
import TableApi.Text.Digit

/-! Request tags: the name of a request in its answer. A well-formed tag of the client is kept. -/

namespace TableApi.Web

open TableApi.Text

def isTagChar (c : Char) : Bool := c.isAlpha || isPlainDigit c || c = '.' || c = '_' || c = '-'

def maxTagLength : Nat := 128

/-- The tag in a header, when there is a well-formed one. -/
def keptTag? (header : Option String) : Option String :=
  let cs := stripChars (header.getD "").toList
  if !cs.isEmpty && cs.all isTagChar && decide (cs.length ≤ maxTagLength) then
    some (String.ofList cs)
  else none

end TableApi.Web
