import TableApi.Text.Blank
import TableApi.Text.Loose

/-! Patterns of texts: a percent sign stands for any characters, an underscore for one, and an
escaped character for itself. Letters match without regard to case. -/

namespace TableApi.Pattern

open TableApi.Text

/-- The character that takes their meaning from the characters behind it. -/
def escapeMark : Char := '/'

/-- A part of a pattern. -/
inductive Part where
  | anything
  | anyOne
  | char (c : Char)
  deriving DecidableEq, Repr

/-- The parts of a pattern. -/
def parts : List Char → List Part
  | [] => []
  | [c] => if c = '%' then [.anything] else if c = '_' then [.anyOne] else [.char c]
  | c :: d :: rest =>
    if c = escapeMark then .char d :: parts rest
    else if c = '%' then .anything :: parts (d :: rest)
    else if c = '_' then .anyOne :: parts (d :: rest)
    else .char c :: parts (d :: rest)

/-- Whether some end of a text satisfies a test. -/
def anyEnd (test : List Char → Bool) : List Char → Bool
  | [] => test []
  | c :: rest => test (c :: rest) || anyEnd test rest

/-- Whether the parts match a whole text. -/
def matchesParts : List Part → List Char → Bool
  | [], cs => cs.isEmpty
  | .anything :: ps, cs => anyEnd (matchesParts ps) cs
  | .anyOne :: ps, cs =>
    match cs with
    | [] => false
    | _ :: rest => matchesParts ps rest
  | .char p :: ps, cs =>
    match cs with
    | [] => false
    | c :: rest => p.toLower == c.toLower && matchesParts ps rest

/-- The characters before the first null character. -/
def untilNull (cs : List Char) : List Char := cs.takeWhile (· ≠ '\x00')

/-- Whether a pattern matches the characters seen in a text; both end at a null character. -/
def matchesText (pattern text : List Char) : Bool :=
  matchesParts (parts (untilNull (pattern.map seenChar))) (untilNull text)

/-- The pattern in which every character stands for itself. -/
def escape (cs : List Char) : List Char :=
  cs.flatMap fun c => if c = escapeMark ∨ c = '%' ∨ c = '_' then [escapeMark, c] else [c]

/-- The pattern of the texts that hold a term. -/
def holding (term : String) : List Char :=
  '%' :: ((escape term.toList).map Char.toLower ++ ['%'])

def maxBytes : Nat := 50000

def isTooLong (pattern : List Char) : Bool := maxBytes < (String.ofList pattern).utf8ByteSize

end TableApi.Pattern
