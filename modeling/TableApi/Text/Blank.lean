/-! White space, and the text operations that rest on it: stripping both ends of a text and
splitting a text at a separator. -/

namespace TableApi.Text

/-- White space is the Unicode property together with the four information separators; the zero
width space and the byte order mark are not white space. -/
def isBlank (c : Char) : Bool :=
  let n := c.toNat
  (9 ≤ n && n ≤ 13) || (28 ≤ n && n ≤ 32) || n == 0x85 || n == 0xA0 || n == 0x1680 ||
    (0x2000 ≤ n && n ≤ 0x200A) || n == 0x2028 || n == 0x2029 || n == 0x202F || n == 0x205F ||
    n == 0x3000

/-- White space that may stand around a numeral, which the separators are not. -/
def isNumeralBlank (c : Char) : Bool := isBlank c && !(28 ≤ c.toNat && c.toNat ≤ 31)

/-- What is left when the characters of a kind are dropped at both ends. -/
def trimChars (drop : Char → Bool) (cs : List Char) : List Char :=
  ((cs.dropWhile drop).reverse.dropWhile drop).reverse

def stripChars (cs : List Char) : List Char := trimChars isBlank cs

def strip (s : String) : String := String.ofList (stripChars s.toList)

/-- Cut at every separator, which leaves one more piece than there are separators. -/
def splitChars (sep : Char) (cs : List Char) : List (List Char) :=
  cs.foldr
    (fun c pieces =>
      if c = sep then [] :: pieces
      else match pieces with
        | [] => [[c]]
        | piece :: rest => (c :: piece) :: rest)
    [[]]

def splitAt (sep : Char) (s : String) : List String := (splitChars sep s.toList).map String.ofList

/-- The stripped pieces between commas, the empty ones left out. -/
def commaParts (s : String) : List String :=
  ((splitAt ',' s).map strip).filter (fun part => !part.isEmpty)

/-- Letters of the basic alphabet in lower case, all other characters as they are. -/
def foldCase (s : String) : String := String.ofList (s.toList.map Char.toLower)

def joinWith (sep : String) (parts : List String) : String := sep.intercalate parts

end TableApi.Text
