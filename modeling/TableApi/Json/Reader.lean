import TableApi.Value

/-! Reading JSON. The reader keeps the order of keys, tells integers from numbers with a fraction
or exponent, takes `NaN` and `Infinity` for numbers, and says where and why a text is not JSON. -/

namespace TableApi.Json

open TableApi.Text

/-- Why a text is not JSON. -/
inductive Problem where
  | value
  | propertyName
  | colon
  | comma
  | extraData
  | openText
  | controlCharacter
  | badEscape
  | badCodePoint
  | longNumeral
  deriving DecidableEq, Repr

namespace Problem

def message : Problem → String
  | value => "Expecting value"
  | propertyName => "Expecting property name enclosed in double quotes"
  | colon => "Expecting ':' delimiter"
  | comma => "Expecting ',' delimiter"
  | extraData => "Extra data"
  | openText => "Unterminated string starting at"
  | controlCharacter => "Invalid control character at"
  | badEscape => "Invalid \\escape"
  | badCodePoint => "Invalid \\uXXXX escape"
  | longNumeral => "Exceeds the limit (4300 digits) for integer string conversion"

end Problem

/-- A problem with the count of characters from its place to the end of the text. -/
structure Fault where
  problem : Problem
  left : Nat
  deriving Repr

def fail {α : Type} (problem : Problem) (cs : List Char) : Except Fault α :=
  .error ⟨problem, cs.length⟩

def isSpace (c : Char) : Bool := c = ' ' || c = '\t' || c = '\n' || c = '\r'

def skipSpaces (cs : List Char) : List Char := cs.dropWhile isSpace

/-- Four hexadecimal digits of the basic alphabet, behind which the text goes on. -/
def readCodeUnit? : List Char → Option (Nat × List Char)
  | a :: b :: c :: d :: next :: rest => do
    let digits ← [a, b, c, d].mapM fun x => if x.toNat < 128 then hexValue? x else none
    some (digitsValue 16 digits, next :: rest)
  | _ => none

/-- The character of an escape of one letter. -/
def shortEscape? : Char → Option Char
  | '\x22' => some '\x22'
  | '\x5c' => some '\x5c'
  | '/' => some '/'
  | 'b' => some '\x08'
  | 'f' => some '\x0c'
  | 'n' => some '\n'
  | 'r' => some '\r'
  | 't' => some '\t'
  | _ => none

/-- A code unit, joined with the low half that follows a high one. -/
def joinUnits (unit : Nat) (rest : List Char) : Nat × List Char :=
  if 0xD800 ≤ unit ∧ unit < 0xDC00 then
    match rest with
    | '\x5c' :: 'u' :: more =>
      match readCodeUnit? more with
      | some (low, after) =>
        if 0xDC00 ≤ low ∧ low < 0xE000 then
          (0x10000 + (unit - 0xD800) * 0x400 + (low - 0xDC00), after)
        else (unit, rest)
      | none => (unit, rest)
    | _ => (unit, rest)
  else (unit, rest)

/-- The characters of a text behind its opening quote, in reverse, put in front of `acc`; `opening`
is the count of characters from the quote on. Half of a surrogate pair that stands alone is no
character, and the null character stands for it. -/
def readChars (opening : Nat) : (fuel : Nat) → (acc : List Char) → List Char →
    Except Fault (List Char × List Char)
  | 0, _, _ => .error ⟨.openText, opening⟩
  | _ + 1, _, [] => .error ⟨.openText, opening⟩
  | fuel + 1, acc, c :: cs =>
    if c = '\x22' then .ok (acc, cs)
    else if c = '\x5c' then
      match cs with
      | [] => .error ⟨.openText, opening⟩
      | 'u' :: more =>
        match readCodeUnit? more with
        | none => fail .badCodePoint cs
        | some (unit, after) =>
          let (point, rest) := joinUnits unit after
          readChars opening fuel (Char.ofNat point :: acc) rest
      | e :: more =>
        match shortEscape? e with
        | some x => readChars opening fuel (x :: acc) more
        | none => fail .badEscape (c :: cs)
    else if c.toNat < 32 then fail .controlCharacter (c :: cs)
    else readChars opening fuel (c :: acc) cs

/-- A text whose opening quote has been read. -/
def readText (cs : List Char) : Except Fault (String × List Char) :=
  (readChars (cs.length + 1) (cs.length + 1) [] cs).map fun (acc, rest) =>
    (String.ofList acc.reverse, rest)

def takePlainDigits (cs : List Char) : List Nat × List Char :=
  ((cs.takeWhile isPlainDigit).map (fun c => c.toNat - 48), cs.dropWhile isPlainDigit)

def takeWhole : List Char → List Nat × List Char
  | '0' :: cs => ([0], cs)
  | cs => takePlainDigits cs

/-- The fraction behind a point, when a digit follows it. -/
def takeFraction (cs : List Char) : List Nat × List Char :=
  match cs with
  | '.' :: more =>
    match takePlainDigits more with
    | ([], _) => ([], cs)
    | found => found
  | _ => ([], cs)

/-- The exponent behind its letter, when a digit follows. -/
def takeExponent (cs : List Char) : Option Int × List Char :=
  match cs with
  | c :: more =>
    if c = 'e' ∨ c = 'E' then
      let (negative, body) := Number.splitSign more
      match takePlainDigits body with
      | ([], _) => (none, cs)
      | (digits, rest) => (some (Number.withSign negative (digitsValue 10 digits)), rest)
    else (none, cs)
  | [] => (none, cs)

/-- A number, whose first character is a digit or a minus sign. -/
def readNumber (cs : List Char) : Except Fault (Value × List Char) :=
  let (negative, body) := match cs with
    | '-' :: rest => (true, rest)
    | _ => (false, cs)
  match takeWhole body with
  | ([], _) => fail .value cs
  | (whole, afterWhole) =>
    let (fraction, afterFraction) := takeFraction afterWhole
    let (exponent?, rest) := takeExponent afterFraction
    if fraction.isEmpty && exponent?.isNone then
      if whole.length ≤ Number.maxNumeralDigits then
        .ok (.int (Number.withSign negative (digitsValue 10 whole)), rest)
      else fail .longNumeral cs
    else
      let digits := digitsValue 10 (whole ++ fraction)
      .ok (.float (.ofDecimal negative digits (exponent?.getD 0 - fraction.length)), rest)

def words : List (String × Value) := [
  ("null", .null), ("true", .bool true), ("false", .bool false), ("NaN", .float .nan),
  ("Infinity", .float (.infinite false)), ("-Infinity", .float (.infinite true))]

def readWord? (cs : List Char) : Option (Value × List Char) :=
  words.findSome? fun (word, value) =>
    let pattern := word.toList
    if pattern.isPrefixOf cs then some (value, cs.drop pattern.length) else none

mutual

/-- A value at the front of a text. Every character takes at most two steps, so twice the length of
the text is fuel enough. -/
def readValue : (fuel : Nat) → List Char → Except Fault (Value × List Char)
  | 0, cs => fail .value cs
  | fuel + 1, cs =>
    match cs with
    | [] => fail .value cs
    | '\x22' :: rest => (readText rest).map fun (s, after) => (.text s, after)
    | '[' :: rest =>
      match skipSpaces rest with
      | ']' :: after => .ok (.list [], after)
      | inner => (readItems fuel inner).map fun (items, after) => (.list items, after)
    | '\x7b' :: rest =>
      match skipSpaces rest with
      | '\x7d' :: after => .ok (.map [], after)
      | inner => (readMembers fuel [] inner).map fun (entries, after) => (.map entries, after)
    | _ =>
      match readWord? cs with
      | some found => .ok found
      | none => readNumber cs

/-- The items of a list up to its closing bracket. -/
def readItems : (fuel : Nat) → List Char → Except Fault (List Value × List Char)
  | 0, cs => fail .value cs
  | fuel + 1, cs => do
    let (item, rest) ← readValue fuel cs
    match skipSpaces rest with
    | ']' :: after => .ok ([item], after)
    | ',' :: more =>
      let (items, after) ← readItems fuel (skipSpaces more)
      .ok (item :: items, after)
    | other => fail .comma other

/-- The members of a mapping up to its closing brace; a key that comes again replaces the value of
the earlier one. -/
def readMembers : (fuel : Nat) → (acc : Entries Value) → List Char →
    Except Fault (Entries Value × List Char)
  | 0, _, cs => fail .value cs
  | fuel + 1, acc, cs =>
    match cs with
    | '\x22' :: rest => do
      let (key, afterKey) ← readText rest
      match skipSpaces afterKey with
      | ':' :: more =>
        let (value, afterValue) ← readValue fuel (skipSpaces more)
        let acc := Entries.put key value acc
        match skipSpaces afterValue with
        | '\x7d' :: after => .ok (acc, after)
        | ',' :: next => readMembers fuel acc (skipSpaces next)
        | other => fail .comma other
      | other => fail .colon other
    | _ => fail .propertyName cs

end

/-- Why and where a text is not JSON. -/
structure Error where
  problem : Problem
  position : Nat
  deriving Repr

/-- The value that a text denotes. -/
def read (s : String) : Except Error Value :=
  let cs := s.toList
  let result := do
    let (value, rest) ← readValue (2 * cs.length + 2) (skipSpaces cs)
    match skipSpaces rest with
    | [] => .ok value
    | other => fail .extraData other
  result.mapError fun fault => ⟨fault.problem, cs.length - fault.left⟩

end TableApi.Json
