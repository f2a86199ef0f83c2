import TableApi.Number.Power
import TableApi.Text.Utf8

/-! Loose reading of bytes as characters: every sequence of bytes can be read. A leading byte takes
all continuation bytes behind it, however many they are, and a continuation byte without a leading
byte stands for itself. Some values are not told apart: those that several bytes should not have
given are all read as the replacement character. -/

namespace TableApi.Text

/-- The character as a loose reader sees it: the two noncharacters at the end of the first plane are
seen as the replacement character. -/
def seenChar (c : Char) : Char :=
  if c.toNat = 0xFFFE ∨ c.toNat = 0xFFFF then replacement else c

/-- What stands for a value beyond all characters. No character is seen as it. -/
def beyondChars : Char := Char.ofNat 0xFFFF

/-- The character for a value that a leading byte and those behind it give. -/
def looseChar (n : Nat) : Char :=
  if n < 0x80 ∨ (0xD800 ≤ n ∧ n < 0xE000) then replacement
  else if 0x10FFFF < n then beyondChars
  else seenChar (Char.ofNat n)

/-- The part of a value that is in a leading byte. -/
def leadingBits (b : Nat) : Nat :=
  if b < 0xE0 then b - 0xC0
  else if b < 0xF0 then b - 0xE0
  else if b < 0xF8 then b - 0xF0
  else if b < 0xFC then b - 0xF8
  else if b < 0xFE then b - 0xFC
  else 0

/-- What a byte gives that is not part of a value: a character, or the beginning of a value. -/
def beginLoose (b : Nat) : List Char × Option Nat :=
  if b < 0xC0 then ([Char.ofNat b], none) else ([], some (leadingBits b))

/-- What a byte gives behind the beginning of a value, which is kept to 32 bits. -/
def continueLoose (value b : Nat) : List Char × Option Nat :=
  if 0x80 ≤ b ∧ b < 0xC0 then ([], some ((value * 64 + (b - 0x80)) % Number.twoTo 32))
  else
    let (chars, next) := beginLoose b
    (looseChar value :: chars, next)

/-- The characters of bytes behind a value that is not complete yet. -/
def readLooseFrom : Option Nat → List Nat → List Char
  | pending, [] => pending.toList.map looseChar
  | pending, b :: bs =>
    let (chars, next) := match pending with
      | none => beginLoose b
      | some value => continueLoose value b
    chars ++ readLooseFrom next bs

def readLoose (bytes : List Nat) : List Char := readLooseFrom none bytes

end TableApi.Text
