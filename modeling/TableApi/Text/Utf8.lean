/-! Decoding UTF-8. Bytes that do not form a character give one replacement character for every
longest beginning of a character among them. -/

namespace TableApi.Text

/-- A character that is not complete: the bytes it still needs, the range of the next of them, and
the value so far. -/
structure PartialChar where
  owed : Nat
  low : Nat
  high : Nat
  value : Nat
  deriving DecidableEq, Repr

def replacement : Char := Char.ofNat 0xFFFD

/-- What a byte gives at the beginning of a character: a character, or one that is not complete. -/
def beginChar (b : Nat) : List Char × Option PartialChar :=
  if b < 0x80 then ([Char.ofNat b], none)
  else if b < 0xC2 then ([replacement], none)
  else if b < 0xE0 then ([], some ⟨1, 0x80, 0xBF, b - 0xC0⟩)
  else if b = 0xE0 then ([], some ⟨2, 0xA0, 0xBF, 0⟩)
  else if b = 0xED then ([], some ⟨2, 0x80, 0x9F, 0xD⟩)
  else if b < 0xF0 then ([], some ⟨2, 0x80, 0xBF, b - 0xE0⟩)
  else if b = 0xF0 then ([], some ⟨3, 0x90, 0xBF, 0⟩)
  else if b < 0xF4 then ([], some ⟨3, 0x80, 0xBF, b - 0xF0⟩)
  else if b = 0xF4 then ([], some ⟨3, 0x80, 0x8F, 4⟩)
  else ([replacement], none)

/-- What a byte gives behind the beginning of a character. -/
def continueChar (p : PartialChar) (b : Nat) : List Char × Option PartialChar :=
  if p.low ≤ b ∧ b ≤ p.high then
    let value := p.value * 64 + (b - 0x80)
    if p.owed ≤ 1 then ([Char.ofNat value], none)
    else ([], some ⟨p.owed - 1, 0x80, 0xBF, value⟩)
  else
    let (chars, next) := beginChar b
    (replacement :: chars, next)

/-- The characters of bytes behind what is not complete yet. -/
def decodeFrom : Option PartialChar → List Nat → List Char
  | none, [] => []
  | some _, [] => [replacement]
  | pending, b :: bs =>
    let (chars, next) := match pending with
      | none => beginChar b
      | some p => continueChar p b
    chars ++ decodeFrom next bs

def decodeUtf8 (bytes : List Nat) : String := String.ofList (decodeFrom none bytes)

def utf8Bytes (c : Char) : List Nat := (String.utf8EncodeChar c).map UInt8.toNat

end TableApi.Text
