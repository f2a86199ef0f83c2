import TableApi.Options.Basic
import TableApi.Text.Blank

/-! Sort terms: field names between commas, each with an optional sign for its direction. -/

namespace TableApi

open TableApi.Text

structure SortTerm where
  field : String
  direction : Direction
  deriving DecidableEq, Repr

namespace SortTerm

/-- The term of one piece of a sort text. -/
def ofPart (fallback : Direction) (part : String) : SortTerm :=
  match part.toList with
  | '-' :: rest => ⟨strip (String.ofList rest), .descending⟩
  | '+' :: rest => ⟨strip (String.ofList rest), .ascending⟩
  | _ => ⟨part, fallback⟩

/-- The terms of a sort text; blank pieces mean nothing. -/
def readAll (fallback : Direction) (raw : String) : List SortTerm :=
  (commaParts raw).map (ofPart fallback)

/-- Of each field only its first term. -/
def firstOfEach : (seen : List String) → List SortTerm → List SortTerm
  | _, [] => []
  | seen, t :: rest =>
    if seen.contains t.field then firstOfEach seen rest
    else t :: firstOfEach (t.field :: seen) rest

end SortTerm

end TableApi
