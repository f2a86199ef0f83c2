import TableApi.Text.Blank

/-! Bracketed keys: `root[a][b]` names a path of at most three segments below its root, and an
empty last segment asks for a list. -/

namespace TableApi.Params

open TableApi.Text

/-- The greatest count of bracketed segments. -/
def maxDepth : Nat := 3

def isPlain (c : Char) : Bool := c != '[' && c != ']'

/-- The segments of a text that consists of bracketed segments only. -/
def segments? (cs : List Char) : Option (List (List Char)) :=
  match cs with
  | [] => some []
  | '[' :: rest =>
    match _h : rest.dropWhile isPlain with
    | ']' :: more => (segments? more).map (rest.takeWhile isPlain :: ·)
    | _ => none
  | _ => none
termination_by cs.length
decreasing_by
  have hle : (rest.dropWhile isPlain).length ≤ rest.length := (List.dropWhile_sublist _).length_le
  simp_all
  omega

/-- The root and the segments of a key, white space around it aside. Only the last segment may be
empty. -/
def splitKey? (key : String) : Option (List String) :=
  let cs := stripChars key.toList
  let root := cs.takeWhile isPlain
  if root.isEmpty then none
  else
    match segments? (cs.dropWhile isPlain) with
    | none => none
    | some segments =>
      if maxDepth < segments.length ∨ segments.dropLast.any List.isEmpty then none
      else some ((root :: segments).map String.ofList)

end TableApi.Params
