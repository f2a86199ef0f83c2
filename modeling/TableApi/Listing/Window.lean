import TableApi.Number.Integer
import TableApi.Options.Basic
import TableApi.Params.Tree

/-! The window of a page: which page is shown, and how many rows a page has. -/

namespace TableApi

open TableApi.Number

structure Window where
  page : Positive
  size : Positive
  deriving DecidableEq, Repr

namespace Window

def maxOffset : Nat := 9223372036854775807

/-- The integer that a page or size parameter denotes. -/
def readInt? : Value → Option Int
  | .int n => some n
  | .text s => readPlainInteger? s
  | _ => none

/-- The count of rows of a page: the requested size when it is positive, the default one else, and
never more than the largest. -/
def sizeOf (p : Options.Pagination) (requested : Option Int) : Positive :=
  let size := match requested with
    | some (.ofNat n) => if n = 0 then p.defaultSize.val else n
    | _ => p.defaultSize.val
  ⟨max (min size p.maxSize.val) 1, Nat.le_max_right ..⟩

/-- The page asked for, but none beyond the last one whose offset the store can hold. -/
def pageOf (requested : Option Int) (size : Positive) : Positive :=
  let page := max (requested.getD 1).toNat 1
  ⟨min page (maxOffset / size.val + 1), Nat.le_min.2 ⟨Nat.le_max_right .., Nat.le_add_left ..⟩⟩

def ofParams (p : Options.Pagination) (params : Entries Value) : Window :=
  let size := sizeOf p (readInt? (Params.value params p.sizeParam))
  ⟨pageOf (readInt? (Params.value params p.pageParam)) size, size⟩

def offset (w : Window) : Nat := (w.page.val - 1) * w.size.val

end Window

end TableApi
