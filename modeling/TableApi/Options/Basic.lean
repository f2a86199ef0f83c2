import TableApi.Value

/-! The options of a listing: five sections, each of which can be switched on or off. -/

namespace TableApi

abbrev Positive : Type := { n : Nat // 1 ≤ n }

inductive Direction where
  | ascending
  | descending
  deriving DecidableEq, Repr, Inhabited

namespace Direction

def word : Direction → String
  | ascending => "asc"
  | descending => "desc"

end Direction

namespace Options

structure Pagination where
  enabled : Bool
  pageParam : String
  sizeParam : String
  defaultSize : Positive
  maxSize : Positive
  deriving DecidableEq, Repr

structure Sorting where
  enabled : Bool
  sortParam : String
  defaultDirection : Direction
  allowed : List String
  deriving DecidableEq, Repr

structure Searching where
  enabled : Bool
  searchParam : String
  fields : List String
  deriving DecidableEq, Repr

structure Filtering where
  enabled : Bool
  filterParam : String
  fields : List String
  deriving DecidableEq, Repr

structure Totals where
  enabled : Bool
  rowsKey : String
  totalKey : String
  deriving DecidableEq, Repr

end Options

structure Options where
  pagination : Options.Pagination
  sorting : Options.Sorting
  searching : Options.Searching
  filtering : Options.Filtering
  totals : Options.Totals
  deriving DecidableEq, Repr

namespace Options

/-- Every field that the options let a request reach. -/
def fieldNames (o : Options) : List String :=
  (o.sorting.allowed ++ o.searching.fields ++ o.filtering.fields).eraseDups

end Options

end TableApi
