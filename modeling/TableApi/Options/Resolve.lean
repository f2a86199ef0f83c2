import TableApi.Options.Merge
import TableApi.Text.Digit
import TableApi.Value.Literal

/-! Resolving options. Every place of the merged tree is checked, so that all faults are told at
once; a place with a fault counts as its default until then. -/

namespace TableApi.Options

open TableApi.Text

/-- What is wrong at one place of the options. -/
inductive Problem where
  | unknownKey
  | notSection (kind : String)
  | notBool
  | notInteger
  | belowOne
  | notText
  | emptyText
  | notDirection
  | notFieldNames
  | unsafeFieldName (item : Value)
  deriving Repr

namespace Problem

/-- The code of a problem. -/
def code : Problem → String
  | unknownKey => "extra_forbidden"
  | notSection _ => "model_type"
  | notBool => "bool_type"
  | notInteger => "int_type"
  | belowOne => "greater_than_equal"
  | notText => "string_type"
  | emptyText => "string_too_short"
  | notDirection => "literal_error"
  | notFieldNames | unsafeFieldName _ => "value_error"

def message : Problem → String
  | unknownKey => "Extra inputs are not permitted"
  | notSection kind => "Input should be a valid dictionary or instance of " ++ kind
  | notBool => "Input should be a valid boolean"
  | notInteger => "Input should be a valid integer"
  | belowOne => "Input should be greater than or equal to 1"
  | notText => "Input should be a valid string"
  | emptyText => "String should have at least 1 character"
  | notDirection => "Input should be 'asc' or 'desc'"
  | notFieldNames => "Value error, field names must be a list of strings"
  | unsafeFieldName item => "Value error, unsafe field name: " ++ item.literal

end Problem

/-- A problem and the path to its place. -/
structure Fault where
  path : List String
  problem : Problem
  deriving Repr

def Fault.message (f : Fault) : String := joinWith "." f.path ++ ": " ++ f.problem.message

/-- Why options cannot be resolved. -/
inductive Error where
  | notMapping
  | faulty (faults : List Fault)
  deriving Repr

namespace Error

def message : Error → String
  | notMapping => "query options must be a mapping"
  | faulty faults => "invalid query options: " ++ joinWith "; " (faults.map Fault.message)

def faults : Error → List Fault
  | notMapping => []
  | faulty faults => faults

end Error

def readBool : Value → Except Problem Bool
  | .bool b => .ok b
  | _ => .error .notBool

def readPositive : Value → Except Problem Positive
  | .int n =>
    if h : 1 ≤ n then .ok ⟨n.toNat, by omega⟩ else .error .belowOne
  | _ => .error .notInteger

def readName : Value → Except Problem String
  | .text s => if s.isEmpty then .error .emptyText else .ok s
  | _ => .error .notText

def readDirection : Value → Except Problem Direction
  | .text s =>
    if s = "asc" then .ok .ascending else if s = "desc" then .ok .descending
    else .error .notDirection
  | _ => .error .notDirection

def isNameStart (c : Char) : Bool := c.isAlpha || c = '_'

/-- A plain identifier, which is safe as the name of a column. -/
def isSafeName (s : String) : Bool :=
  match s.toList with
  | [] => false
  | c :: rest => isNameStart c && rest.all fun d => isNameStart d || isPlainDigit d

/-- The safe names among the items of a list, each once, or the first item that is none. -/
def readNames : (seen : List String) → List Value → Except Problem (List String)
  | seen, [] => .ok seen
  | seen, .text s :: rest =>
    if isSafeName s then readNames (if seen.contains s then seen else seen ++ [s]) rest
    else .error (.unsafeFieldName (.text s))
  | _, item :: _ => .error (.unsafeFieldName item)

def readFieldNames : Value → Except Problem (List String)
  | .null => .ok []
  | .list items | .tuple items | .set items => readNames [] items
  | .map entries => readNames [] ((Entries.keys entries).map Value.text)
  | _ => .error .notFieldNames

/-- A value that was read, together with the faults found on the way. -/
structure Checked (α : Type) where
  value : α
  faults : List Fault

/-- The result of reading one key of a section; the default stands in for a faulty value. -/
def check {α : Type} (read : Value → Except Problem α) (fallback : α)
    (name : String) (entries : Entries Value) (key : String) : Checked α :=
  match entries.get? key with
  | none => ⟨fallback, []⟩
  | some v =>
    match read v with
    | .ok a => ⟨a, []⟩
    | .error problem => ⟨fallback, [⟨[name, key], problem⟩]⟩

def unknownKeys (name : String) (known : List String) (entries : Entries Value) : List Fault :=
  ((Entries.keys entries).filter fun key => !known.contains key).map fun key =>
    ⟨[name, key], .unknownKey⟩

/-- Check a section of the tree, which has to be a mapping with known keys. -/
def checkSection {α : Type} (name kind : String) (sectionDefaults : Entries Value)
    (body : Entries Value → Checked α) (sections : Entries Value) : Checked α :=
  match sections.get? name with
  | some (.map entries) =>
    let checked := body entries
    ⟨checked.value, checked.faults ++ unknownKeys name (Entries.keys sectionDefaults) entries⟩
  | _ => ⟨(body []).value, [⟨[name], .notSection kind⟩]⟩

def checkPagination (e : Entries Value) : Checked Pagination :=
  let enabled := check readBool false "pagination" e "enabled"
  let pageParam := check readName "page" "pagination" e "page_param"
  let sizeParam := check readName "size" "pagination" e "per_param"
  let defaultSize := check readPositive ⟨10, by decide⟩ "pagination" e "default_per"
  let maxSize := check readPositive ⟨100, by decide⟩ "pagination" e "max_per"
  ⟨⟨enabled.value, pageParam.value, sizeParam.value, defaultSize.value, maxSize.value⟩,
    enabled.faults ++ pageParam.faults ++ sizeParam.faults ++ defaultSize.faults ++
      maxSize.faults⟩

def checkSorting (e : Entries Value) : Checked Sorting :=
  let enabled := check readBool false "sorting" e "enabled"
  let sortParam := check readName "sort" "sorting" e "sort_param"
  let direction := check readDirection .ascending "sorting" e "default_direction"
  let allowed := check readFieldNames [] "sorting" e "allowed_fields"
  ⟨⟨enabled.value, sortParam.value, direction.value, allowed.value⟩,
    enabled.faults ++ sortParam.faults ++ direction.faults ++ allowed.faults⟩

def checkSearching (e : Entries Value) : Checked Searching :=
  let enabled := check readBool false "searching" e "enabled"
  let searchParam := check readName "q" "searching" e "search_param"
  let fields := check readFieldNames [] "searching" e "searchable_fields"
  ⟨⟨enabled.value, searchParam.value, fields.value⟩,
    enabled.faults ++ searchParam.faults ++ fields.faults⟩

def checkFiltering (e : Entries Value) : Checked Filtering :=
  let enabled := check readBool false "filtering" e "enabled"
  let filterParam := check readName "filter" "filtering" e "filter_param"
  let fields := check readFieldNames [] "filtering" e "filterable_fields"
  ⟨⟨enabled.value, filterParam.value, fields.value⟩,
    enabled.faults ++ filterParam.faults ++ fields.faults⟩

def checkTotals (e : Entries Value) : Checked Totals :=
  let enabled := check readBool true "meta" e "enabled"
  let rowsKey := check readName "rows" "meta" e "rows_key"
  let totalKey := check readName "total" "meta" e "total_key"
  ⟨⟨enabled.value, rowsKey.value, totalKey.value⟩,
    enabled.faults ++ rowsKey.faults ++ totalKey.faults⟩

def unknownSections (sections : Entries Value) : List Fault :=
  ((Entries.keys sections).filter fun name => !defaults.has name).map fun name =>
    ⟨[name], .unknownKey⟩

/-- Check a whole tree of options. -/
def checkAll (sections : Entries Value) : Checked Options :=
  let pagination := checkSection "pagination" "PaginationOptions" paginationDefaults
    checkPagination sections
  let sorting := checkSection "sorting" "SortingOptions" sortingDefaults checkSorting sections
  let searching := checkSection "searching" "SearchingOptions" searchingDefaults checkSearching
    sections
  let filtering := checkSection "filtering" "FilteringOptions" filteringDefaults checkFiltering
    sections
  let totals := checkSection "meta" "MetaOptions" totalsDefaults checkTotals sections
  ⟨⟨pagination.value, sorting.value, searching.value, filtering.value, totals.value⟩,
    pagination.faults ++ sorting.faults ++ searching.faults ++ filtering.faults ++
      totals.faults ++ unknownSections sections⟩

/-- The options that overrides ask for. -/
def resolve (overrides : Value) : Except Error Options :=
  match merge? overrides with
  | none => .error .notMapping
  | some sections =>
    let checked := checkAll sections
    if checked.faults.isEmpty then .ok checked.value else .error (.faulty checked.faults)

end TableApi.Options
