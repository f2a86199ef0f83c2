import TableApi.Params.Key
import TableApi.Value.Literal

/-! The tree of request parameters. Every item with a bracketed key writes to one path of the tree:
a plain key replaces what is there, a key with an empty last segment appends to a list. -/

namespace TableApi.Params

/-- A key with its text. -/
structure Item where
  key : String
  value : String
  deriving DecidableEq, Repr

/-- The item of a key and a value of any kinds; null is the empty text. -/
def Item.ofValues (key value : Value) : Item :=
  ⟨key.plainText, if value.isNull then "" else value.plainText⟩

/-- The entries below a key, none when there is no mapping. -/
def below (entries : Entries Value) (key : String) : Entries Value :=
  match entries.get? key with
  | some (.map inner) => inner
  | _ => []

/-- Write at a path what `write` makes of the value there. Mappings are made on the way, in place
of anything else. -/
def writeAt (write : Option Value → Value) : (path : List String) → Entries Value → Entries Value
  | [], entries => entries
  | [key], entries => entries.put key (write (entries.get? key))
  | key :: rest, entries => entries.put key (.map (writeAt write rest (below entries key)))

/-- The list with one more text; anything else gives way to a new list. -/
def append (value : String) : Option Value → Value
  | some (.list items) => .list (items ++ [.text value])
  | _ => .list [.text value]

/-- Write one item; an item with a malformed key writes nothing. -/
def write (entries : Entries Value) (item : Item) : Entries Value :=
  match splitKey? item.key with
  | none => entries
  | some path =>
    if path.getLast? = some "" then writeAt (append item.value) path.dropLast entries
    else writeAt (fun _ => .text item.value) path entries

def parse (items : List Item) : Entries Value := items.foldl write []

/-- The parameters in a value; anything but a mapping has none. -/
def ofValue : Value → Entries Value
  | .map entries => entries
  | _ => []

/-- The value of a parameter, null when it is absent. -/
def value (params : Entries Value) (name : String) : Value := (params.get? name).getD .null

end TableApi.Params
