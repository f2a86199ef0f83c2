import TableApi.Options.Resolve
import TableApi.Resource.Basic

/-! The registry: resources by name, in the order of their registration. A registration is checked
as a whole before the resource is taken in. -/

namespace TableApi

open TableApi.Text

/-- What is asked for when a resource is registered. A hook that is no function is absent. -/
structure Registration where
  name : Value
  model : Model
  options : Value
  permitted : Value
  indexFields : Value
  showFields : Value
  hooks : List (Value × Option Hook)
  collection? : Option Select

/-- Why a registration is refused. -/
inductive RegistryError where
  | invalidName (name : Value)
  | nameKind (kind : String)
  | unhashable (kind : String)
  | taken (name : String)
  | options (e : Options.Error)
  | unknownOptionFields (resource : String) (names : List String)
  | notSearchable (resource : String) (names : List String)
  | textForFields (list model : String)
  | notFieldList (kind : String)
  | fieldKind (position : Nat) (kind : String)
  | unknownFields (list model : String) (names : List String)
  | permittedKey (resource : String) (names : List String)
  | unknownHook (key : Value)
  | notCallable (point : HookPoint)
  deriving Repr

namespace RegistryError

def message : RegistryError → String
  | invalidName name => "invalid resource name: " ++ name.literal
  | nameKind kind => "argument of type '" ++ kind ++ "' is not iterable"
  | unhashable kind => "unhashable type: '" ++ kind ++ "'"
  | taken name => "resource already registered: " ++ name
  | options e => e.message
  | unknownOptionFields resource names =>
    "query options for " ++ resource ++ " reference unknown fields: " ++ joinWith ", " names
  | notSearchable resource names =>
    "searchable_fields for " ++ resource ++ " must be string columns: " ++ joinWith ", " names
  | textForFields list model => list ++ " for " ++ model ++ " must be a list of field names"
  | notFieldList kind => "'" ++ kind ++ "' object is not iterable"
  | fieldKind position kind =>
    "sequence item " ++ toString position ++ ": expected str instance, " ++ kind ++ " found"
  | unknownFields list model names =>
    list ++ " for " ++ model ++ " has unknown fields: " ++ joinWith ", " names
  | permittedKey resource names =>
    "permitted_fields for " ++ resource ++ " include primary key: " ++ joinWith ", " names
  | unknownHook key => "unknown lifecycle hook: " ++ key.literal
  | notCallable point => "lifecycle hook " ++ point.word ++ " is not callable"

end RegistryError

def sortedNames (names : List String) : List String :=
  names.eraseDups.mergeSort fun a b => !decide (b < a)

abbrev Registry : Type := List Resource

namespace Registry

def names (r : Registry) : List String := r.map Resource.name

def get? (r : Registry) (name : String) : Option Resource := r.find? (·.name == name)

/-- The items of a value that can be gone through. -/
def listed? : Value → Option (List Value)
  | .list items | .tuple items | .set items => some items
  | .map entries => some ((Entries.keys entries).map Value.text)
  | _ => none

/-- The texts among values. -/
def textsOf (items : List Value) : List String :=
  items.filterMap fun v => match v with
    | .text s => some s
    | _ => none

/-- Whether a value can be neither a key nor the item of a set. -/
def isUnhashable : Value → Bool
  | .list _ | .set _ | .map _ => true
  | _ => false

/-- A name that can stand in a path: not empty and without a slash. Names are texts; a tuple, which
would be taken as well, is none here. -/
def readName (name : Value) : Except RegistryError String :=
  match name with
  | .text s =>
    if s.isEmpty || s.toList.contains '/' then .error (.invalidName name) else .ok s
  | v =>
    if !v.isTruthy || (textsOf ((listed? v).getD [])).contains "/" then .error (.invalidName v)
    else if isUnhashable v then .error (.unhashable v.kindName)
    else .error (.nameKind v.kindName)

/-- A list of fields of a model; null is no list. -/
def readFields (list : String) (m : Model) (v : Value) :
    Except RegistryError (Option (List String)) :=
  match v with
  | .null => .ok none
  | .text _ => .error (.textForFields list m.name)
  | v =>
    match listed? v with
    | none => .error (.notFieldList v.kindName)
    | some items =>
      let unknown := sortedNames ((textsOf items).filter fun s => !m.fields.contains s)
      match items.find? isUnhashable, items.find? fun v => !(v matches .text _) with
      | some item, _ => .error (.unhashable item.kindName)
      | none, some item => .error (.fieldKind unknown.length item.kindName)
      | none, none =>
        if unknown.isEmpty then .ok (some (textsOf items))
        else .error (.unknownFields list m.name unknown)

/-- Put a hook at its point, in place of another one there. -/
def putHook (point : HookPoint) (hook : Hook) :
    List (HookPoint × Hook) → List (HookPoint × Hook)
  | [] => [(point, hook)]
  | (p, h) :: rest => if p = point then (p, hook) :: rest else (p, h) :: putHook point hook rest

/-- The hook table of a registration. -/
def readHooks (hooks : List (Value × Option Hook)) :
    Except RegistryError (List (HookPoint × Hook)) :=
  hooks.foldlM (fun acc (key, hook?) =>
    let point? := match key with
      | .text s => HookPoint.ofWord? s
      | _ => none
    match point?, hook? with
    | none, _ => .error (.unknownHook key)
    | some point, none => .error (.notCallable point)
    | some point, some hook => .ok (putHook point hook acc)) []

/-- Option fields must be fields of the model, and searched ones must hold texts. -/
def checkOptions (name : String) (m : Model) (o : Options) : Except RegistryError Unit :=
  let unknown := sortedNames (o.fieldNames.filter fun field => !m.fields.contains field)
  let notText := sortedNames (o.searching.fields.filter fun field =>
    (m.column? field).map Column.kind ≠ some .text)
  if !unknown.isEmpty then .error (.unknownOptionFields name unknown)
  else if !notText.isEmpty then .error (.notSearchable name notText)
  else .ok ()

/-- The fields that requests may write, which are none with the name of a key column. -/
def readPermitted (name : String) (m : Model) (v : Value) : Except RegistryError (List String) := do
  let permitted := ((← readFields "permitted_fields" m v).getD []).eraseDups
  let keys := sortedNames (permitted.filter fun field =>
    (m.primaryKey.map Column.name).contains field)
  if keys.isEmpty then pure permitted else throw (.permittedKey name keys)

/-- The resource that a registration describes under a name. -/
def define (name : String) (g : Registration) : Except RegistryError Resource := do
  let options ← (Options.resolve g.options).mapError .options
  checkOptions name g.model options
  let permitted ← readPermitted name g.model g.permitted
  let indexFields? ← readFields "index_fields" g.model g.indexFields
  let showFields? ← readFields "show_fields" g.model g.showFields
  let hooks ← readHooks g.hooks
  pure ⟨name, g.model, options, permitted, indexFields?, showFields?, hooks, g.collection?⟩

/-- Take in the resource of a registration. -/
def register (r : Registry) (g : Registration) : Except RegistryError (Registry × Resource) := do
  let name ← readName g.name
  if r.names.contains name then throw (.taken name)
  let resource ← define name g
  pure (r ++ [resource], resource)

end Registry

end TableApi
