import TableApi.Options.Basic
import TableApi.Resource.Hook
import TableApi.Statement.Select

/-! Resources: a model with its listing options, the fields that requests may write and see, its
hooks and its collection. -/

namespace TableApi

structure Resource where
  name : String
  model : Model
  options : Options
  permitted : List String
  indexFields? : Option (List String)
  showFields? : Option (List String)
  hooks : List (HookPoint × Hook)
  collection? : Option Select

namespace Resource

/-- The statement that listings start from. -/
def base (r : Resource) : Select := r.collection?.getD (Select.all r.model)

def hook? (r : Resource) (point : HookPoint) : Option Hook := r.hooks.lookup point

/-- The calls that running the hook at a point makes: one, when there is a hook. -/
def callsAt (r : Resource) (point : HookPoint) (input : HookInput) : List HookCall :=
  match r.hook? point with
  | none => []
  | some _ => [⟨r.name, point, input⟩]

/-- Run the hook at a point: whether the write goes on, which only the answer false prevents, and
the record as the hook leaves it. -/
def runHook (r : Resource) (point : HookPoint) (input : HookInput) :
    Except HookError (Bool × Record) :=
  match r.hook? point with
  | none => .ok (true, input.record)
  | some hook => (hook input).map fun (answer, record) => (!(answer matches .bool false), record)

end Resource

end TableApi
