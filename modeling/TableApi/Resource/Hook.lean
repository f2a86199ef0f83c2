import TableApi.Calendar.Moment
import TableApi.Record.Basic

/-! Hooks: functions of a resource that see a record before and after it is written, may change it
and may stop the write. -/

namespace TableApi

/-- The points in the life of a record at which a hook may stand. -/
inductive HookPoint where
  | beforeCreate
  | afterCreate
  | beforeUpdate
  | afterUpdate
  deriving DecidableEq, Repr, Inhabited

namespace HookPoint

def all : List HookPoint := [beforeCreate, afterCreate, beforeUpdate, afterUpdate]

def word : HookPoint → String
  | beforeCreate => "before_create"
  | afterCreate => "after_create"
  | beforeUpdate => "before_update"
  | afterUpdate => "after_update"

def ofWord? (s : String) : Option HookPoint := all.find? (·.word == s)

end HookPoint

/-- What a hook sees: the time, the rows as they are then, and the record. -/
structure HookInput where
  now : Calendar.Moment
  store : Store
  record : Record

/-- How a hook fails: like a broken rule of the tables, or in a way of its own. -/
inductive HookError where
  | violation (text : String)
  | failure (text : String)
  deriving DecidableEq, Repr

/-- A hook gives an answer and the record as it leaves it, or fails. -/
abbrev Hook : Type := HookInput → Except HookError (Value × Record)

/-- A call of a hook: whose it is, where it stands and what it saw. -/
structure HookCall where
  resource : String
  point : HookPoint
  input : HookInput

end TableApi
