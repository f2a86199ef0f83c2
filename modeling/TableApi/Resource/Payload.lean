import TableApi.Coercion
import TableApi.Record.Basic
import TableApi.Resource.Refusal
import TableApi.Resource.Registry

/-! The check of a payload: which fields it may have, and that their values fit the columns. -/

namespace TableApi

/-- Why a payload is not accepted. -/
inductive PayloadError where
  | refused (r : Refusal)
  | coercion (e : CoercionError)
  deriving DecidableEq, Repr

namespace Resource

/-- The value of one field, coerced to its column. Null stands where the column allows it. -/
def cleanValue (c : Column) (v : Value) : Except PayloadError Value :=
  match v with
  | .null => if c.nullable then .ok .null else .error (.refused (.nullField c.field))
  | v =>
    match coerce c.kind v with
    | .error e => .error (.coercion e)
    | .ok coerced =>
      if Coercion.accepts c.kind coerced then .ok coerced
      else .error (.refused (.invalidField c.field))

/-- The values of all fields, in the order of the payload. -/
def cleanAll (m : Model) : Entries Value → Except PayloadError Record
  | [] => .ok []
  | (field, v) :: rest =>
    match m.column? field with
    | none => .error (.refused (.unknownFields [field]))
    | some c => do
      let cleaned ← cleanValue c v
      let others ← cleanAll m rest
      pure ((field, cleaned) :: others)

/-- The fields that a new record needs and a payload does not name. -/
def missingFields (r : Resource) (payload : Entries Value) : List String :=
  sortedNames (r.permitted.filter fun field =>
    match r.model.column? field with
    | some c => !c.mayBeOmitted && !payload.has field
    | none => false)

/-- The record of a payload, when it is an object of permitted fields with fitting values that
names every required field, or at least one in an update. -/
def sanitize (r : Resource) (payload : Value) (isUpdate : Bool) : Except PayloadError Record :=
  match payload with
  | .map entries =>
    let unknown := sortedNames ((Entries.keys entries).filter fun k => !r.permitted.contains k)
    if unknown.isEmpty then do
      let cleaned ← cleanAll r.model entries
      if isUpdate then
        if cleaned.isEmpty then throw (.refused .nothingToUpdate) else pure cleaned
      else
        let missing := r.missingFields entries
        if missing.isEmpty then pure cleaned else throw (.refused (.missingFields missing))
    else .error (.refused (.unknownFields unknown))
  | _ => .error (.refused .notObject)

end Resource

end TableApi
