import TableApi.Number.Integer
import TableApi.Resource.Refusal
import TableApi.Schema.Model
import TableApi.Value.Literal

/-! Addresses of records: the key that the last part of a path denotes. -/

namespace TableApi

open TableApi.Number

/-- The value of the primary key that an address denotes. -/
def Model.readKey (m : Model) (address : Value) : Except Refusal Value :=
  match m.soleKey? with
  | none => .error .compositeKey
  | some c =>
    match c.kind with
    | .uuid =>
      match Uuid.read? address.plainText with
      | some u => .ok (.uuid u)
      | none => .error .noRecord
    | .integer =>
      match readInteger? address.plainText with
      | some n => .ok (.int n)
      | none => .error .noRecord
    | _ => .ok address

end TableApi
