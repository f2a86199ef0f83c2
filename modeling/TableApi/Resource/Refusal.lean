import TableApi.Text.Blank

/-! Refusals: requests that are answered with an error of the client. -/

namespace TableApi

open TableApi.Text

inductive Refusal where
  | notObject
  | unknownFields (names : List String)
  | nullField (name : String)
  | invalidField (name : String)
  | nothingToUpdate
  | missingFields (names : List String)
  | compositeKey
  | noRecord
  | violated
  | related
  | cancelled
  deriving DecidableEq, Repr

namespace Refusal

def status : Refusal → Nat
  | noRecord => 404
  | cancelled => 422
  | _ => 400

def detail : Refusal → String
  | notObject => "Request body must be a JSON object"
  | unknownFields names => "Unknown fields: " ++ joinWith ", " names
  | nullField name => "Field \"" ++ name ++ "\" cannot be null"
  | invalidField name => "Invalid value for field \"" ++ name ++ "\""
  | nothingToUpdate => "No fields to update"
  | missingFields names => "Missing required fields: " ++ joinWith ", " names
  | compositeKey => "Only single-column primary keys are supported"
  | noRecord => "Record not found"
  | violated => "Data constraint violated"
  | related => "Record cannot be deleted because of related data"
  | cancelled => "Validation failed"

end Refusal

end TableApi
