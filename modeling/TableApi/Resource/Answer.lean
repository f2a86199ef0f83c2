import TableApi.Resource.Basic
import TableApi.Text.Blank
import TableApi.Value.Literal
import TableApi.Value.Plain

/-! Answers: the fields of a record that a request gets to see, in plain form. -/

namespace TableApi

/-- What a record is shown for. -/
inductive Action where
  | index
  | show_
  | write
  deriving DecidableEq, Repr, Inhabited

namespace Resource

/-- The fields that an action shows, all of them when there is no list. -/
def fieldsFor (r : Resource) : Action → Option (List String)
  | .index => r.indexFields?
  | .show_ => r.showFields?
  | .write => none

/-- The fields that a request asks for, when it does; blank is not asking. -/
def requestedFields? (requested : Option String) : Option (List String) :=
  match requested with
  | none => none
  | some s => if (Text.strip s).isEmpty then none else some (Text.commaParts s)

/-- The fields of an answer: a request can only leave out fields that the action shows. -/
def shownFields? (r : Resource) (action : Action) (requested : Option String) :
    Option (List String) :=
  match requestedFields? requested, r.fieldsFor action with
  | none, fields => fields
  | some wanted, none => some wanted
  | some wanted, some fields => some (wanted.filter fields.contains)

/-- All fields of a record in plain form, in the order of the model. -/
def plainFields (m : Model) (record : Record) : Entries Value :=
  m.fields.map fun field => (field, (record.value field).plain)

def selectFields (fields? : Option (List String)) (answer : Entries Value) : Entries Value :=
  match fields? with
  | none => answer
  | some fields => answer.filter fun entry => fields.contains entry.1

def answer (r : Resource) (action : Action) (requested : Option String) (record : Record) :
    Entries Value :=
  selectFields (r.shownFields? action requested) (plainFields r.model record)

def answerRow (r : Resource) (action : Action) (requested : Option String) (row : Row) :
    Entries Value :=
  r.answer action requested (Record.ofRow r.model row)

end Resource

end TableApi
