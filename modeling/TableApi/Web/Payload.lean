import TableApi.Json.Reader
import TableApi.Web.Message

/-! The payload of a request: a JSON object in its body. -/

namespace TableApi.Web

open TableApi.Text

/-- One fault of a request, in the form in which the response lists it. -/
def fault (kind message : String) (place : List Value) (input : Value)
    (more : Entries Value) : Value :=
  .map ([("type", .text kind), ("loc", .list place), ("msg", .text message), ("input", input)] ++
    more)

def faulty (fault : Value) : Response := .json 422 (.map [("detail", .list [fault])])

def missingBody : Response := faulty (fault "missing" "Field required" [.text "body"] .null [])

def notObject (input : Value) : Response :=
  faulty (fault "dict_type" "Input should be a valid dictionary" [.text "body"] input [])

def notJson (e : Json.Error) : Response :=
  if e.problem = .longNumeral then .detail 400 "There was an error parsing the body"
  else faulty (fault "json_invalid" "JSON decode error" [.text "body", .int e.position] (.map [])
    [("ctx", .map [("error", .text e.problem.message)])])

def mediaType (s : String) : String :=
  foldCase (strip (String.ofList (s.toList.takeWhile (· ≠ ';'))))

/-- Whether a type of content is JSON; without a type it is taken for JSON. -/
def isJsonType (contentType : Option String) : Bool :=
  match contentType with
  | none | some "" => true
  | some s =>
    match splitAt '/' (mediaType s) with
    | ["application", kind] => kind == "json" || "+json".toList.isSuffixOf kind.toList
    | _ => false

/-- The body without a byte order mark. -/
def withoutMark (s : String) : String :=
  match s.toList with
  | c :: rest => if c.toNat = 0xFEFF then String.ofList rest else s
  | [] => s

/-- The payload of a request, or the response that says why there is none. -/
def readPayload (r : Request) : Except Response Value :=
  if r.body.isEmpty then .error missingBody
  else if isJsonType (r.header? "content-type") then
    match Json.read (withoutMark r.body) with
    | .error e => .error (notJson e)
    | .ok .null => .error missingBody
    | .ok (.map entries) => .ok (.map entries)
    | .ok v => .error (notObject v)
  else .error (notObject (.text r.body))

end TableApi.Web
