import TableApi.Text.Blank
import TableApi.Value

/-! Requests and responses. Names of headers are compared without regard to case. -/

namespace TableApi.Web

open TableApi.Text

/-- A request. Its query string and its body are raw texts. -/
structure Request where
  method : String
  path : String
  query : String
  headers : List (String × String)
  body : String
  deriving Repr

def Request.header? (r : Request) (name : String) : Option String :=
  (r.headers.find? fun h => foldCase h.1 == name).map Prod.snd

inductive Body where
  | json (v : Value)
  | text (s : String)
  deriving Repr, Inhabited

/-- A response, the names of its headers in lower case. -/
structure Response where
  status : Nat
  headers : Entries String
  body : Body
  deriving Repr, Inhabited

namespace Response

def json (status : Nat) (v : Value) : Response :=
  ⟨status, [("content-type", "application/json")], .json v⟩

def plain (status : Nat) (s : String) : Response :=
  ⟨status, [("content-type", "text/plain; charset=utf-8")], .text s⟩

def bare (status : Nat) (headers : Entries String) : Response := ⟨status, headers, .text ""⟩

def detail (status : Nat) (s : String) : Response := json status (.map [("detail", .text s)])

def withHeaders (r : Response) (headers : Entries String) : Response :=
  { r with headers := Entries.putAll r.headers headers }

end Response

end TableApi.Web
