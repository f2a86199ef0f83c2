import TableApi.Web.Message

/-! Sharing answers with pages of other origins. -/

namespace TableApi.Web

open TableApi.Text

def sharedMethods : List String := ["DELETE", "GET", "HEAD", "OPTIONS", "PATCH", "POST", "PUT"]

def credentials : Entries String := [("access-control-allow-credentials", "true")]

def allowOrigin (origins : List String) (origin : String) : Entries String :=
  if origins.contains origin then [("access-control-allow-origin", origin)] else []

/-- The answer to the question whether an origin may use a method. -/
def preflight (origins : List String) (origin method : String) : Response :=
  let failures := (if origins.contains origin then [] else ["origin"]) ++
    (if sharedMethods.contains method then [] else ["method"])
  let headers := credentials ++ allowOrigin origins origin
  if failures.isEmpty then (Response.plain 200 "OK").withHeaders headers
  else (Response.plain 400 ("Disallowed CORS " ++ joinWith ", " failures)).withHeaders headers

/-- The response to a question of an origin, when the request is one. -/
def preflight? (origins : List String) (r : Request) : Option Response :=
  match r.header? "origin", r.header? "access-control-request-method" with
  | some origin, some method =>
    if r.method = "OPTIONS" then some (preflight origins origin method) else none
  | _, _ => none

/-- The headers that a response gets for the origin of its request. -/
def sharingHeaders (origins : List String) (r : Request) : Entries String :=
  match r.header? "origin" with
  | some origin => credentials ++ allowOrigin origins origin
  | none => []

end TableApi.Web
