import TableApi.Resource.Registry
import TableApi.Web.Message

/-! Routes: what a path and a method ask for. -/

namespace TableApi.Web

open TableApi.Text

/-- The places that a path can name. -/
inductive Place where
  | landing
  | health
  | list (r : Resource)
  | item (r : Resource) (address : String)

/-- What a request asks for at a place. -/
inductive Route where
  | landing
  | health
  | index (r : Resource)
  | create (r : Resource)
  | show_ (r : Resource) (address : String)
  | update (r : Resource) (address : String)
  | destroy (r : Resource) (address : String)

def listPath (name : String) : String := "/api/" ++ name

/-- The last part of a path below the path of a resource. -/
def address? (name path : String) : Option String :=
  let front := (listPath name ++ "/").toList
  let cs := path.toList
  if front.isPrefixOf cs then
    let rest := cs.drop front.length
    if rest.isEmpty || rest.contains '/' then none else some (String.ofList rest)
  else none

/-- Whether a path is a certain one, a line break at its end aside. -/
def isPath (expected path : String) : Bool := path == expected || path == expected ++ "\n"

def placeIn? (r : Resource) (path : String) : Option Place :=
  if isPath (listPath r.name) path then some (.list r)
  else (address? r.name path).map (Place.item r)

/-- The place that a path names. -/
def place? (registry : Registry) (path : String) : Option Place :=
  match registry.findSome? fun r => placeIn? r path with
  | some place => some place
  | none =>
    if isPath "/" path then some .landing
    else if isPath "/health" path then some .health else none

/-- What a method asks for at a place. -/
def Place.route? (method : String) : Place → Option Route
  | landing => if method = "GET" then some .landing else none
  | health => if method = "GET" then some .health else none
  | list r =>
    if method = "GET" then some (.index r) else if method = "POST" then some (.create r) else none
  | item r address =>
    if method = "GET" then some (.show_ r address)
    else if method = "PATCH" ∨ method = "PUT" then some (.update r address)
    else if method = "DELETE" then some (.destroy r address)
    else none

def trimSlashes (path : String) : String :=
  String.ofList (path.toList.reverse.dropWhile (· = '/')).reverse

/-- The place without the slashes behind it, when a path has some. -/
def redirect? (registry : Registry) (path : String) : Option String :=
  if path ≠ "/" ∧ path.toList.getLast? = some '/' then
    let target := trimSlashes path
    if (place? registry target).isSome then some target else none
  else none

end TableApi.Web
