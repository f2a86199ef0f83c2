import TableApi.Posts.Resource
import TableApi.Resource.Service
import TableApi.Settings
import TableApi.Web.Payload
import TableApi.Web.Query
import TableApi.Web.RequestTag
import TableApi.Web.Route
import TableApi.Web.Sharing

/-! The application: settings and resources, and the response to a request. Every response is
tagged and must not be kept, except that of a request that fails in an unforeseen way. -/

namespace TableApi.Web

open TableApi.Text

structure App where
  settings : Settings
  registry : Registry

def defaultRegistry : Except RegistryError Registry :=
  (Registry.register [] Posts.registration).map Prod.fst

/-- How a request fails in an unforeseen way. -/
inductive Failure where
  | service (e : ServiceError)
  | notCompliant
  deriving Repr

namespace Failure

def notCompliantMessage : String := "Out of range float values are not JSON compliant"

end Failure

/-- What comes of a request: its response, the failure behind it, the state after it and the hooks
that were called. -/
structure Exchange where
  response : Response
  failure? : Option Failure
  state : State
  calls : List HookCall

/-- The headers of every response: it must not be kept, and its type is what it says. -/
def noStore : Entries String := [
  ("cache-control", "no-store"), ("pragma", "no-cache"), ("expires", "0"),
  ("x-content-type-options", "nosniff")]

mutual

/-- Whether a value has a form in strict JSON, which has no infinities. -/
def isCompliant : Value → Bool
  | .float x => x.isFinite
  | .list items | .tuple items => areCompliant items
  | .map entries => entriesCompliant entries
  | _ => true

def areCompliant : List Value → Bool
  | [] => true
  | item :: rest => isCompliant item && areCompliant rest

def entriesCompliant : List (String × Value) → Bool
  | [] => true
  | (_, value) :: rest => isCompliant value && entriesCompliant rest

end

/-- What a route gives: a response or a failure. -/
abbrev Reply : Type := Except Failure Response

def reply (status : Nat) (v : Value) : Reply :=
  if isCompliant v then .ok (.json status v) else .error .notCompliant

/-- A refusal is a response; any other error is a failure. -/
def replyTo {α : Type} (answer : α → Reply) : Except ServiceError α → Reply
  | .ok a => answer a
  | .error (.refused r) => .ok (.detail r.status r.detail)
  | .error e => .error (.service e)

/-- The checked form of a response that may show parts of the request. -/
def compliant (r : Response) : Reply :=
  match r.body with
  | .json v => if isCompliant v then .ok r else .error .notCompliant
  | .text _ => .ok r

/-- A reply with the state and the calls behind it. -/
structure Handled where
  reply : Reply
  state : State
  calls : List HookCall

def handleWrite (status : Nat) (out : Outcome (Entries Value)) : Handled :=
  ⟨replyTo (fun entries => reply status (.map entries)) out.result, out.state, out.calls⟩

/-- The text of the parameter `fields` in the tree of a query. -/
def listedFields? (params : Entries Value) : Option String :=
  match Params.value params "fields" with
  | .text s => some s
  | _ => none

/-- Do what a route asks for. -/
def App.follow (app : App) (now : Calendar.Moment) (r : Request) (state : State) :
    Route → Handled
  | .landing =>
    ⟨reply 200 (.map [("service", .text app.settings.name),
      ("resources", .list (app.registry.names.map Value.text))]), state, []⟩
  | .health => ⟨reply 200 (.map [("status", .text "ok")]), state, []⟩
  | .index resource =>
    let params := Params.parse (readQuery r.query)
    ⟨replyTo (fun entries => reply 200 (.map entries))
      (resource.index params (listedFields? params) state.store), state, []⟩
  | .show_ resource address =>
    ⟨replyTo (fun entries => reply 200 (.map entries))
      (resource.show_ (.text address) (lastValue? (readQuery r.query) "fields") state.store),
      state, []⟩
  | .create resource =>
    match readPayload r with
    | .error response => ⟨compliant response, state, []⟩
    | .ok payload => handleWrite 201 (resource.create now payload state)
  | .update resource address =>
    match readPayload r with
    | .error response => ⟨compliant response, state, []⟩
    | .ok payload => handleWrite 200 (resource.update now (.text address) payload state)
  | .destroy resource address =>
    let out := resource.destroy (.text address) state
    ⟨replyTo (fun _ => .ok (.bare 204 [])) out.result, out.state, out.calls⟩

/-- The location of another path on the host of a request, with the request's query. -/
def locationOf (r : Request) (path : String) : String :=
  encodeLocation ("http://" ++ (r.header? "host").getD "testserver" ++ path ++
    (if r.query.isEmpty then "" else "?" ++ r.query))

/-- Find what a request asks for and do it. -/
def App.dispatch (app : App) (now : Calendar.Moment) (r : Request) (state : State) : Handled :=
  let path := percentDecode r.path
  match place? app.registry path with
  | some place =>
    match place.route? r.method with
    | some route => app.follow now r state route
    | none =>
      ⟨.ok ((Response.detail 405 "Method Not Allowed").withHeaders [("allow", "GET")]), state, []⟩
  | none =>
    match redirect? app.registry path with
    | some target => ⟨.ok (.bare 307 [("location", locationOf r target)]), state, []⟩
    | none => ⟨.ok (.detail 404 "Not Found"), state, []⟩

/-- The tag of a response: that of its request, or a fresh one. -/
def tagOf (r : Request) (fresh : String) : String :=
  (keptTag? (r.header? "x-request-id")).getD fresh

def finish (r : Request) (fresh : String) (response : Response) : Response :=
  response.withHeaders (noStore ++ [("x-request-id", tagOf r fresh)])

/-- Answer a request. -/
def App.handle (app : App) (now : Calendar.Moment) (fresh : String) (r : Request)
    (state : State) : Exchange :=
  let origins := app.settings.origins
  match preflight? origins r with
  | some response => ⟨finish r fresh response, none, state, []⟩
  | none =>
    let handled := app.dispatch now r state
    match handled.reply with
    | .ok response =>
      ⟨finish r fresh (response.withHeaders (sharingHeaders origins r)), none, handled.state,
        handled.calls⟩
    | .error failure =>
      ⟨.plain 500 "Internal Server Error", some failure, handled.state, handled.calls⟩

end TableApi.Web
