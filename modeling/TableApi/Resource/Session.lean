import TableApi.Listing.Compile
import TableApi.Record.Write
import TableApi.Resource.Basic
import TableApi.Resource.Payload

/-! Sessions: the rows that everyone sees, and beside them the rows as an open transaction has
them. What is written goes into the transaction, a commit shows it to everyone, and a session that
is closed drops what was not committed. -/

namespace TableApi

/-- Why a request fails. -/
inductive ServiceError where
  | refused (r : Refusal)
  | coercion (e : CoercionError)
  | build (e : BuildError)
  | store (e : StoreError)
  | hook (text : String)
  | lost (model : String)
  deriving Repr

namespace ServiceError

def ofPayload : PayloadError → ServiceError
  | .refused r => refused r
  | .coercion e => coercion e

/-- The text of a failure to read a row again, up to the address of its record in memory. -/
def lostText (model : String) : String := "Could not refresh instance '<" ++ model ++ " at 0x"

def isLost : ServiceError → Bool
  | lost _ => true
  | _ => false

/-- A rule of the tables that a hook finds broken counts as one that the store finds broken. -/
def ofHook : HookError → ServiceError
  | .violation text => store (.violation (.custom text))
  | .failure text => hook text

end ServiceError

/-- What lives on between requests: the rows, and the count of identifiers drawn so far. -/
structure State where
  store : Store
  drawn : Nat
  deriving Repr, Inhabited

/-- What comes of a request: its answer or the reason of its failure, the state behind it and the
hooks that were called. -/
structure Outcome (α : Type) where
  result : Except ServiceError α
  state : State
  calls : List HookCall

/-- A session: the committed rows, the rows of its transaction, the count of identifiers drawn and
the hooks called so far. -/
structure Session where
  committed : Store
  working : Store
  drawn : Nat
  calls : List HookCall

/-- What is done in a session. It gives a result or fails, and the session stays with what was done
until then. -/
abbrev Transaction (α : Type) : Type := ExceptT ServiceError (StateM Session) α

namespace Session

def start (s : State) : Session := ⟨s.store, s.store, s.drawn, []⟩

/-- What stays of a session: the committed rows and the identifiers that are used up. -/
def close (s : Session) : State := ⟨s.committed, s.drawn⟩

/-- Do something in a session of its own, which is closed in any case. -/
def within {α : Type} (state : State) (t : Transaction α) : Outcome α :=
  let (result, session) := t.run.run (start state)
  ⟨result, session.close, session.calls⟩

end Session

namespace Transaction

variable {α : Type}

def rollback : Transaction Unit := modify fun s => { s with working := s.committed }

def commit : Transaction Unit := modify fun s => { s with committed := s.working }

/-- Send a change to the store. One that the store refuses ends the transaction. -/
def flush (change : Store → Except StoreError (Store × α)) : Transaction α := do
  match change (← get).working with
  | .ok (store, a) =>
    modify fun s => { s with working := store }
    pure a
  | .error e =>
    rollback
    throw (.store e)

/-- What the defaults of a record draw from. -/
def draw (now : Calendar.Moment) (m : Model) (r : Record) : Transaction Supply := do
  let session ← get
  if r.draws m then set { session with drawn := session.drawn + 1 }
  pure ⟨now, session.drawn⟩

/-- Call the hook at a point, when there is one: whether the write goes on, and the record as the
hook leaves it. -/
def callHook (r : Resource) (point : HookPoint) (now : Calendar.Moment) (record : Record) :
    Transaction (Bool × Record) := do
  let input : HookInput := ⟨now, (← get).working, record⟩
  modify fun s => { s with calls := s.calls ++ r.callsAt point input }
  ofExcept ((r.runHook point input).mapError .ofHook)

/-- Do a write. When it breaks a rule of the tables it is rolled back and the request refused. -/
def guarded (refusal : Refusal) (t : Transaction α) : Transaction α :=
  tryCatch t fun e =>
    match e with
    | .store (.violation _) => do
      rollback
      throw (.refused refusal)
    | e => throw e

/-- The row as the store has it now, read by the key of its record. A key that does not name the row
finds nothing. Of keys that are loaded as one value each still names its own row. -/
def refresh (m : Model) (row : Row) (known : Record) : Transaction Row := do
  match ((← get).working.rows m).find? fun r => r.number == row.number && r.isNamedBy m known with
  | some found => pure found
  | none => throw (.lost m.name)

end Transaction

end TableApi
