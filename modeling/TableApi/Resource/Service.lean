import TableApi.Listing.Compile
import TableApi.Record.Write
import TableApi.Resource.Address
import TableApi.Resource.Answer
import TableApi.Resource.Session

/-! The requests to a resource: listing, showing, creating, updating and destroying records. Every
write is done in a session of its own and ends with its commit. -/

namespace TableApi

open Transaction

namespace Resource

/-- The row at an address. -/
def find (r : Resource) (store : Store) (address : Value) : Except ServiceError Row := do
  let key ← (r.model.readKey address).mapError .refused
  match ← (store.find? r.model key).mapError .store with
  | some row => pure row
  | none => throw (.refused .noRecord)

/-- The rows of a page in plain form, and the total under its key. -/
def index (r : Resource) (params : Entries Value) (requested : Option String) (store : Store) :
    Except ServiceError (Entries Value) := do
  let listing ← (Listing.compile store r.options params r.base).mapError fun e => match e with
    | .build e => .build e
    | .store e => .store e
  let rows ← (listing.page.run store).mapError .store
  let shown : Entries Value :=
    [(r.options.totals.rowsKey, .list (rows.map fun row =>
      .map (r.answerRow .index requested row)))]
  match listing.total? with
  | some n => pure (Entries.put r.options.totals.totalKey (.int n) shown)
  | none => pure shown

/-- The record at an address. -/
def show_ (r : Resource) (address : Value) (requested : Option String) (store : Store) :
    Except ServiceError (Entries Value) := do
  let row ← r.find store address
  pure (r.answerRow .show_ requested row)

/-- The record as it is known after a change: with the time of the change where that is kept. -/
def stamped (m : Model) (written : List (Column × Value)) (record : Record) : Record :=
  written.foldl (fun acc (c, v) => Entries.put c.field v acc) (m.columns.map fun c =>
    (c.field, record.value c.field))

/-- What follows a flushed write: the hook behind it may change the row, which goes with a second
flush, and the row is committed and read again. -/
def settle (r : Resource) (point : HookPoint) (now : Calendar.Moment) (row : Row) (known : Record) :
    Transaction Row := do
  let (_, changed) ← callHook r point now known
  let row ← flush fun s => s.update now r.model row known changed
  commit
  refresh r.model row (stamped r.model (Store.changes now r.model known changed) changed)

/-- Create the record of a payload. -/
def creating (r : Resource) (now : Calendar.Moment) (payload : Value) :
    Transaction (Entries Value) := do
  let clean ← ofExcept ((r.sanitize payload false).mapError .ofPayload)
  let (goesOn, record) ← callHook r .beforeCreate now clean
  unless goesOn do throw (.refused .cancelled)
  let row ← guarded .violated do
    let supply ← draw now r.model record
    let row ← flush fun s => s.insert supply r.model record
    r.settle .afterCreate now row (Store.inserted supply r.model record row)
  pure (r.answerRow .write none row)

/-- Update the record at an address with a payload. -/
def updating (r : Resource) (now : Calendar.Moment) (address payload : Value) :
    Transaction (Entries Value) := do
  let row ← ofExcept (r.find (← get).working address)
  let clean ← ofExcept ((r.sanitize payload true).mapError .ofPayload)
  let before := Record.ofRow r.model row
  let (goesOn, record) ← callHook r .beforeUpdate now (Entries.putAll before clean)
  unless goesOn do
    rollback
    throw (.refused .cancelled)
  let row ← guarded .violated do
    let row ← flush fun s => s.update now r.model row before record
    r.settle .afterUpdate now row (stamped r.model (Store.changes now r.model before record) record)
  pure (r.answerRow .write none row)

/-- Destroy the record at an address. -/
def destroying (r : Resource) (address : Value) : Transaction Unit := do
  let row ← ofExcept (r.find (← get).working address)
  guarded .related do
    flush fun s => (s.delete r.model row).map (·, ())
    commit

/-! ### Requests -/

def create (r : Resource) (now : Calendar.Moment) (payload : Value) (state : State) :
    Outcome (Entries Value) :=
  Session.within state (r.creating now payload)

def update (r : Resource) (now : Calendar.Moment) (address payload : Value) (state : State) :
    Outcome (Entries Value) :=
  Session.within state (r.updating now address payload)

def destroy (r : Resource) (address : Value) (state : State) : Outcome Unit :=
  Session.within state (r.destroying address)

end Resource

end TableApi
