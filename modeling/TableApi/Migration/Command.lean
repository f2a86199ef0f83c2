import TableApi.Migration.Revision
import TableApi.Number.Integer
import TableApi.Text.Quoted

/-! Commands on a database and its history: moving it to a revision, marking it, and writing the
script of a move. The database keeps the names of the revisions it is at. -/

namespace TableApi.Migration

open TableApi.Text TableApi.Number

/-- A database under migration, with the revisions it is at once it keeps them. -/
structure Managed where
  database : Database
  versions? : Option (List String)
  deriving Repr

namespace Managed

def fresh : Managed := ⟨[], none⟩

/-- Begin to keep revisions. -/
def keeping (m : Managed) : Managed := { m with versions? := some (m.versions?.getD []) }

/-- The count of revisions that a database has gone through. -/
def position (h : History) (m : Managed) : Nat :=
  match m.versions? with
  | some (id :: _) => ((h.findIdx? (·.id == id)).map (· + 1)).getD 0
  | _ => 0

/-- Mark a database as having gone through a count of revisions. -/
def marked (h : History) (m : Managed) (count : Nat) : Managed :=
  { m with versions? := some (if count = 0 then [] else [h.nameAt count]) }

def tableNames (m : Managed) : List String :=
  (if m.versions?.isSome then ["alembic_version"] else []) ++
    m.database.map fun t => t.definition.name

end Managed

/-- Why a command fails. -/
inductive CommandError where
  | noRevision (name : String)
  | relative (name : String) (count : Nat)
  | notBelow (name : String)
  | rangeRequired
  | database (e : DatabaseError)
  deriving Repr

def CommandError.message : CommandError → String
  | noRevision name => "Can't locate revision identified by " ++ quote name
  | relative name count =>
    "Relative revision " ++ name ++ " didn't produce " ++ toString count ++ " migrations"
  | notBelow name =>
    "Destination " ++ name ++ " is not a valid downgrade target from current head(s)"
  | rangeRequired => "downgrade with --sql requires <fromrev>:<torev>"
  | database e => e.message

/-- The count of revisions up to a named one; the beginning of a name is enough. -/
def named (h : History) (name : String) : Except CommandError Nat :=
  if name = "base" then .ok 0
  else if name = "head" ∨ name = "heads" then .ok h.length
  else
    match h.findIdx? (·.id == name) with
    | some n => .ok (n + 1)
    | none =>
      match h.findIdx? fun r => !name.isEmpty && name.toList.isPrefixOf r.id.toList with
      | some n => .ok (n + 1)
      | none => .error (.noRevision name)

/-- A number of steps with a sign. -/
def relative? (name : String) : Option Int :=
  match name.toList with
  | '+' :: _ | '-' :: _ => readPlainInteger? name
  | _ => none

/-- The target of a move from a count of revisions. -/
def target (h : History) (position : Nat) (name : String) : Except CommandError Nat :=
  match relative? name with
  | none => named h name
  | some steps =>
    let count := (position : Int) + steps
    if 0 ≤ count ∧ count ≤ h.length then .ok count.toNat
    else .error (.relative name steps.natAbs)

/-- Go through a list of statement lists, each followed by its mark. -/
def migrate (h : History) (m : Managed) :
    List (List Statement × Nat) → Managed × Option DatabaseError
  | [] => (m, none)
  | (statements, count) :: rest =>
    match m.database.applyAll statements with
    | (database, some e) => ({ m with database }, some e)
    | (database, none) => migrate h (Managed.marked h { m with database } count) rest

def stepsUp (h : History) (start goal : Nat) : List (List Statement × Nat) :=
  ((h.zipIdx.drop start).take (goal - start)).map fun (r, i) => (r.upgrade, i + 1)

def stepsDown (h : History) (start goal : Nat) : List (List Statement × Nat) :=
  ((h.zipIdx.drop goal).take (start - goal)).reverse.map fun (r, i) => (r.downgrade, i)

def upgrade (h : History) (m : Managed) (name : String) : Managed × Option CommandError :=
  let m := m.keeping
  match target h (m.position h) name with
  | .error e => (m, some e)
  | .ok goal =>
    let (m, e) := migrate h m (stepsUp h (m.position h) goal)
    (m, e.map .database)

def downgrade (h : History) (m : Managed) (name : String) : Managed × Option CommandError :=
  let m := m.keeping
  match target h (m.position h) name with
  | .error e => (m, some e)
  | .ok goal =>
    if m.position h < goal then (m, some (.notBelow name))
    else
      let (m, e) := migrate h m (stepsDown h (m.position h) goal)
      (m, e.map .database)

def stamp (h : History) (m : Managed) (name : String) : Managed × Option CommandError :=
  let m := m.keeping
  match named h name with
  | .error e => (m, some e)
  | .ok goal => (Managed.marked h m goal, none)

/-! ### Listings -/

def heads (h : History) : List String :=
  (h.getLast?.map fun r => h.label r.id).toList

def listing (h : History) : List String := h.reverse.map h.line

def current (h : History) (m : Managed) : List String := (m.versions?.getD []).map h.label

/-! ### Scripts -/

def versionTableLines : List String :=
  blockLines "CREATE TABLE alembic_version" [
    "version_num VARCHAR(32) NOT NULL",
    "CONSTRAINT alembic_version_pkc PRIMARY KEY (version_num)"]

def returning (d : Dialect) : String :=
  match d with
  | .sqlite => "version_num"
  | .postgresql => "alembic_version.version_num"

/-- The line that moves the mark of a database. -/
def markLine (h : History) (d : Dialect) (start goal : Nat) : String :=
  if start = 0 then
    "INSERT INTO alembic_version (version_num) VALUES ('" ++ h.nameAt goal ++ "') RETURNING " ++
      returning d ++ ";"
  else if goal = 0 then
    "DELETE FROM alembic_version WHERE alembic_version.version_num = '" ++ h.nameAt start ++ "';"
  else
    "UPDATE alembic_version SET version_num='" ++ h.nameAt goal ++
      "' WHERE alembic_version.version_num = '" ++ h.nameAt start ++ "';"

def announcement (h : History) (kind : String) (start goal : Nat) : String :=
  (Text.strip ("-- Running " ++ kind ++ " " ++ h.nameAt start ++ " -> " ++ h.nameAt goal))

/-- The lines of one step. -/
def stepLines (h : History) (d : Dialect) (kind : String) (start goal : Nat)
    (statements : List Statement) : List String :=
  [announcement h kind start goal] ++ statements.flatMap (Statement.lines d) ++
    [markLine h d start goal]

/-- A script inside a transaction, where the dialect has them for such statements. -/
def wrapped (d : Dialect) (lines : List String) : List String :=
  match d with
  | .sqlite => lines
  | .postgresql => ["BEGIN;"] ++ lines ++ ["COMMIT;"]

/-- The two ends of a range; without a colon it begins at the beginning. -/
def splitRange (range : String) : Option String × String :=
  match splitAt ':' range with
  | [start, goal] => (some start, goal)
  | _ => (none, range)

/-- The script of a move up. -/
def upgradeScript (h : History) (d : Dialect) (range : String) :
    Except CommandError (List String) := do
  let (start?, goal) := splitRange range
  let start ← named h (start?.getD "base")
  let goal ← target h start goal
  let steps := stepsUp h start goal
  pure (wrapped d ((if start = 0 ∧ !steps.isEmpty then versionTableLines else []) ++
    steps.flatMap fun (statements, count) =>
      stepLines h d "upgrade" (count - 1) count statements))

/-- The script of a move down, which needs both ends. -/
def downgradeScript (h : History) (d : Dialect) (range : String) :
    Except CommandError (List String) := do
  match splitRange range with
  | (none, _) => throw .rangeRequired
  | (some first, last) =>
    let start ← named h first
    let goal ← target h start last
    pure (wrapped d ((stepsDown h start goal).flatMap fun (statements, count) =>
      stepLines h d "downgrade" (count + 1) count statements))

/-- The script that marks a database. -/
def stampScript (h : History) (d : Dialect) (name : String) :
    Except CommandError (List String) := do
  let goal ← named h name
  pure (wrapped d (if goal = 0 then []
    else versionTableLines ++ stepLines h d "stamp_revision" 0 goal []))

end TableApi.Migration
