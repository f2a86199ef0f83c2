import TableApi.Entries
import TableApi.Number.Double
import TableApi.Text.Blank
import TableApi.Value

/-! Settings of the application, with a default for everything that is not given. -/

namespace TableApi

open TableApi.Text

structure Settings where
  environment : String
  name : String
  databaseUrl : String
  echo : Bool
  corsOrigins : String
  logLevel : String
  deriving DecidableEq, Repr

namespace Settings

/-- Why the value of a setting is refused. -/
inductive Problem where
  | notText
  | notBool
  | notBoolWord
  deriving DecidableEq, Repr

def Problem.code : Problem → String
  | notText => "string_type"
  | notBool => "bool_type"
  | notBoolWord => "bool_parsing"

/-- The name of a setting and what is wrong with its value. -/
structure Fault where
  name : String
  problem : Problem
  deriving DecidableEq, Repr

def default : Settings where
  environment := "local"
  name := "crudkit"
  databaseUrl := "sqlite+pysqlite:///./crudkit.db"
  echo := false
  corsOrigins := "http://localhost:3000,http://localhost:8081"
  logLevel := "INFO"

def readText : Value → Except Problem String
  | .text s => .ok s
  | _ => .error .notText

def trueWords : List String := ["1", "on", "t", "true", "y", "yes"]

def falseWords : List String := ["0", "off", "f", "false", "n", "no"]

def ofInteger (n : Int) : Except Problem Bool :=
  if n = 0 then .ok false else if n = 1 then .ok true else .error .notBoolWord

def readBool : Value → Except Problem Bool
  | .bool b => .ok b
  | .int n => ofInteger n
  | .float x =>
    match x.toInt? with
    | some n => ofInteger n
    | none => .error .notBool
  | .text s =>
    if trueWords.contains (foldCase s) then .ok true
    else if falseWords.contains (foldCase s) then .ok false
    else .error .notBoolWord
  | _ => .error .notBool

/-- The value of one setting, its default when it is not given. -/
def setting {α : Type} (read : Value → Except Problem α) (fallback : α) (given : Entries Value)
    (name : String) : α × List Fault :=
  match given.get? name with
  | none => (fallback, [])
  | some v =>
    match read v with
    | .ok a => (a, [])
    | .error problem => (fallback, [⟨name, problem⟩])

/-- The settings of given values; names that are no settings are ignored. -/
def ofValues (given : Entries Value) : Except (List Fault) Settings :=
  let environment := setting readText default.environment given "APP_ENV"
  let name := setting readText default.name given "APP_NAME"
  let databaseUrl := setting readText default.databaseUrl given "DATABASE_URL"
  let echo := setting readBool default.echo given "SQL_ECHO"
  let corsOrigins := setting readText default.corsOrigins given "CORS_ORIGINS"
  let logLevel := setting readText default.logLevel given "LOG_LEVEL"
  let faults := environment.2 ++ name.2 ++ databaseUrl.2 ++ echo.2 ++ corsOrigins.2 ++ logLevel.2
  if faults.isEmpty then
    .ok ⟨environment.1, name.1, databaseUrl.1, echo.1, corsOrigins.1, logLevel.1⟩
  else .error faults

def origins (s : Settings) : List String := commaParts s.corsOrigins

def databaseIsSqlite (s : Settings) : Bool := "sqlite".toList.isPrefixOf s.databaseUrl.toList

end Settings

end TableApi
