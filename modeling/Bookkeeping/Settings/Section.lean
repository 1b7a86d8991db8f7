import Bookkeeping.Failure
import Bookkeeping.Log.Event
import Bookkeeping.Record.Part

/-! # Sections of the settings

The settings have three sections: where the database is and how it is used, how passwords are
hashed, and how the ledger runs as an application. A section is read from named fields, of which
those that are not given come from the environment, each under its name with the section's prefix.
-/

namespace Bookkeeping

/-- Where the database is and how it is used. -/
structure DatabaseSettings where
  path : String := "ledger.db"
  /-- How many seconds to wait for a lock. -/
  timeout : Float := 30
  /-- Whether references must resolve. -/
  enforce : Bool := true
  /-- Whether pending migrations are applied at the start. -/
  migrate : Bool := true
  deriving DecidableEq

/-- How passwords are hashed. -/
structure SecuritySettings where
  rounds : Nat := 12
  deriving DecidableEq, Repr

/-- Where an application runs. -/
inductive Stage where
  | development
  | staging
  | production
  | testing
  deriving DecidableEq, Repr

namespace Stage

def all : List Stage := [development, staging, production, testing]

/-- The name of a stage. -/
def text : Stage → String
  | development => "development"
  | staging => "staging"
  | production => "production"
  | testing => "testing"

/-- The stage of a name. -/
def ofText? (s : String) : Option Stage := all.find? fun x => x.text == s

end Stage

/-- How the ledger runs as an application. -/
structure AppSettings where
  stage : Stage := .development
  level : Log.Level := .info
  json : Bool := false
  deriving DecidableEq, Repr

namespace Settings

/-! ## Parts -/

/-- What is said about a path that names no file. -/
def noFile : String := "Database path must name a file; in-memory databases are not supported"

/-- The path of a database, which must be kept in a file. -/
def path (v : Value) : Reading String :=
  match v.text? with
  | none => .fail .textType v
  | some s =>
    if Text.strip s == "" || Text.strip s == ":memory:" then .fail (.rule noFile) v else .ok s

/-- The number of rounds of hashing. -/
def rounds (v : Value) : Reading Nat :=
  (Part.int v).bind fun n =>
    if n < 4 then .fail (.below "4") v
    else if 15 < n then .fail (.above "15") v
    else .ok n.toNat

/-- A stage. -/
def stage (v : Value) : Reading Stage :=
  match v.text?.bind Stage.ofText? with
  | some x => .ok x
  | none => .fail (.choice (Stage.all.map Stage.text)) v

/-- The name of a level in settings. -/
def levelName (l : Log.Level) : String := Text.upper l.text

/-- What is said about a level that there is not. -/
def noLevel : String :=
  "Log level must be one of: "
    ++ (Value.list (Log.Level.all.map fun l => .text (levelName l))).literal

/-- A level by its name in any case. -/
def level (v : Value) : Reading Log.Level :=
  match v.text? with
  | none => .fail .textType v
  | some s =>
    match Log.Level.all.find? fun l => levelName l == Text.upper s with
    | some l => .ok l
    | none => .fail (.rule noLevel) v

/-- Flaws for the fields that are not among the known ones. -/
def nothingElse (known : List String) (fields : List (String × Value)) : Reading Unit :=
  let others := fields.filter fun (k, _) => !known.contains k
  if others.isEmpty then .ok ()
  else .flaws (others.map fun (k, v) => { cause := .extraField, path := [k], input := v })

end Settings

/-! ## Sections -/

/-- A section of the settings. -/
class Section (α : Type) where
  /-- The name of the section's kind. -/
  title : String
  /-- What stands before a field's name in the environment. -/
  start : String
  /-- The names of the fields. -/
  names : List String
  /-- Reads a section from named fields; fields of other names are flaws. -/
  read : List (String × Value) → Reading α
  /-- The fields of a section. -/
  fields : α → List (String × Value)

/-- The names of the fields of the database section. -/
def DatabaseSettings.names : List String :=
  ["path", "connection_timeout", "enable_foreign_keys", "auto_migrate"]

/-- The names of the fields of the security section. -/
def SecuritySettings.names : List String := ["bcrypt_rounds"]

/-- The names of the fields of the application section. -/
def AppSettings.names : List String := ["environment", "log_level", "log_json"]

instance : Section DatabaseSettings where
  title := "DatabaseConfig"
  start := "DB_"
  names := DatabaseSettings.names
  read fields :=
    (fun path timeout enforce migrate () => { path, timeout, enforce, migrate })
      <$> Part.withDefault fields "path" Settings.path "ledger.db"
      <*> Part.withDefault fields "connection_timeout" Part.aboveZero 30
      <*> Part.withDefault fields "enable_foreign_keys" Part.bool true
      <*> Part.withDefault fields "auto_migrate" Part.bool true
      <*> Settings.nothingElse DatabaseSettings.names fields
  fields s := [("path", .text s.path), ("connection_timeout", .float s.timeout),
    ("enable_foreign_keys", .bool s.enforce), ("auto_migrate", .bool s.migrate)]

instance : Section SecuritySettings where
  title := "SecurityConfig"
  start := "SECURITY_"
  names := SecuritySettings.names
  read fields :=
    (fun rounds () => { rounds })
      <$> Part.withDefault fields "bcrypt_rounds" Settings.rounds 12
      <*> Settings.nothingElse SecuritySettings.names fields
  fields s := [("bcrypt_rounds", .int s.rounds)]

instance : Section AppSettings where
  title := "AppConfig"
  start := "APP_"
  names := AppSettings.names
  read fields :=
    (fun stage level json () => { stage, level, json })
      <$> Part.withDefault fields "environment" Settings.stage .development
      <*> Part.withDefault fields "log_level" Settings.level .info
      <*> Part.withDefault fields "log_json" Part.bool false
      <*> Settings.nothingElse AppSettings.names fields
  fields s := [("environment", .text s.stage.text),
    ("log_level", .text (Settings.levelName s.level)),
    ("log_json", .bool s.json)]

end Bookkeeping
