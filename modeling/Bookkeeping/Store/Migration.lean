import Bookkeeping.Store.Session

/-! # Migrations

A migration is a named pair of scripts that take the layout of a database one step forward and one
step back. Migrations are applied in the order of their list, each as one unit: if a script fails,
the database is what it was before that migration, and those before it stay applied. The database
keeps the names of the applied migrations, the oldest first.
-/

namespace Bookkeeping.Store

/-- A database that is worked on outside of any session, in a transaction. -/
structure Work where
  database : Database
  /-- What undoing the transaction leads back to, if it is there still. The engine may have undone it
  by itself; what is written after that stays. -/
  before : Option Database

namespace Work

/-- A database with a transaction that has just begun. -/
def on (db : Database) : Work := ⟨db, some db⟩

/-- The database that is left once the transaction is undone, if it is there still. -/
def undone (w : Work) : Database := w.before.getD w.database

/-- The engine undoes the transaction by itself. -/
def abandon (w : Work) : Work := ⟨w.undone, none⟩

end Work

/-- Work on a database. It may fail midway, having changed something. -/
abbrev Script : Type := ExceptT Failure (StateM Work) Unit

namespace Script

/-- Runs a script. -/
def exec (script : Script) (w : Work) : Except Failure Unit × Work := script.run.run w

/-- The script that changes the database. -/
def change (f : Database → Database) : Script := modify fun w => { w with database := f w.database }

/-- The script of a statement that fails in such a way that the engine undoes the transaction. -/
def giveUp (e : Failure) : Script := do
  modify Work.abandon
  throw e

end Script

/-- One step of a database's layout. -/
structure Migration where
  name : String
  upgrade : Script
  downgrade : Script

namespace Migration

/-- The migration that fails in both directions, but only after its work is done. -/
def breakingOff (m : Migration) (e : Failure) : Migration where
  name := m.name
  upgrade := do
    m.upgrade
    throw e
  downgrade := do
    m.downgrade
    throw e

/-- A migration with its name put into the history. -/
def applied (m : Migration) : Script := do
  m.upgrade
  Script.change fun db => { db with history := db.history ++ [m.name] }

/-- A migration taken back, with its name taken out of the history. -/
def reverted (m : Migration) : Script := do
  m.downgrade
  Script.change fun db => { db with history := db.history.filter (· != m.name) }

/-- The migration of a name. -/
def ofName? (migrations : List Migration) (name : String) : Option Migration :=
  migrations.find? fun m => m.name == name

/-- The migration that a value names. -/
def named (migrations : List Migration) (name : Value) : Except Failure Migration :=
  match name.text?.bind (ofName? migrations) with
  | some m => .ok m
  | none => .error (.missingFile ("Migration " ++ name.display ++ " not found"))

/-- The migrations whose names are not among the given ones. -/
def pending (migrations : List Migration) (history : List String) : List Migration :=
  migrations.filter fun m => !history.contains m.name

end Migration

/-- The database after a script ran as one unit: its transaction is committed if the script succeeds
and undone if it fails. Where the engine has undone the transaction before, there is none to end, and
that is what the unit fails with. -/
def Database.settle (db : Database) (script : Script) : Except Failure Unit × Database :=
  match script.exec (.on db) with
  | (r, ⟨after, none⟩) =>
    let ending := if r.isOk then "commit" else "rollback"
    (.error (.operational ("cannot " ++ ending ++ " - no transaction is active")), after)
  | (.ok (), ⟨after, some _⟩) => (.ok (), after)
  | (.error e, ⟨_, some before⟩) => (.error e, before)

/-! ## Running migrations -/

/-- Runs a script on the database of a session as one unit. A transaction of the session that is open
keeps everyone else from writing. -/
def alter (script : Script) : Op Unit :=
  Op.of fun s =>
    if s.isOpen then (.error (.operational "database is locked"), s)
    else
      let (r, database) := s.database.settle script
      (r, { s with database })

/-- The names of the applied migrations. Asking for them makes the table that keeps them. -/
def history : Op (List String) := do
  let db := (← get).database
  if !db.layout.history then
    alter (Script.change fun db => { db with layout := { db.layout with history := true } })
  pure db.history

/-- Logs an event about a migration. -/
def report (level : Log.Level) (event : String) (m : Migration)
    (fields : List (String × Value) := []) : Op Unit :=
  emit level .migrations event (("migration", .text m.name) :: fields)

/-- Applies one migration and logs how it went. -/
def migrate (m : Migration) : Op Unit := do
  tryCatch (alter m.applied) fun e => do
    report .error "Migration failed" m [("error_type", .text e.text), ("error", .text e.message)]
    throw e
  report .info "Migration applied" m

/-- Applies migrations one after the other, up to the first that fails. -/
def migrateEach : List Migration → Op Unit
  | [] => pure ()
  | m :: rest => do
    migrate m
    migrateEach rest

/-- Applies all pending migrations and gives their names. The database is known to the log under
`path`. -/
def migrateUp (migrations : List Migration) (path : Value) : Op (List String) := do
  let pending := Migration.pending migrations (← history)
  if pending.isEmpty then
    emit .debug .migrations "No pending migrations" [("db_path", path)]
  migrateEach pending
  pure (pending.map Migration.name)

/-- The name of the migration to take back: the given one, which must be applied, or the last. -/
def target (history : List String) (name : Value) : Except Failure (Option String) :=
  match history.getLast? with
  | none => .ok none
  | some last =>
    if name.isNull then .ok (some last)
    else
      match name.text?.filter history.contains with
      | some s => .ok (some s)
      | none => .error (.badValue ("Migration " ++ name.display ++ " is not applied"))

/-- Takes one applied migration back, the last one if none is named, and gives its name. -/
def migrateDown (migrations : List Migration) (name : Value := .null) : Op (Option String) := do
  match ← Op.lift (target (← history) name) with
  | none => pure none
  | some name => do
    let m ← Op.lift (Migration.named migrations (.text name))
    alter m.reverted
    report .info "Migration rolled back" m
    pure (some name)

/-- Every migration with whether it is applied. -/
def migrationStatus (migrations : List Migration) : Op (List (String × Bool)) := do
  let applied ← history
  pure (migrations.map fun m => (m.name, applied.contains m.name))

end Bookkeeping.Store
