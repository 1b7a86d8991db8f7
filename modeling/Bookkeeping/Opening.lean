import Bookkeeping.Password.Hash
import Bookkeeping.Settings.Path
import Bookkeeping.Settings.Source
import Bookkeeping.Store.Schema

/-! # Opening a ledger

The settings say how a ledger is opened: under which path, with which cost of hashing, and whether
pending migrations are applied first.
-/

namespace Bookkeeping.Settings

open Store

/-- The time to wait for a lock, in milliseconds. -/
def patience (s : DatabaseSettings) : Except Failure Int :=
  let ms := s.timeout * 1000
  if Number.isFinite ms then .ok (Number.truncate ms) else .error (.misuse .overflow)

/-- A session on a database under given settings, at a given time. -/
def session (s : Settings) (database : Database) (now : String) : Session where
  database
  enforce := s.database.enforce
  scheme := Hash.scheme s.security.rounds
  now
  path := s.database.path

/-- What is done before a ledger is used. -/
def configure (s : Settings) (migrations : List Migration) : Op Unit := do
  let path := Value.text s.database.path
  if s.database.migrate then
    let _ ← migrateUp migrations path
  emit .info .opening "Container configured"
    [("db_path", path), ("environment", .text s.app.stage.text)]

/-- Opens a ledger in a directory. The folders around its file are made; the file of variables, if
it is there and holds anything, is no database. -/
def opening (s : Settings) (directory : String) (file : Option String)
    (migrations : List Migration) : Op Unit := do
  let home := Path.normal (Path.steps directory)
  let isFile (place : List String) : Bool := file.isSome && place == home ++ [fileName]
  let place ← Op.lift (Path.place directory s.database.path isFile)
  let readable : Except Failure Unit :=
    if isFile place && file != some "" then .error (.misuse .notDatabase) else .ok ()
  if s.database.migrate then Op.lift readable
  s.configure migrations
  let _ ← Op.lift (patience s.database)
  Op.lift readable

/-- The files in a directory after a ledger was opened there. -/
def filesAfter (s : Settings) (directory : String) (file : Option String) : List String :=
  let files := (file.map fun _ => fileName).toList
    ++ (Path.within? directory s.database.path).toList
  files.eraseDups.mergeSort fun a b => a ≤ b

end Bookkeeping.Settings
