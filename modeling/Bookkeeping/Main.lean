import Bookkeeping.Command
import Bookkeeping.Opening
import Bookkeeping.Store.Archive

/-! # The program

The migration command as a program: it finds the database by the settings, reads it from its file,
runs the command and writes the database back.
-/

namespace Bookkeeping.Program

open Store

/-- The text of a file, none if it cannot be read. -/
def contents? (path : String) : IO (Option String) := do
  try
    return some (← IO.FS.readFile path)
  catch _ =>
    return none

/-- The variables in a block of text in which each ends with a zero. -/
def variablesOf (block : String) : Environment :=
  (block.toList.splitOn '\x00').filterMap fun cs =>
    let name := cs.takeWhile (· != '=')
    if name.isEmpty then none
    else some (String.ofList name, String.ofList (cs.drop (name.length + 1)))

/-- The variables of the running process. -/
def environment : IO Environment := do
  return ((← contents? "/proc/self/environ").map variablesOf).getD []

/-- The database in a file. A file that is not there, or is empty, holds an empty database. -/
def database (path : String) : IO (Option Database) := do
  match ← contents? path with
  | none => return some {}
  | some text => return if text == "" then some {} else Archive.read? text

/-- Makes the directory that a path leads into. -/
def prepare (path : String) : IO Unit := do
  let around := (Path.steps path).dropLast
  let directory := "/".intercalate around
  if directory != "" then IO.FS.createDirAll directory

/-- Says what went wrong. -/
def complain (kind message : String) : IO UInt32 := do
  IO.eprintln (kind ++ ": " ++ message)
  return 1

/-- Prints what a command gave. -/
def finish (result : Except Failure Command.Outcome) : IO UInt32 := do
  match result with
  | .ok outcome => do
    IO.print outcome.output
    return outcome.code.toUInt32
  | .error e => complain e.text e.message

/-- Runs the command on the database that the settings name. -/
def runOn (settings : Settings) (args : List String) : IO UInt32 := do
  let path := settings.database.path
  prepare path
  match ← database path with
  | none => complain "DatabaseError" "file is not a database"
  | some db =>
    let (result, after) := (Command.run Migration.all args).exec (settings.session db "")
    IO.FS.writeFile path (Archive.write after.database)
    finish result

/-- Runs the command. -/
def run (args : List String) : IO UInt32 := do
  if !Command.usesDatabase args then
    finish ((Command.run Migration.all args).exec (Settings.session {} {} "")).1
  else
    match Settings.load { env := ← environment, file := ← contents? ".env" } [] with
    | .ok settings => runOn settings args
    | .error e => complain e.text e.message

end Bookkeeping.Program

def main (args : List String) : IO UInt32 := Bookkeeping.Program.run args
