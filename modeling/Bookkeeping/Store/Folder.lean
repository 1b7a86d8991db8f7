import Bookkeeping.Store.Migration
import Bookkeeping.Text.Bytes

/-! # The folder of migrations

A migration can be loaded by the path of its script, seen from the folder that holds the migrations.
Other scripts lie in that folder and around it, which belong to the program itself. Most of them
build on each other and cannot be loaded alone; one that can be loaded is still no migration.
-/

namespace Bookkeeping.Store.Folder

/-- What a script is. -/
inductive Script where
  | migration
  /-- A part of the program that needs no other one. -/
  | independent
  /-- A part of the program that builds on other ones. -/
  | dependent
  deriving DecidableEq, Repr

/-- The folder of the program. -/
def program : String := "moneyledger"

/-- The folder that holds the migrations. -/
def home : List String := [program, "migrations"]

/-- The folders of the program besides its own. -/
def folders : List (List String) :=
  ["config", "migrations", "models", "repositories", "services", "utils"].map fun f => [program, f]

/-- The scripts that log, by the names of their loggers. -/
def logging : List (List String) :=
  [Log.Part.store, .operations, .users, .currencies, .categories, .sources, .entries, .migrations,
    .opening].map fun part => part.logger.splitOn "."

/-- The scripts around the migrations, and what they are. -/
def scripts (migrations : List Migration) : List (List String × Script) :=
  (migrations.map fun m => (home ++ [m.name], Script.migration))
    ++ (logging.map fun path => (path, .dependent))
    ++ (folders.map fun path => (path ++ ["__init__"], .dependent))
    ++ [([program, "__init__"], .independent), ([program, "exceptions"], .independent),
      ([program, "config", "settings"], .independent), ([program, "models", "base"], .independent)]

/-- The longest name of a file or folder, in bytes. -/
def longestName : Nat := 255

/-- The path that parts lead to from a folder, if every folder on the way is there. -/
def walk : List String → List String → Except Failure (Option (List String))
  | folder, [] => .ok (some folder)
  | folder, [file] =>
    if longestName < (Text.bytes file).length then .error (.misuse .pathTooLong)
    else .ok (some (folder ++ [file]))
  | folder, part :: rest =>
    if part == ".." then if folder.isEmpty then .ok none else walk folder.dropLast rest
    else if longestName < (Text.bytes part).length then .error (.misuse .pathTooLong)
    else
      let inner := folder ++ [part]
      if inner == [program] || folders.contains inner then walk inner rest else .ok none

/-- The parts of a path; a folder that is named as itself is left out. -/
def parts (path : String) : List String :=
  (path.splitOn "/").filter fun part => part != "" && part != "."

/-- The script of a path, as seen from the folder of the migrations. -/
def find? (migrations : List Migration) (path : String) : Except Failure (Option Script) := do
  let found ← if path.startsWith "/" then .ok none else walk home (parts (path ++ ".py"))
  .ok (found.bind fun found =>
    ((scripts migrations).find? fun (script, _) =>
      script.dropLast ++ [script.getLastD "" ++ ".py"] == found).map Prod.snd)

/-- Whether text comes before the last point of a path. What a script builds on is then looked for
there. -/
def hasStem (path : String) : Bool :=
  1 < ((path.toList.reverse.dropWhile (· != '.'))).length

/-- Loads the script that a value names; says whether it can be applied and taken back. -/
def load (migrations : List Migration) (name : Value) : Except Failure (Bool × Bool) := do
  match ← find? migrations name.display with
  | none => .error (.missingFile ("Migration " ++ name.display ++ " not found"))
  | some .migration => .ok (true, true)
  | some .independent => .ok (false, false)
  | some .dependent =>
    .error (.misuse (if hasStem name.display then .missingPart else .dependent))

end Bookkeeping.Store.Folder
