import Bookkeeping.Failure
import Bookkeeping.Json.Reader

/-! # Paths

A path is a text of steps between slashes. It is made absolute without looking at any file: empty
steps and single dots do nothing, and two dots take the step before them back. The folders around a
file are made before the file is opened; that may fail where a file is in the way.
-/

namespace Bookkeeping.Path

/-- The steps of a path. -/
def steps (path : String) : List String :=
  (path.toList.splitOn '/').map String.ofList

/-- Whether a path starts at the root. -/
def isRooted (path : String) : Bool := path.toList.head? == some '/'

/-- Goes one step from a place, whose steps are given from the last one on. -/
def go (place : List String) (step : String) : List String :=
  if step == "" || step == "." then place
  else if step == ".." then place.drop 1
  else step :: place

/-- The steps that are left of a path. -/
def normal (steps : List String) : List String := (steps.foldl go []).reverse

/-- A path seen from a directory. -/
def absolute (directory path : String) : String :=
  let all := if isRooted path then steps path else steps directory ++ steps path
  let start := if isRooted path || isRooted directory then "/" else ""
  start ++ "/".intercalate (normal all)

/-- The part of a path within a directory, if it leads there. -/
def within? (directory path : String) : Option String :=
  let start := directory.toList ++ ['/']
  let all := (absolute directory path).toList
  if start.isPrefixOf all then some (String.ofList (all.drop start.length)) else none

/-- A path that the system accepts. -/
def check (path : String) : Except Failure Unit :=
  if path.contains '\x00' then .error (.badValue "embedded null byte")
  else if path.toList.any Json.isLoneHalf then .error (.misuse .notEncodable)
  else .ok ()

/-! ## Making folders -/

/-- The longest name of a file or folder, in bytes. -/
def longestName : Nat := 255

/-- What the name of a database must leave free for the names of its helpers. -/
def reserve : Nat := 8

/-- The folders that are there after those on the way have been made, going from a place by steps
that all do something. A file is in the way of the last one, and is no folder before. -/
def makeFolders (isFile : List String → Bool) :
    List String → List String → Except Failure (List (List String))
  | place, [] => .ok [place]
  | place, step :: rest =>
    if step == ".." then do .ok (place :: (← makeFolders isFile place.dropLast rest))
    else
      let inner := place ++ [step]
      if isFile inner then
        .error (.misuse (if rest.isEmpty then .fileInTheWay else .notFolder))
      else if longestName < (Text.bytes step).length then .error (.misuse .pathTooLong)
      else do .ok (place :: (← makeFolders isFile inner rest))

/-- The steps of a path without those that do nothing. -/
def properSteps (path : String) : List String :=
  (steps path).filter fun step => step != "" && step != "."

/-- What is said about a path that cannot be opened. -/
def cannotOpen : Failure := .operational "unable to open database file"

/-- The place of the file of a path after the folders around it have been made. -/
def place (directory path : String) (isFile : List String → Bool) :
    Except Failure (List String) := do
  check path
  let home := normal (steps directory)
  let start := if isRooted path then [] else home
  let folders ← makeFolders isFile start (properSteps path).dropLast
  let file := normal (steps (absolute directory path))
  if file.isPrefixOf home || folders.any file.isPrefixOf
      || longestName < (Text.bytes (file.getLastD "")).length + reserve then
    .error cannotOpen
  else .ok file

end Bookkeeping.Path
