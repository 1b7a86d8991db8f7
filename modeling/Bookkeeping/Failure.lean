import Bookkeeping.Record.Flaw
import Bookkeeping.Rejection

/-! # Failures

Everything that can go wrong in an operation. Rejections are the ledger's own answers; the other
failures come from a record that cannot be read, from the store, from the settings, or from an
argument of a kind that the operation has no use for.
-/

namespace Bookkeeping

/-- Misuse of an operation, which carries no message of the ledger's. -/
inductive Misuse where
  /-- A number is too large. -/
  | overflow
  /-- A value is of the wrong kind. -/
  | wrongType
  /-- A value does not have what is asked of it. -/
  | noAttribute
  /-- A row lacks a column. -/
  | noKey
  /-- A value cannot be stored or compared in the store. -/
  | notStorable
  /-- The store refuses a value in a place where only an integer may stand. -/
  | mismatch
  /-- A text is too long to be held. -/
  | outOfMemory
  /-- A script cannot be loaded by itself. -/
  | dependent
  /-- What a script builds on is not found. -/
  | missingPart
  /-- A path has a part that is too long. -/
  | pathTooLong
  /-- A file stands where a folder has to be made. -/
  | fileInTheWay
  /-- A path leads on from a file as if it were a folder. -/
  | notFolder
  /-- A file holds something else than a database. -/
  | notDatabase
  /-- A value is nested too deeply. -/
  | tooDeep
  /-- A text cannot be encoded. -/
  | notEncodable
  /-- A statement is not one alone, or has not as many places as it is given values. -/
  | badStatement
  deriving DecidableEq, Repr

/-- Why an operation failed. -/
inductive Failure where
  | rejected (r : Rejection)
  | malformed (title : String) (flaws : List Flaw)
  /-- The store has no such table or column. -/
  | operational (message : String)
  /-- A value has the right kind but no meaning. -/
  | badValue (message : String)
  /-- The operation was broken off from outside. -/
  | interrupted (message : String)
  | missingFile (message : String)
  | badSetting (message : String)
  | misuse (m : Misuse)

namespace Misuse

/-- The name of a misuse, as answers show it. -/
def text : Misuse → String
  | overflow => "OverflowError"
  | wrongType => "TypeError"
  | noAttribute => "AttributeError"
  | noKey => "KeyError"
  | notStorable => "ProgrammingError"
  | mismatch => "IntegrityError"
  | outOfMemory => "MemoryError"
  | dependent => "ImportError"
  | missingPart => "ModuleNotFoundError"
  | pathTooLong => "OSError"
  | fileInTheWay => "FileExistsError"
  | notFolder => "NotADirectoryError"
  | notDatabase => "DatabaseError"
  | tooDeep => "RecursionError"
  | notEncodable => "UnicodeEncodeError"
  | badStatement => "ProgrammingError"

end Misuse

namespace Failure

/-- The name of a failure's kind, as answers and log events show it. -/
def text : Failure → String
  | rejected r => r.kind.text
  | malformed _ _ => "ValidationError"
  | operational _ => "OperationalError"
  | badValue _ => "ValueError"
  | interrupted _ => "RuntimeError"
  | missingFile _ => "FileNotFoundError"
  | badSetting _ => "SettingsError"
  | misuse m => m.text

/-- What is said about a failure, if anything. -/
def message : Failure → String
  | rejected r => r.message
  | operational m => m
  | badValue m => m
  | interrupted m => m
  | missingFile m => m
  | badSetting m => m
  | malformed _ _ => ""
  | misuse _ => ""

end Failure

/-- A record that was read, or the failure of its kind. -/
def Reading.orFail {α : Type} (title : String) (r : Reading α) : Except Failure α :=
  match r with
  | Except.ok a => .ok a
  | Except.error fs => .error (.malformed title fs)

end Bookkeeping
