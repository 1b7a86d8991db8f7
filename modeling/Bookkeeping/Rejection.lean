import Bookkeeping.Text.Word
import Bookkeeping.Value

/-! # Rejections

A rejection is what the ledger answers to an operation that would break one of its rules: its kind,
a message, and the field and value at fault where there are some. The kinds form a small tree, in
which a missing or archived row is a special case of a reference that does not resolve.

The last part reads the messages of the storage engine, which names the columns of a constraint that
failed after a fixed phrase.
-/

namespace Bookkeeping

/-- The kinds of rejections. -/
inductive RejectionKind where
  | ledger
  | unique
  | foreignKey
  | notFound
  | archived
  | restrict
  | nullConstraint
  | check
  deriving DecidableEq, Repr

namespace RejectionKind

def all : List RejectionKind :=
  [ledger, unique, foreignKey, notFound, archived, restrict, nullConstraint, check]

/-- The name of a kind, as answers show it. -/
def text : RejectionKind → String
  | ledger => "LedgerError"
  | unique => "UniqueViolation"
  | foreignKey => "ForeignKeyViolation"
  | notFound => "NotFound"
  | archived => "ArchivedReference"
  | restrict => "RestrictViolation"
  | nullConstraint => "NullConstraintViolation"
  | check => "CheckViolation"

/-- The kind of a name. -/
def ofText? (s : String) : Option RejectionKind := all.find? fun k => k.text == s

/-- A kind and the more general ones it belongs to, the most general last. -/
def lineage : RejectionKind → List RejectionKind
  | ledger => [ledger]
  | notFound => [notFound, foreignKey, ledger]
  | archived => [archived, foreignKey, ledger]
  | k => [k, ledger]

end RejectionKind

/-- A rejected operation. -/
structure Rejection where
  kind : RejectionKind
  message : String
  field : Option String := none
  value : Value := .null

namespace Rejection

/-- A rejection as the fields of an answer. -/
def fields (r : Rejection) : List (String × Value) :=
  [("success", .bool false), ("type", .text r.kind.text), ("message", .text r.message),
    ("field", Value.ofText? r.field), ("value", r.value)]

/-! ## The ledger's own rules -/

/-- A required value is missing. -/
def required (field : String) : Rejection :=
  ⟨.nullConstraint, field ++ " is required", some field, .null⟩

/-- A value lies outside its domain. -/
def outside (field reason : String) (value : Value) : Rejection :=
  ⟨.check, field ++ " " ++ reason, some field, value⟩

/-- A value cannot be read as what its field holds. -/
def malformed (field : String) (value : Value) : Rejection :=
  ⟨.check, "Invalid " ++ field ++ " format", some field, value⟩

/-- A row does not exist or has another owner. -/
def notFound (field : String) (user id : Value) : Rejection :=
  ⟨.notFound, field ++ " " ++ id.display ++ " not found for user " ++ user.display, some field, id⟩

/-- A user does not exist. -/
def noUser (user : Value) : Rejection :=
  ⟨.notFound, "User " ++ user.display ++ " not found", some "user_id", user⟩

/-- A row is archived where an active one is needed. -/
def archivedReference (field : String) (id : Value) : Rejection :=
  ⟨.archived, field ++ " " ++ id.display ++ " is archived", some field, id⟩

/-- The user already has a row of that name. -/
def nameTaken (entity name : String) (user : Value) : Rejection :=
  ⟨.unique, entity ++ " '" ++ name ++ "' already exists for user " ++ user.display, some "name",
    .text name⟩

/-- The user name belongs to somebody else. -/
def usernameTaken (name : String) : Rejection :=
  ⟨.unique, "Username '" ++ name ++ "' already exists", some "username", .text name⟩

/-- Rows of other tables still refer to a row. -/
def stillReferenced (entity : String) (id : Value) (counts : List (String × Nat)) : Rejection :=
  let used := counts.filter fun (_, n) => n != 0
  let detail := ", ".intercalate (used.map fun (table, n) => toString n ++ " " ++ table)
  ⟨.restrict, entity ++ " " ++ id.display ++ " is still referenced by " ++ detail,
    some (entity ++ "_id"), id⟩

/-- A shift would take a balance out of the range of doubles. -/
def overflow (source delta : Value) : Rejection :=
  ⟨.check, "Balance of source " ++ source.display ++ " would overflow", some "amount", delta⟩

/-! ## Messages of the storage engine -/

/-- What stands before the columns of a constraint. -/
def constraintPhrase : List Char := "constraint failed: ".toList

/-- A character that may stand in a list of columns. -/
def isColumnChar (c : Char) : Bool := Text.isWord c || c == '.' || c == ',' || c == ' '

/-- The columns after the first phrase that is followed by any. -/
def failedColumns? : List Char → Option (List Char)
  | [] => none
  | c :: cs =>
    let columns := ((c :: cs).drop constraintPhrase.length).takeWhile isColumnChar
    if constraintPhrase.isPrefixOf (c :: cs) && !columns.isEmpty then some columns
    else failedColumns? cs

/-- The columns that a message names. -/
def columnsOf? (message : String) : Option String :=
  (failedColumns? message.toList).map fun cs => String.ofList (Text.cutEnds Text.isBlank cs)

/-- Whether a text starts with another one. -/
def startsWith (s start : String) : Bool := start.toList.isPrefixOf s.toList

/-- The rejection for a constraint that the storage engine found broken in a statement on a
table. -/
def ofConstraint (message table : String) (deleting : Bool) : Rejection :=
  let columns := columnsOf? message
  let named := columns.getD "None"
  if startsWith message "UNIQUE" then
    ⟨.unique, "Duplicate value in " ++ table ++ ": " ++ named, columns, .null⟩
  else if startsWith message "NOT NULL" then
    ⟨.nullConstraint, "Missing required value: " ++ named, columns, .null⟩
  else if startsWith message "CHECK" then ⟨.check, "Invalid value in " ++ table, columns, .null⟩
  else if startsWith message "FOREIGN KEY" then
    if deleting then ⟨.restrict, "Row in " ++ table ++ " is still referenced", none, .null⟩
    else ⟨.foreignKey, "Reference from " ++ table ++ " does not resolve", none, .null⟩
  else ⟨.ledger, "Integrity error in " ++ table ++ ": " ++ message, none, .null⟩

end Rejection

end Bookkeeping
