import Bookkeeping.Failure

/-! # Breaches of constraints

The storage engine refuses a statement that would break a constraint and says which: a column that
must not be empty, a domain, a key that must be unique, a reference that must resolve, or an id that
is no integer.
-/

namespace Bookkeeping.Store

/-- The tables of a ledger. -/
inductive TableName where
  | users
  | currencies
  | categories
  | sources
  | entries
  deriving DecidableEq, Repr

namespace TableName

def all : List TableName := [users, currencies, categories, sources, entries]

def text : TableName → String
  | users => "users"
  | currencies => "currencies"
  | categories => "categories"
  | sources => "sources"
  | entries => "entries"

end TableName

/-- A constraint that a statement would break. -/
inductive Breach where
  | empty (table : TableName) (column : String)
  | domain (condition : String)
  | duplicate (columns : String)
  | reference
  /-- An id is no integer. -/
  | mismatch
  deriving DecidableEq, Repr

namespace Breach

/-- What the storage engine says about a breach. -/
def message : Breach → String
  | empty table column => "NOT NULL constraint failed: " ++ table.text ++ "." ++ column
  | domain condition => "CHECK constraint failed: " ++ condition
  | duplicate columns => "UNIQUE constraint failed: " ++ columns
  | reference => "FOREIGN KEY constraint failed"
  | mismatch => "datatype mismatch"

/-- The rejection of a statement on a table. -/
def rejection (b : Breach) (table : TableName) (deleting : Bool) : Rejection :=
  Rejection.ofConstraint b.message table.text deleting

/-- The condition that a truth value in a column is 0 or 1. -/
def flagCondition (column : String) : String := column ++ " IN (0, 1)"

/-- The condition that a column holds an entry type. -/
def kindCondition : String :=
  "entry_type IN (" ++ ", ".intercalate (EntryType.all.map fun k => "'" ++ k.text ++ "'") ++ ")"

end Breach

end Bookkeeping.Store
