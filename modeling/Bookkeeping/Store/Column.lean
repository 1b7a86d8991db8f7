import Bookkeeping.Store.Breach
import Bookkeeping.Store.Table

/-! # Columns

A column is a part of the data of a row as a cell: how it is read, and how a cell is stored in it. A
cell is converted to the type of its column first. One that cannot be converted is kept beside the
data, if no condition on the column forbids it.
-/

namespace Bookkeeping.Store

/-- What a statement gives, or the constraint that it would break. -/
abbrev Stored (α : Type) := Except Breach α

/-- A column of rows that hold `α`. -/
structure Column (α : Type) where
  name : String
  type : ColumnType
  /-- The cell of the column. -/
  get : α → Cell
  /-- The data with a converted cell in the column, or nothing if it has no room for the cell. -/
  put : Cell → α → Stored (Option α)

namespace Column

variable {α : Type}

/-- A column of integers. -/
def integer (table : TableName) (name : String) (get : α → Int) (put : Int → α → α) : Column α where
  name := name
  type := .integer
  get a := .integer (get a)
  put
    | .null, _ => .error (.empty table name)
    | .integer n, a => .ok (some (put n a))
    | _, _ => .ok none

/-- A column of integers that may be empty. -/
def optionalInteger (name : String) (get : α → Option Int) (put : Option Int → α → α) :
    Column α where
  name := name
  type := .integer
  get a := Cell.ofInt? (get a)
  put
    | .null, a => .ok (some (put none a))
    | .integer n, a => .ok (some (put (some n) a))
    | _, _ => .ok none

/-- A column of truth values. -/
def flag (table : TableName) (name : String) (get : α → Bool) (put : Bool → α → α) : Column α where
  name := name
  type := .integer
  get a := Cell.ofBool (get a)
  put
    | .null, _ => .error (.empty table name)
    | .integer 0, a => .ok (some (put false a))
    | .integer 1, a => .ok (some (put true a))
    | _, _ => .error (.domain (Breach.flagCondition name))

/-- A column of texts. -/
def text (table : TableName) (name : String) (get : α → String) (put : String → α → α) :
    Column α where
  name := name
  type := .text
  get a := .text (get a)
  put
    | .null, _ => .error (.empty table name)
    | .text s, a => .ok (some (put s a))
    | _, _ => .ok none

/-- A column of texts that may be empty. -/
def optionalText (name : String) (get : α → Option String) (put : Option String → α → α) :
    Column α where
  name := name
  type := .text
  get a := Cell.ofText? (get a)
  put
    | .null, a => .ok (some (put none a))
    | .text s, a => .ok (some (put (some s) a))
    | _, _ => .ok none

/-- A column of doubles. -/
def real (table : TableName) (name : String) (get : α → Float) (put : Float → α → α) :
    Column α where
  name := name
  type := .real
  get a := .real (get a)
  put
    | .null, _ => .error (.empty table name)
    | .real x, a => .ok (some (put x a))
    | _, _ => .ok none

/-- A column of doubles that may be empty. -/
def optionalReal (name : String) (get : α → Option Float) (put : Option Float → α → α) :
    Column α where
  name := name
  type := .real
  get a := Cell.ofFloat? (get a)
  put
    | .null, a => .ok (some (put none a))
    | .real x, a => .ok (some (put (some x) a))
    | _, _ => .ok none

/-- The column of entry types. -/
def kind (table : TableName) (name : String) (get : α → EntryType) (put : EntryType → α → α) :
    Column α where
  name := name
  type := .text
  get a := .text (get a).text
  put
    | .null, _ => .error (.empty table name)
    | .text s, a =>
      match EntryType.ofText? s with
      | some k => .ok (some (put k a))
      | none => .error (.domain Breach.kindCondition)
    | _, _ => .error (.domain Breach.kindCondition)

/-- The cell of a row in a column. -/
def read (c : Column α) (r : Row α) : Cell := r.cell c.name (c.get r.data)

/-- A row with a cell stored in a column. -/
def store (c : Column α) (cell : Cell) (r : Row α) : Stored (Row α) := do
  let cell := cell.convert c.type
  match ← c.put cell r.data with
  | some a => .ok (r.put c.name a)
  | none => .ok (r.keep c.name cell)

end Column

end Bookkeeping.Store
