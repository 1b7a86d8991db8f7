import Bookkeeping.Store.Cell

/-! # Tables

A table is a list of rows in the order of their ids, with the largest id that was ever given. A new
row takes the next id, so no id is given twice. The view of a table is its list of rows; every
operation is described by what it does to that list.
-/

namespace Bookkeeping.Store

/-- A row: data under an id. -/
structure Row (α : Type) where
  id : Int
  data : α
  /-- The cells that are not of the type of their columns, under the names of the columns. Such a
  cell stands in place of what the data has for its column. -/
  odd : List (String × Cell) := []
  deriving DecidableEq

namespace Row

variable {α : Type}

/-- The cell of a column whose usual cell is known. -/
def cell (r : Row α) (column : String) (usual : Cell) : Cell := (r.odd.lookup column).getD usual

/-- The odd cells of a row without that of a column. -/
def oddBut (r : Row α) (column : String) : List (String × Cell) :=
  r.odd.filter fun (name, _) => name != column

/-- A row with new data, which has the proper cell of a column. -/
def put (r : Row α) (column : String) (a : α) : Row α :=
  { r with data := a, odd := r.oddBut column }

/-- A row with an odd cell in a column. -/
def keep (r : Row α) (column : String) (c : Cell) : Row α :=
  { r with odd := (column, c) :: r.oddBut column }

@[simp] theorem cell_of_odd_nil (r : Row α) (h : r.odd = []) (column : String) (usual : Cell) :
    r.cell column usual = usual := by simp [cell, h]

end Row

/-- A table. -/
structure Table (α : Type) where
  rows : List (Row α) := []
  /-- The largest id given so far. -/
  lastId : Int := 0
  deriving DecidableEq

namespace Table

variable {α : Type}

/-- The row of an id. -/
def find? (t : Table α) (id : Int) : Option (Row α) := t.rows.find? fun r => r.id == id

/-- Whether there is a row of an id. -/
def contains (t : Table α) (id : Int) : Bool := t.rows.any fun r => r.id == id

/-- The largest id that was given or that a row has. -/
def largestId (t : Table α) : Int := t.rows.foldl (fun n r => max n r.id) t.lastId

/-- The id that the next row will have. -/
def nextId (t : Table α) : Int := t.largestId + 1

/-- Whether there is no id left for another row. -/
def isFull (t : Table α) : Bool := !fitsInteger t.nextId

/-- The table with one row more. -/
def insert (t : Table α) (a : α) : Table α :=
  { rows := t.rows ++ [{ id := t.nextId, data := a }], lastId := t.nextId }

/-- The table with the data of the selected rows changed. -/
def modify (t : Table α) (p : Row α → Bool) (f : α → α) : Table α :=
  { t with rows := t.rows.map fun r => if p r then { r with data := f r.data } else r }

/-- The table with the selected rows changed. -/
def change (t : Table α) (p : Row α → Bool) (f : Row α → Row α) : Table α :=
  { t with rows := t.rows.map fun r => if p r then f r else r }

/-- The table with another row in place of the one of an id. -/
def replace (t : Table α) (id : Int) (r : Row α) : Table α :=
  let rows := t.rows.map fun other => if other.id == id then r else other
  { t with rows := if r.id == id then rows else rows.mergeSort fun a b => a.id ≤ b.id }

/-- The table without the selected rows. -/
def erase (t : Table α) (p : Row α → Bool) : Table α :=
  { t with rows := t.rows.filter fun r => !p r }

/-- The number of selected rows. -/
def count (t : Table α) (p : Row α → Bool) : Nat := (t.rows.filter p).length

@[simp] theorem rows_insert (t : Table α) (a : α) :
    (t.insert a).rows = t.rows ++ [{ id := t.nextId, data := a }] := rfl

@[simp] theorem lastId_insert (t : Table α) (a : α) : (t.insert a).lastId = t.nextId := rfl

@[simp] theorem rows_modify (t : Table α) (p : Row α → Bool) (f : α → α) :
    (t.modify p f).rows = t.rows.map fun r => if p r then { r with data := f r.data } else r := rfl

@[simp] theorem lastId_modify (t : Table α) (p : Row α → Bool) (f : α → α) :
    (t.modify p f).lastId = t.lastId := rfl

@[simp] theorem rows_change (t : Table α) (p : Row α → Bool) (f : Row α → Row α) :
    (t.change p f).rows = t.rows.map fun r => if p r then f r else r := rfl

@[simp] theorem lastId_change (t : Table α) (p : Row α → Bool) (f : Row α → Row α) :
    (t.change p f).lastId = t.lastId := rfl

@[simp] theorem lastId_replace (t : Table α) (id : Int) (r : Row α) :
    (t.replace id r).lastId = t.lastId := rfl

@[simp] theorem rows_erase (t : Table α) (p : Row α → Bool) :
    (t.erase p).rows = t.rows.filter fun r => !p r := rfl

@[simp] theorem lastId_erase (t : Table α) (p : Row α → Bool) : (t.erase p).lastId = t.lastId := rfl

end Table

end Bookkeeping.Store
