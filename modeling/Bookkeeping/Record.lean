import Bookkeeping.Attribute
import Bookkeeping.Record.Part

/-! # Records

A record is typed data with an optional id, which the store gives it. Every kind of record is read
from named fields, and shows its fields again. Reading what a record shows gives the record back, so
a single field is assigned by reading the record anew.
-/

namespace Bookkeeping

/-- Data with the id that the store gave it, if it did. -/
structure Item (α : Type) where
  id : Option Int := none
  data : α

/-- A kind of record. -/
class Record (α : Type) where
  /-- The name of the kind. -/
  title : String
  /-- Reads a record from named fields; fields that it does not know are passed over. -/
  read : List (String × Value) → Reading (Item α)
  /-- All fields of a record. -/
  fields : Item α → List (String × Value)
  /-- The attributes that are computed and cannot be assigned. -/
  computed : List String := []

namespace Record

variable {α : Type} [Record α]

/-- A record with one field assigned. -/
def assignField (item : Item α) (field : String) (v : Value) : Reading (Item α) :=
  let fs := fields item
  if (fs.lookup field).isSome then read (Value.setField field v fs)
  else .flaws [{ cause := .unknownField field, path := [field], input := v }]

/-- A record with one attribute assigned. -/
def assign (item : Item α) (name : String) (v : Value) : Except Failure (Item α) :=
  match Attribute.assign? (computed α) name v with
  | some r => r.map fun () => item
  | none => (assignField item name v).orFail (title α)

/-- The id of a record as a field. -/
def idField (item : Item α) : String × Value := ("id", Value.ofInt? item.id)

/-- Reads the id of a record. -/
def readId (fields : List (String × Value)) : Reading (Option Int) :=
  Part.withDefault fields "id" (Part.optional Part.int) none

end Record

end Bookkeeping
