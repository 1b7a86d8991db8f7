import Bookkeeping.Failure

/-! # Attributes

Besides its fields a record, and a section of the settings, has other attributes. Those that are
computed cannot be assigned. A name that starts with a low line is private: assigning it says
nothing about the fields.
-/

namespace Bookkeeping.Attribute

/-- Computed attributes that every record and section has. -/
def shared : List String := ["model_extra", "model_fields_set"]

/-- Whether a name is private. -/
def isPrivate (name : String) : Bool := name.startsWith "_"

/-- The misuse that lies in assigning a private name, if it is one. -/
def misuse? (name : String) (v : Value) : Option Misuse :=
  match name, v with
  | "__class__", _ => some .wrongType
  | "__dict__", .dict _ => none
  | "__dict__", _ => some .wrongType
  | "__weakref__", _ => some .noAttribute
  | "__fields_set__", _ => some .noAttribute
  | _, _ => none

/-- What assigning an attribute that is no field does: it fails, or it changes nothing. There is no
answer for a name that must be a field. -/
def assign? (computed : List String) (name : String) (v : Value) : Option (Except Failure Unit) :=
  if computed.contains name || shared.contains name then some (.error (.misuse .noAttribute))
  else if isPrivate name then
    some (match misuse? name v with
      | some m => .error (.misuse m)
      | none => .ok ())
  else none

end Bookkeeping.Attribute
