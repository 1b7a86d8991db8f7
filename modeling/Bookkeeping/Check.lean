import Bookkeeping.Record.Part
import Bookkeeping.Failure

/-! # Checks of what callers give

Each check takes a value of any kind to its normal form, or rejects it naming the field. Names lose
the blanks at their ends, amounts and rates may be written with commas, dates may be given in any
form of ISO 8601.
-/

namespace Bookkeeping.Check

open Number Calendar

/-- What a check gives. -/
abbrev Checked (α : Type) : Type := Except Failure α

/-- A rejection as the outcome of a check. -/
def reject {α : Type} (r : Rejection) : Checked α := .error (.rejected r)

/-- A value that is not missing. -/
def given (field : String) (v : Value) : Checked Value :=
  if v.isNull then reject (.required field) else .ok v

/-- A name: a text that is not blank and not too long. -/
def name (field : String) (v : Value) : Checked String := do
  let v ← given field v
  match v.text? with
  | none => reject (.outside field "must be a string" v)
  | some s =>
    let s := Text.strip s
    if s == "" then reject (.outside field "cannot be blank" v)
    else if Part.maxName < s.length then
      reject (.outside field s!"must be at most {Part.maxName} characters" v)
    else .ok s

/-- A text without its commas. -/
def withoutCommas (s : String) : String := String.ofList (s.toList.filter (· != ','))

/-- The double of a text that may hold commas. -/
def floatOfText? (s : String) : Option Float :=
  (Decimal.ofText? (withoutCommas s)).bind Decimal.toFloat?

/-- The double that a value stands for, which may be infinite or undefined. An integer beyond the
largest double has none. -/
def anyFloat (field : String) (v : Value) : Checked Float :=
  let orMalformed (x : Option Float) : Checked Float :=
    match x with
    | some x => .ok x
    | none => reject (.malformed field v)
  match v with
  | .null => reject (.required field)
  | .float x => .ok x
  | .int n => if isFinite (ofInt n) then .ok (ofInt n) else .error (.misuse .overflow)
  | .decimal d => orMalformed d.toFloat?
  | .text s => orMalformed (floatOfText? s)
  | .kind k => orMalformed (floatOfText? k.text)
  | _ => orMalformed none

/-- A finite double. -/
def float (field : String) (v : Value) : Checked Float := do
  let x ← anyFloat field v
  if isFinite x then .ok x else reject (.outside field "must be a finite number" v)

/-- A finite double, above zero if that is asked for. -/
def amount (field : String) (positive : Bool) (v : Value) : Checked Float := do
  let x ← float field v
  if positive && x ≤ 0 then reject (.outside field "must be greater than zero" v) else .ok x

/-- A conversion rate: a finite double above zero. -/
def rate (field : String) (v : Value) : Checked Float := amount field true v

/-- What is said about a value that is not an entry type. -/
def kindReason : String :=
  "must be one of: " ++ ", ".intercalate (EntryType.all.map EntryType.text)

/-- An entry type. -/
def kind (v : Value) : Checked EntryType := do
  let v ← given "entry_type" v
  match Part.kindOf? v with
  | some k => .ok k
  | none => reject (.outside "entry_type" kindReason v)

/-- A moment, a date or a text of either; a date means its midnight. -/
def moment (field : String) (v : Value) : Checked Moment := do
  let v ← given field v
  match v with
  | .moment m => .ok m
  | .date d => .ok (Moment.ofDate d)
  | v =>
    match (v.text?.map fun s => Moment.ofIso (Text.strip s)) with
    | some (.ok m) => .ok m
    | _ => reject (.malformed field v)

/-- The longest password, in bytes of its encoding. -/
def maxPassword : Nat := 72

/-- A password, which is never shown. -/
def password (v : Value) : Checked String := do
  let v ← given "password" v
  match v.text? with
  | none => reject (.outside "password" "cannot be empty" .null)
  | some s =>
    if s == "" then reject (.outside "password" "cannot be empty" .null)
    else if maxPassword < (Text.bytes s).length then
      reject (.outside "password" s!"must be at most {maxPassword} bytes" .null)
    else .ok s

end Bookkeeping.Check
