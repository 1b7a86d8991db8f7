import Bookkeeping.EntryType
import Bookkeeping.Calendar.IsoText
import Bookkeeping.Number.Exact
import Bookkeeping.Number.FloatText

/-! # Values

What callers hand to the ledger, and what errors and log events carry, is of any shape: a value of
one of the scalar kinds, a list of values or a dictionary. The checks and record readers turn values
into typed data.
-/

namespace Bookkeeping

open Calendar Number

/-- A value of any kind. A dictionary keeps the order of its keys. -/
inductive Value where
  | null
  | bool (b : Bool)
  | int (n : Int)
  | float (x : Float)
  | text (s : String)
  | decimal (d : Decimal)
  | date (d : Date)
  | moment (m : Moment)
  | kind (k : EntryType)
  | list (vs : List Value)
  | dict (fields : List (String × Value))

instance : Inhabited Value := ⟨.null⟩

namespace Value

/-- The value of an optional text, null if it is missing. -/
def ofText? (s : Option String) : Value := (s.map Value.text).getD .null

/-- The value of an optional integer, null if it is missing. -/
def ofInt? (n : Option Int) : Value := (n.map Value.int).getD .null

/-- The value of an optional double, null if it is missing. -/
def ofFloat? (x : Option Float) : Value := (x.map Value.float).getD .null

/-- The text of a text value; an entry type counts as its name. -/
def text? : Value → Option String
  | .text s => some s
  | .kind k => some k.text
  | _ => none

/-- Whether a value is null. -/
def isNull : Value → Bool
  | .null => true
  | _ => false

/-! ## Truth -/

/-- Whether a value counts as true: everything but null, false, zero and what is empty. -/
def truthy : Value → Bool
  | .null => false
  | .bool b => b
  | .int n => n != 0
  | .float x => x != 0
  | .text s => s != ""
  | .decimal (.finite _ coefficient _) => coefficient != 0
  | .decimal _ => true
  | .date _ => true
  | .moment _ => true
  | .kind _ => true
  | .list vs => !vs.isEmpty
  | .dict fields => !fields.isEmpty

/-! ## Equality by value -/

/-- The exact number that a value stands for: truth values count as 0 and 1. -/
def exactNumber? : Value → Option Exact
  | .bool b => some (Exact.ofInt (if b then 1 else 0))
  | .int n => some (Exact.ofInt n)
  | .float x => Exact.ofFloat? x
  | .decimal d => Exact.ofDecimal? d
  | _ => none

/-- The sign of an infinite number. -/
def infinite? : Value → Option Bool
  | .float x => if isFinite x || isNaN x then none else some (Binary.isNegative x)
  | .decimal (.infinite negative) => some negative
  | _ => none

mutual

/-- Whether two values are equal: numbers by their value across the numeric kinds, dictionaries
whatever the order of their keys. -/
def same : Value → Value → Bool
  | .null, .null => true
  | .date a, .date b => a == b
  | .moment a, .moment b => a.offset.isSome == b.offset.isSome && a.instant == b.instant
  | .list as, .list bs => sameList as bs
  | .dict as, .dict bs => as.length == bs.length && sameFields as bs
  | a, b =>
    match a.text?, b.text? with
    | some s, some t => s == t
    | _, _ =>
      match a.exactNumber?, b.exactNumber? with
      | some m, some n => m == n
      | _, _ =>
        match a.infinite?, b.infinite? with
        | some m, some n => m == n
        | _, _ => false

/-- Whether two lists are equal element by element. -/
def sameList : List Value → List Value → Bool
  | [], [] => true
  | a :: as, b :: bs => same a b && sameList as bs
  | _, _ => false

/-- Whether every field of the first dictionary is in the second. -/
def sameFields : List (String × Value) → List (String × Value) → Bool
  | [], _ => true
  | (k, a) :: as, bs =>
    (match bs.lookup k with
      | some b => same a b
      | none => false) && sameFields as bs

end

/-! ## Text -/

/-- A value without its name in front: the arguments that rebuild a moment. -/
def momentArguments (m : Moment) : String :=
  let c := m.clock
  let numbers := [m.date.year, m.date.month, m.date.day, c.hour, c.minute]
    ++ (if c.second == 0 && c.micro == 0 then [] else [c.second])
    ++ (if c.micro == 0 then [] else [c.micro])
  let zone := match m.offset with
    | none => []
    | some o => ["tzinfo=datetime.timezone"
        ++ (if o.micros == 0 then ".utc" else "(" ++ spanText o.micros ++ ")")]
  ", ".intercalate (numbers.map toString ++ zone)

mutual

/-- The text of a value inside another: texts are quoted and the kinds that are not plain scalars
are named. -/
def literal : Value → String
  | .null => "None"
  | .bool b => if b then "True" else "False"
  | .int n => toString n
  | .float x => floatText x
  | .text s => Text.quoted s
  | .decimal d => "Decimal('" ++ d.toText ++ "')"
  | .date d => s!"datetime.date({d.year}, {d.month}, {d.day})"
  | .moment m => "datetime.datetime(" ++ momentArguments m ++ ")"
  | .kind k => "<EntryType." ++ k.label ++ ": " ++ Text.quoted k.text ++ ">"
  | .list vs => "[" ++ ", ".intercalate (literals vs) ++ "]"
  | .dict fields => "\x7b" ++ ", ".intercalate (fieldLiterals fields) ++ "\x7d"

/-- The texts of the elements of a list. -/
def literals : List Value → List String
  | [] => []
  | v :: vs => literal v :: literals vs

/-- The texts of the fields of a dictionary. -/
def fieldLiterals : List (String × Value) → List String
  | [] => []
  | (k, v) :: fields => (Text.quoted k ++ ": " ++ literal v) :: fieldLiterals fields

end

/-- The text of a value by itself. -/
def display : Value → String
  | .text s => s
  | .decimal d => d.toText
  | .date d => d.toText
  | .moment m => m.date.toText ++ " " ++ m.clock.toText ++ (m.offset.map Offset.toText).getD ""
  | .kind k => "EntryType." ++ k.label
  | v => literal v

/-! ## Dictionaries -/

/-- A dictionary's fields with one key set, in its old place if it has one and at the end if not. -/
def setField (key : String) (v : Value) : List (String × Value) → List (String × Value)
  | [] => [(key, v)]
  | (k, w) :: fields => if k == key then (k, v) :: fields else (k, w) :: setField key v fields

/-- A key that is new to a dictionary comes at its end. -/
theorem setField_new {k : String} {fields : List (String × Value)} (v : Value)
    (h : k ∉ fields.map Prod.fst) : setField k v fields = fields ++ [(k, v)] := by
  induction fields with
  | nil => rfl
  | cons f rest ih =>
    rw [List.map_cons, List.mem_cons, not_or] at h
    have hne : (f.1 == k) = false := by simpa using Ne.symm h.1
    rw [setField, hne, ih h.2]
    rfl

/-- The value under a key, null if the key is missing. -/
def field (fields : List (String × Value)) (key : String) : Value := (fields.lookup key).getD .null

end Value

end Bookkeeping
