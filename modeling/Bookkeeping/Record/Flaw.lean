import Bookkeeping.Value

/-! # Flaws

A flaw says why one part of an input cannot be read as what a record holds there: the cause, the
path to the part and the part itself. A record is read part by part, and every flaw is reported, in
the order of the fields.
-/

namespace Bookkeeping

/-- Why a part of an input cannot be read. -/
inductive Cause where
  | missing
  | intType
  | intText
  | intTooLong
  | intFraction
  | floatType
  | floatText
  | notFinite
  | notAbove (bound : String)
  | below (bound : String)
  | above (bound : String)
  | boolType
  | boolText
  | textType
  | tooShort (least : Nat)
  | tooLong (most : Nat)
  | choice (options : List String)
  | momentType
  | momentRange
  | momentText
  | dateType
  | dateText
  | dateInexact
  | dateRange
  | unknownField (name : String)
  | extraField
  | recordType (name : String)
  | rule (reason : String)
  deriving DecidableEq, Repr

namespace Cause

/-- A list of choices in words: quoted, with commas and a final `or`. -/
def choices : List String → String
  | [] => ""
  | [a] => a
  | [a, b] => a ++ " or " ++ b
  | a :: rest => a ++ ", " ++ choices rest

/-- The code of a cause. -/
def code : Cause → String
  | missing => "missing"
  | intType => "int_type"
  | intText => "int_parsing"
  | intTooLong => "int_parsing_size"
  | intFraction => "int_from_float"
  | floatType => "float_type"
  | floatText => "float_parsing"
  | notFinite => "finite_number"
  | notAbove _ => "greater_than"
  | below _ => "greater_than_equal"
  | above _ => "less_than_equal"
  | boolType => "bool_type"
  | boolText => "bool_parsing"
  | textType => "string_type"
  | tooShort _ => "string_too_short"
  | tooLong _ => "string_too_long"
  | choice _ => "enum"
  | momentType => "datetime_type"
  | momentRange => "datetime_parsing"
  | momentText => "datetime_from_date_parsing"
  | dateType => "date_type"
  | dateText => "date_from_datetime_parsing"
  | dateInexact => "date_from_datetime_inexact"
  | dateRange => "date_parsing"
  | unknownField _ => "no_such_attribute"
  | extraField => "extra_forbidden"
  | recordType _ => "model_type"
  | rule _ => "value_error"

/-- A count of characters in words. -/
def characters (n : Nat) : String := toString n ++ (if n == 1 then " character" else " characters")

/-- What is said about a cause. -/
def message : Cause → String
  | missing => "Field required"
  | intType => "Input should be a valid integer"
  | intText => "Input should be a valid integer, unable to parse string as an integer"
  | intTooLong => "Unable to parse input string as an integer, exceeded maximum size"
  | intFraction => "Input should be a valid integer, got a number with a fractional part"
  | floatType => "Input should be a valid number"
  | floatText => "Input should be a valid number, unable to parse string as a number"
  | notFinite => "Input should be a finite number"
  | notAbove bound => "Input should be greater than " ++ bound
  | below bound => "Input should be greater than or equal to " ++ bound
  | above bound => "Input should be less than or equal to " ++ bound
  | boolType => "Input should be a valid boolean"
  | boolText => "Input should be a valid boolean, unable to interpret input"
  | textType => "Input should be a valid string"
  | tooShort n => "String should have at least " ++ characters n
  | tooLong n => "String should have at most " ++ characters n
  | choice options => "Input should be " ++ choices (options.map Text.quoted)
  | momentType => "Input should be a valid datetime"
  | momentRange => "Input should be a valid datetime"
  | momentText => "Input should be a valid datetime or date"
  | dateType => "Input should be a valid date"
  | dateText => "Input should be a valid date or datetime"
  | dateInexact => "Datetimes provided to dates should have zero time - e.g. be exact dates"
  | dateRange => "Input should be a valid date in the format YYYY-MM-DD"
  | unknownField name => "Object has no attribute '" ++ name ++ "'"
  | extraField => "Extra inputs are not permitted"
  | recordType name => "Input should be a valid dictionary or instance of " ++ name
  | rule reason => "Value error, " ++ reason

end Cause

/-- A part of an input that cannot be read. -/
structure Flaw where
  cause : Cause
  path : List String := []
  input : Value := .null

/-- A flaw seen from the record around it. -/
def Flaw.within (step : String) (f : Flaw) : Flaw := { f with path := step :: f.path }

/-- What reading gives: a result, or the flaws of everything that was read. -/
def Reading (α : Type) : Type := Except (List Flaw) α

namespace Reading

variable {α β : Type}

def ok (a : α) : Reading α := Except.ok a

def flaws (fs : List Flaw) : Reading α := Except.error fs

/-- The reading that fails for one cause. -/
def fail (cause : Cause) (input : Value) : Reading α := flaws [{ cause, input }]

/-- The result, if there is one. -/
def value? (r : Reading α) : Option α :=
  match r with
  | Except.ok a => some a
  | Except.error _ => none

def map (f : α → β) (r : Reading α) : Reading β :=
  match r with
  | Except.ok a => ok (f a)
  | Except.error fs => flaws fs

/-- Two readings side by side, with the flaws of both. -/
def both (f : Reading (α → β)) (r : Reading α) : Reading β :=
  match f, r with
  | Except.ok g, Except.ok a => ok (g a)
  | Except.ok _, Except.error fs => flaws fs
  | Except.error fs, Except.ok _ => flaws fs
  | Except.error fs, Except.error gs => flaws (fs ++ gs)

/-- A reading after another one, whose result it needs. -/
def bind (r : Reading α) (f : α → Reading β) : Reading β :=
  match r with
  | Except.ok a => f a
  | Except.error fs => flaws fs

/-- A reading of a part, seen from the record around it. -/
def within (step : String) (r : Reading α) : Reading α :=
  match r with
  | Except.ok a => ok a
  | Except.error fs => flaws (fs.map (Flaw.within step))

instance : Functor Reading where
  map := map

instance : Applicative Reading where
  pure := ok
  seq f r := both f (r ())

@[simp] theorem pure_eq (a : α) : (pure a : Reading α) = ok a := rfl

@[simp] theorem map_ok (f : α → β) (a : α) : f <$> (ok a : Reading α) = ok (f a) := rfl

@[simp] theorem seq_ok (f : α → β) (a : α) : (ok f : Reading (α → β)) <*> ok a = ok (f a) := rfl

@[simp] theorem within_ok (step : String) (a : α) : within step (ok a) = ok a := rfl

@[simp] theorem bind_ok (a : α) (f : α → Reading β) : bind (ok a) f = f a := rfl

end Reading

end Bookkeeping
