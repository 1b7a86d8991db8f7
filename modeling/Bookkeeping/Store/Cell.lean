import Bookkeeping.Failure
import Bookkeeping.Store.Numeric

/-! # Cells

A cell is what the storage engine can hold or compare: nothing, an integer of 64 bits, a double or a
text. A column has a type, and a cell that comes to it is converted to that type if nothing is lost;
otherwise it stays what it is.
-/

namespace Bookkeeping.Store

open Number

/-- A value of the storage engine. -/
inductive Cell where
  | null
  | integer (n : Int)
  | real (x : Float)
  | text (s : String)
  deriving DecidableEq

/-- What a column holds. -/
inductive ColumnType where
  | integer
  | real
  | text
  deriving DecidableEq, Repr

/-- Whether an integer fits into 64 bits. -/
def fitsInteger (n : Int) : Bool := -0x8000000000000000 ≤ n && n < 0x8000000000000000

/-- Zero without a sign, as columns of doubles hold it. -/
def unsigned (x : Float) : Float := if x == 0 then 0 else x

namespace Cell

/-- The cell of a value. The not-a-number is nothing; lists, dictionaries and decimals have no cell
at all. -/
def ofValue : Value → Except Misuse Cell
  | .null => .ok .null
  | .bool b => .ok (.integer (if b then 1 else 0))
  | .int n => if fitsInteger n then .ok (.integer n) else .error .overflow
  | .float x => .ok (if isNaN x then .null else .real x)
  | .text s => .ok (.text s)
  | .kind k => .ok (.text k.text)
  | .date d => .ok (.text d.toText)
  | .moment m => .ok (.text (Value.moment m).display)
  | .decimal _ => .error .notStorable
  | .list _ => .error .notStorable
  | .dict _ => .error .notStorable

/-- The cells of several values. -/
def ofValues : List Value → Except Misuse (List Cell)
  | [] => .ok []
  | v :: vs => do
    let c ← ofValue v
    let cs ← ofValues vs
    .ok (c :: cs)

/-- The value of a cell. -/
def toValue : Cell → Value
  | null => .null
  | integer n => .int n
  | real x => .float x
  | text s => .text s

/-- The cell of an integer that may be missing. -/
def ofInt? (n : Option Int) : Cell := (n.map integer).getD null

/-- The cell of a double that may be missing. -/
def ofFloat? (x : Option Float) : Cell := (x.map real).getD null

/-- The cell of a text that may be missing. -/
def ofText? (s : Option String) : Cell := (s.map text).getD null

/-- The cell of a truth value. -/
def ofBool (b : Bool) : Cell := integer (if b then 1 else 0)

/-! ## Conversion -/

/-- The number that a whole text spells. -/
def numeral? (s : String) : Option Cell :=
  let n := Numeric.scan s
  if !n.entire then none
  else if !n.decimal && fitsInteger n.integer then some (integer n.integer)
  else some (real n.value)

/-- A double as an integer, if it is one between the two extremes of 64 bits. -/
def narrow (x : Float) : Cell :=
  if isFinite x && isIntegral x && -0x8000000000000000 < truncate x &&
      truncate x < 0x7fffffffffffffff then
    integer (truncate x)
  else real x

/-- A cell as a column of integers holds it. -/
def asInteger : Cell → Cell
  | null => null
  | integer n => integer n
  | real x => narrow x
  | text s =>
    match numeral? s with
    | none => text s
    | some (real x) => narrow x
    | some c => c

/-- A cell as a column of doubles holds it. -/
def asReal : Cell → Cell
  | null => null
  | integer n => real (ofInt n)
  | real x => real (unsigned x)
  | text s =>
    match numeral? s with
    | none => text s
    | some (integer n) => real (ofInt n)
    | some (real x) => real (unsigned x)
    | some c => c

/-- A cell as a column of texts holds it. -/
def asText : Cell → Cell
  | null => null
  | integer n => text (toString n)
  | real x => text (Numeric.realText x)
  | text s => text s

/-- A cell as a column of a type holds it. -/
def convert (c : Cell) : ColumnType → Cell
  | .integer => c.asInteger
  | .real => c.asReal
  | .text => c.asText

/-- The integer of a cell in an integer column, if it has become one. -/
def integer? (c : Cell) : Option Int :=
  match c.asInteger with
  | integer n => some n
  | _ => none

/-- The text of a cell in a text column, if it is not empty. -/
def text? (c : Cell) : Option String :=
  match c.asText with
  | text s => some s
  | _ => none

/-! ## Comparison -/

/-- Whether two cells are equal: numbers by their value, texts character by character. Nothing
equals no cell. -/
def same : Cell → Cell → Bool
  | integer m, integer n => m == n
  | real x, real y => x == y
  | integer n, real x => isFinite x && isIntegral x && truncate x == n
  | real x, integer n => isFinite x && isIntegral x && truncate x == n
  | text s, text t => s == t
  | _, _ => false

/-- Whether a cell equals what a column of integers holds. -/
def isInteger (c held : Cell) : Bool := held.same c.asInteger

/-- Whether a cell equals what a column of texts holds. -/
def isText (c held : Cell) : Bool := held.same c.asText

/-! ## Arithmetic -/

/-- A cell as an operand: a text counts as far as it starts with a number. -/
def operand : Cell → Cell
  | text s =>
    let n := Numeric.scan s
    if !n.decimal && fitsInteger n.integer then integer n.integer else real n.value
  | c => c

/-- A double as a result, where the not-a-number is nothing. -/
def ofResult (x : Float) : Cell := if isNaN x then null else real x

/-- The sum of two cells. Integers are added exactly as long as the sum fits. -/
def plus (a b : Cell) : Cell :=
  match a.operand, b.operand with
  | integer m, integer n =>
    if fitsInteger (m + n) then integer (m + n) else ofResult (ofInt m + ofInt n)
  | integer m, real y => ofResult (ofInt m + y)
  | real x, integer n => ofResult (x + ofInt n)
  | real x, real y => ofResult (x + y)
  | _, _ => null

/-- Whether a cell is a finite number. -/
def isFiniteNumber : Cell → Bool
  | integer _ => true
  | real x => isFinite x
  | _ => false

@[simp] theorem asInteger_integer (n : Int) : (integer n).asInteger = integer n := rfl

@[simp] theorem asText_text (s : String) : (text s).asText = text s := rfl

@[simp] theorem integer?_integer (n : Int) : (integer n).integer? = some n := rfl

@[simp] theorem text?_text (s : String) : (text s).text? = some s := rfl

@[simp] theorem same_integer (m n : Int) : (integer m).same (integer n) = (m == n) := rfl

@[simp] theorem isInteger_integer (m n : Int) : (integer m).isInteger (integer n) = (n == m) := rfl

end Cell

end Bookkeeping.Store
