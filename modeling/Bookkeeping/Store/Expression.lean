import Bookkeeping.Store.Column
import Bookkeeping.Text.Case

/-! # Expressions

What a statement says about the value of a column: a parameter, a literal, the cell of a column, or
what these are when they are negated or compared. Names are found whatever their case, and the id of
a row has names beside that of its column.
-/

namespace Bookkeeping.Store

/-- A value in a statement. -/
inductive Expression where
  /-- The parameter of a place, counted from zero. -/
  | parameter (index : Nat)
  | literal (c : Cell)
  /-- The cell of a column. A name in double quotes that is no column is a text. -/
  | column (name : String) (orText : Bool)
  | negative (e : Expression)
  | equal (a b : Expression)
  deriving DecidableEq

namespace Expression

variable {ρ : Type}

/-! ## Names -/

/-- The names of the id of a row. -/
def idNames : List String := ["id", "rowid", "oid", "_rowid_"]

/-- Whether a name means the id of a row. -/
def isId (name : String) : Bool := idNames.any (Text.sameIgnoringCase name)

/-- The column of a name. -/
def column? (columns : List (Column ρ)) (name : String) : Option (Column ρ) :=
  columns.find? fun c => Text.sameIgnoringCase c.name name

/-- Whether a name is that of a column or means the id. -/
def isKnown (columns : List (Column ρ)) (name : String) : Bool :=
  (column? columns name).isSome || isId name

/-- The first name in an expression that is unknown. -/
def unknown? (columns : List (Column ρ)) : Expression → Option String
  | .column name orText => if orText || isKnown columns name then none else some name
  | .negative e => unknown? columns e
  | .equal a b => (unknown? columns a).or (unknown? columns b)
  | _ => none

/-! ## Values -/

/-- The type that an expression has from its column. -/
def type? (columns : List (Column ρ)) : Expression → Option ColumnType
  | .column name _ =>
    match column? columns name with
    | some c => some c.type
    | none => if isId name then some .integer else none
  | _ => none

/-- A cell as a number if it is a text that spells one. -/
def numeric : Cell → Cell
  | .text s => (Cell.numeral? s).getD (.text s)
  | c => c

/-- Whether two cells are equal, as far as they come from columns of types. A number is compared
with a column of texts as a text, and a text with a column of numbers as a number. -/
def equality (a b : Cell) (types : List ColumnType) : Cell :=
  let (a, b) :=
    if types.any (· != .text) then (numeric a, numeric b)
    else if types.length == 1 then (a.asText, b.asText)
    else (a, b)
  match a, b with
  | .null, _ => .null
  | _, .null => .null
  | a, b => .ofBool (a.same b)

/-- Zero less a cell. -/
def negated (c : Cell) : Cell :=
  match c.operand with
  | .integer n => if fitsInteger (-n) then .integer (-n) else .real (-(Number.ofInt n))
  | .real x => .real (-x)
  | c => c

/-- The value of an expression for a row. -/
def eval (columns : List (Column ρ)) (params : List Cell) (r : Row ρ) : Expression → Cell
  | .parameter i => params[i]?.getD .null
  | .literal c => c
  | .column name _ =>
    match column? columns name with
    | some c => c.read r
    | none => if isId name then .integer r.id else .text name
  | .negative e => negated (eval columns params r e)
  | .equal a b =>
    equality (eval columns params r a) (eval columns params r b)
      ((type? columns a).toList ++ (type? columns b).toList)

/-- Whether a cell counts as true. -/
def isTrue (c : Cell) : Bool :=
  match c.operand with
  | .integer n => n != 0
  | .real x => x != 0
  | _ => false

end Expression

end Bookkeeping.Store
