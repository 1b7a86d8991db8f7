import Bookkeeping.Store.Database
import Bookkeeping.Store.Expression
import Bookkeeping.Store.Token

/-! # Assignments

An update of a row is written as a list of assignments to columns, followed by the condition that
picks the row. Column names come from the caller as they are, so what stands in them is read as part
of the statement: a name may be quoted or in another case, and it may bring along whole assignments.
Values come as parameters, in the order of their places.
-/

namespace Bookkeeping.Store

/-- An update of rows as it was written. -/
structure Update where
  assignments : List (String × Expression)
  condition : Option Expression
  /-- The number of places for parameters. -/
  places : Nat
  /-- Whether another statement follows. -/
  followed : Bool
  deriving DecidableEq

namespace Update

/-- Why a statement cannot be read. -/
inductive Fault where
  | near (written : String)
  | unknown (written : String)
  | incomplete
  /-- One value is assigned to several columns. -/
  | unequal (columns : Nat)
  deriving DecidableEq, Repr

/-- What the storage engine says about a statement that it cannot read. -/
def Fault.message : Fault → String
  | near written => "near \"" ++ written ++ "\": syntax error"
  | unknown written => "unrecognized token: \"" ++ written ++ "\""
  | incomplete => "incomplete input"
  | unequal n => toString n ++ " columns assigned 1 values"

/-- The fault of tokens whose first one does not fit. -/
def Fault.of : List Token → Fault
  | [] => .incomplete
  | t :: _ => if t.lexeme == .unknown then .unknown t.written else .near t.written

/-- Reads a part of a statement off the tokens. -/
abbrev Reader (α : Type) : Type := StateT (List Token) (Except Fault) α

namespace Reader

/-- Fails because of the next token. -/
def fail {α : Type} : Reader α := do throw (Fault.of (← get))

/-- Whether the next token is written in one of some ways. -/
def isNext (ways : List String) : Reader Bool := do
  pure ((← get).head?.any fun t => ways.any (Text.sameIgnoringCase t.written))

/-- Whether the next token is written in one of some ways; if so it is taken. -/
def takes (ways : List String) : Reader Bool := do
  let found ← isNext ways
  if found then modify (List.drop 1)
  pure found

/-- Takes a token that must be there. -/
def expect (ways : List String) : Reader Unit := do
  if !(← takes ways) then fail

/-- Takes a token that must have a meaning. -/
def take {α : Type} (meaning : Token → Option α) : Reader α := do
  match (← get).head?.bind meaning with
  | none => fail
  | some a => do
    modify (List.drop 1)
    pure a

/-- Whether the statement ends before the next token. -/
def isEnd : Reader Bool := do pure ((← get).isEmpty || (← isNext [";"]))

/-- The column that a token names. -/
def columnName? (t : Token) : Option String :=
  match t.lexeme with
  | .name s _ => some s
  | .text s => some s
  | _ => none

/-- Names of columns up to a closing bracket. The fuel bounds the names. -/
def columnList : Nat → Reader (List String)
  | 0 => fail
  | fuel + 1 => do
    let column ← take columnName?
    if ← takes [","] then pure (column :: (← columnList fuel))
    else
      expect [")"]
      pure [column]

/-- The number that a token spells. -/
def numberOf (written : String) : Cell :=
  match written.toList with
  | '0' :: 'x' :: ds => .integer ((Text.hexNumber? ds).getD 0)
  | '0' :: 'X' :: ds => .integer ((Text.hexNumber? ds).getD 0)
  | _ => (Cell.numeral? written).getD .null

/-- The value of one token, where a parameter has the given place. -/
def valueOf? (place : Nat) (t : Token) : Option Expression :=
  match t.lexeme with
  | .parameter => some (.parameter place)
  | .text s => some (.literal (.text s))
  | .number => some (.literal (numberOf t.written))
  | .name s quote => some (.column s (quote == some '"'))
  | .reserved => if Text.sameIgnoringCase t.written "null" then some (.literal .null) else none
  | _ => none

/-- The number of places for parameters in tokens. -/
def placesIn (ts : List Token) : Nat := (ts.filter fun t => t.lexeme == .parameter).length

/-- A value with signs before it. The place of the next parameter is what all places have over those
that are still to come. The fuel bounds the signs. -/
def signed (places : Nat) : Nat → Reader Expression
  | 0 => fail
  | fuel + 1 => do
    if ← takes ["-"] then .negative <$> signed places fuel
    else if ← takes ["+"] then signed places fuel
    else take (valueOf? (places - placesIn (← get)))

/-- Comparisons with an expression, from left to right. The fuel bounds them. -/
def compared (places : Nat) : Nat → Expression → Reader Expression
  | 0, _ => fail
  | fuel + 1, e => do
    if ← takes ["=", "=="] then
      let right ← signed places ((← get).length + 1)
      compared places fuel (.equal e right)
    else pure e

/-- An expression. -/
def expression (places : Nat) : Reader Expression := do
  let fuel := (← get).length + 1
  compared places fuel (← signed places fuel)

/-- One assignment. What follows it is another one, the condition or the end. -/
def assignment (places : Nat) : Reader (String × Expression) := do
  let columns ←
    if ← takes ["("] then columnList (← get).length
    else (fun column => [column]) <$> take columnName?
  expect ["=", "=="]
  let e ← expression places
  if !((← isEnd) || (← isNext [",", "where"])) then fail
  match columns with
  | [column] => pure (column, e)
  | _ => throw (.unequal columns.length)

/-- Assignments with commas between them. The fuel bounds them. -/
def assignmentList (places : Nat) : Nat → Reader (List (String × Expression))
  | 0 => fail
  | fuel + 1 => do
    let a ← assignment places
    if ← takes [","] then pure (a :: (← assignmentList places fuel)) else pure [a]

/-- The condition after its word, if there is one. -/
def condition (places : Nat) : Reader (Option Expression) := do
  if ← takes ["where"] then
    let e ← expression places
    if ← isEnd then pure (some e) else fail
  else pure none

/-- An update up to its end. -/
def whole (places : Nat) : Reader (List (String × Expression) × Option Expression) := do
  let assignments ← assignmentList places ((← get).length + 1)
  pure (assignments, ← condition places)

end Reader

/-- The update of a text that follows its table. -/
def ofText (s : String) : Except Fault Update := do
  let ts := Token.ofText s
  let ((assignments, condition), rest) ← (Reader.whole (Reader.placesIn ts)).run ts
  .ok { assignments, condition
        places := Reader.placesIn ts - Reader.placesIn rest
        followed := !(rest.drop 1).isEmpty }

/-- The text of an update of the row of an id that gives columns new values. -/
def textOf (columns : List String) : String :=
  ", ".intercalate (columns.map fun c => c ++ " = ?") ++ " WHERE id = ?"

/-! ## Carrying out -/

variable {ρ : Type}

/-- The first name in an update that is unknown. -/
def unknown? (columns : List (Column ρ)) (u : Update) : Option String :=
  let inAssignment : String × Expression → Option String := fun (name, e) =>
    (e.unknown? columns).or (if Expression.isKnown columns name then none else some name)
  (u.assignments.findSome? inAssignment).or (u.condition.bind (Expression.unknown? columns))

/-- Whether an update picks a row. -/
def picks (u : Update) (columns : List (Column ρ)) (params : List Cell) (r : Row ρ) : Bool :=
  u.condition.all fun e => Expression.isTrue (e.eval columns params r)

/-- The cells that an update assigns to columns of a row, the last assignment first. -/
def cells (u : Update) (columns : List (Column ρ)) (params : List Cell) (r : Row ρ) :
    List (String × Cell) :=
  u.assignments.reverse.filterMap fun (name, e) =>
    (Expression.column? columns name).map fun c => (c.name, e.eval columns params r)

/-- The cell that an update assigns to the id of a row, if it does. -/
def newId? (u : Update) (columns : List (Column ρ)) (params : List Cell) (r : Row ρ) :
    Option Cell :=
  (u.assignments.reverse.find? fun (name, _) => Expression.isId name).map fun (_, e) =>
    e.eval columns params r

/-- A row after an update. -/
def apply [Relation ρ] (u : Update) (columns : List (Column ρ)) (params : List Cell) (r : Row ρ) :
    Stored (Row ρ) := do
  let renumbered ← Ledger.renumbered (u.newId? columns params r) r
  Ledger.assigned columns (u.cells columns params r) renumbered

/-- The update of the row of an id that gives columns new values, as a statement that can be
read. -/
def named (columns : List String) : Except Failure Update :=
  let text := textOf columns
  if text.contains '\x00' then .error (.misuse .badStatement)
  else (ofText text).mapError fun fault => .operational fault.message

/-- An update whose names are known and which has as many places as there are values. -/
def fitting (u : Update) (columns : List (Column ρ)) (values : Nat) : Except Failure Update :=
  match u.unknown? columns with
  | some name => .error (.operational ("no such column: " ++ name))
  | none => if u.followed || u.places != values then .error (.misuse .badStatement) else .ok u

end Update

end Bookkeeping.Store
