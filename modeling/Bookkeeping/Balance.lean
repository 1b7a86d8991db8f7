import Bookkeeping.Failure
import Bookkeeping.Record.Catalog
import Bookkeeping.Record.Entry

/-! # What an entry does to balances

An active entry changes the balance of its source, and a conversion that of a second source too.
Spending and lending take the amount out of the source, income and borrowing put it in; the amount
is converted first if the source is held in another currency. A conversion takes the amount out of
its source and puts the converted amount into the second one.
-/

namespace Bookkeeping

/-- A change of the balance of a source, which may be missing. -/
structure Shift where
  source : Option Int
  delta : Float
  deriving DecidableEq

namespace Shift

/-- A shift taken with a sign: as it is, or undone. -/
def signed (sign : Int) (x : Float) : Float := if sign < 0 then -x else x

/-- A shift in the direction 1 or -1. -/
def directed (direction : Int) (s : Shift) : Shift := { s with delta := signed direction s.delta }

end Shift

namespace Entry

/-- An amount times a rate that must be there. -/
def converted (amount : Float) (rate : Option Float) : Except Misuse Float :=
  match rate with
  | some r => .ok (amount * r)
  | none => .error .wrongType

/-- The shifts that an active entry contributes. The primary source is looked at only if the entry
is not a transfer. -/
def shifts (e : Entry) (primary : Option Source) : Except Misuse (List Shift) :=
  if e.kind.isTransfer then do
    let gained ← converted e.amount e.rate
    .ok [⟨some e.source, -e.amount⟩, ⟨e.secondary, gained⟩]
  else
    match primary with
    | none => .error .noAttribute
    | some p => do
      let value ← if e.currency == p.currency then .ok e.amount else converted e.amount e.rate
      .ok [⟨some e.source, Shift.signed e.kind.sign value⟩]

end Entry

end Bookkeeping
