import Bookkeeping.Check
import Bookkeeping.Store.Owned

/-! # Parts of ledger operations

What the operations of the ledger share: a rejected operation is logged, a user must exist, and a
row that is referred to must belong to the user and may have to be active.
-/

namespace Bookkeeping.Service

open Store

/-- What is logged about a rejected operation. -/
def rejectionFields (operation : String) (r : Rejection) : List (String × Value) :=
  [("operation", .text operation), ("error_type", .text r.kind.text),
    ("field", Value.ofText? r.field), ("message", .text r.message)]

/-- An operation whose rejection is logged under a name. -/
def logged {α : Type} (operation : String) (op : Op α) : Op α :=
  tryCatch op fun e => do
    match e with
    | .rejected r =>
      emit .warning .operations "Operation rejected" (rejectionFields operation r)
      throw e
    | _ => throw e

/-- The user of an id, who must exist. -/
def requireUser (user : Value) : Op (Row User) := do
  match ← find User user with
  | some u => pure u
  | none => Op.reject (.noUser user)

/-- The row of a user that an id refers to. It must exist and belong to the user, and must be active
if that is asked for. -/
def loadOwned (ρ : Type) {α : Type} [OwnedRecord ρ α] (user id : Value) (field : String)
    (active : Bool := false) : Op (Row α) := do
  let found ← if id.isNull then pure none else findOwned ρ user id
  match found with
  | none => Op.reject (.notFound field user id)
  | some r =>
    if OwnedRecord.isArchived ρ r.data && active then Op.reject (.archivedReference field id)
    else pure r

/-- A record read from named fields, or the failure of its kind. -/
def recordOf (α : Type) [Record α] (fields : List (String × Value)) : Op α :=
  Op.lift (((Record.read (α := α) fields).orFail (Record.title α)).map Item.data)

end Bookkeeping.Service
