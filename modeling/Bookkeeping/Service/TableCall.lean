import Bookkeeping.Service.Call

/-! # Calls on tables

What can be asked of the tables themselves, as data, and one function that does it. Such a call goes
past the operations of the ledger and their checks; only the record of a new row is read like any
other, and the engine looks after its constraints.
-/

namespace Bookkeeping.Service

open Store

/-- The tables whose rows have owners. -/
inductive OwnedTable where
  | currencies
  | categories
  | sources
  | entries
  deriving DecidableEq, Repr

/-- The name of such a table. -/
def OwnedTable.name : OwnedTable → TableName
  | currencies => .currencies
  | categories => .categories
  | sources => .sources
  | entries => .entries

/-- Something asked of a table. -/
inductive TableCall where
  | insert (table : TableName) (fields : List (String × Value))
  | updateFields (table : TableName) (id : Value) (fields : List (String × Value))
  | setArchived (table : OwnedTable) (id archived : Value)
  | delete (table : TableName) (id : Value)
  | deleteByUser (table : OwnedTable) (user : Value)
  | applyDelta (source delta : Value)
  | setEnabled (user enabled : Value)
  | setFixedCurrency (user currency : Value)
  | clearFixedCurrency (currency : Value)
  | updatePassword (user hash : Value)

/-- Stores a record that is read from named fields. -/
def storeRead (ρ : Type) {α : Type} [Persistent ρ α] [Record α] (answer : Row α → Answer)
    (fields : List (String × Value)) : Op Answer := do
  let a ← recordOf α fields
  answer <$> Store.insert ρ a

/-- Does something for the kind of row of a table. -/
def onTable {β : Type} (f : (ρ : Type) → {α : Type} → [Persistent ρ α] → β) : TableName → β
  | .users => f User
  | .currencies => f Currency
  | .categories => f Category
  | .sources => f Source
  | .entries => f StoredEntry

/-- Does something for the kind of row of a table whose rows have owners. -/
def onOwnedTable {β : Type} (f : (ρ : Type) → {α : Type} → [OwnedRecord ρ α] → β) : OwnedTable → β
  | .currencies => f Currency
  | .categories => f Category
  | .sources => f Source
  | .entries => f StoredEntry

namespace TableCall

/-- Does what a call asks for. -/
def run : TableCall → Op Answer
  | insert .users fields => storeRead User (fun r => .user (some r)) fields
  | insert .currencies fields => storeRead Currency (fun r => .currency (some r)) fields
  | insert .categories fields => storeRead Category (fun r => .category (some r)) fields
  | insert .sources fields => storeRead Source (fun r => .source (some r)) fields
  | insert .entries fields => storeRead StoredEntry (fun r => .entry (some r)) fields
  | updateFields table id fields =>
    onTable (fun ρ _ [_] => Answer.flag <$> updateNamed ρ id fields) table
  | setArchived table id archived =>
    onOwnedTable (fun ρ _ [_] => Answer.flag <$> Store.setArchived ρ id archived) table
  | delete table id => onTable (fun ρ _ [_] => Answer.flag <$> Store.delete ρ id) table
  | deleteByUser table user =>
    onOwnedTable (fun ρ _ [_] => (fun n : Nat => Answer.number n) <$> Store.deleteByUser ρ user) table
  | applyDelta source delta => Answer.flag <$> Store.applyDelta source delta
  | setEnabled user enabled => Answer.flag <$> Store.setEnabled user enabled
  | setFixedCurrency user currency => Answer.flag <$> Store.setFixedCurrency user currency
  | clearFixedCurrency currency =>
    (fun n : Nat => Answer.number n) <$> Store.clearFixedCurrency currency
  | updatePassword user hash => Answer.flag <$> Store.updatePassword user hash

/-- The table whose rows a call stores, changes or removes. -/
def table : TableCall → TableName
  | insert table _ => table
  | updateFields table _ _ => table
  | setArchived table _ _ => table.name
  | delete table _ => table
  | deleteByUser table _ => table.name
  | applyDelta _ _ => .sources
  | setEnabled _ _ => .users
  | setFixedCurrency _ _ => .users
  | clearFixedCurrency _ => .users
  | updatePassword _ _ => .users

/-- Whether a call removes rows. -/
def isDeletion : TableCall → Bool
  | delete _ _ => true
  | deleteByUser _ _ => true
  | _ => false

/-- Whether a call stores a new row. -/
def isInsertion : TableCall → Bool
  | insert _ _ => true
  | _ => false

end TableCall

end Bookkeeping.Service
