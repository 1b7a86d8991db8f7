/-! # Entry types

The five ways in which an entry moves money. Spending and lending take money out of the entry's
source, income and borrowing put money in, and a conversion moves money from one source to another.
-/

namespace Bookkeeping

/-- The type of an entry. -/
inductive EntryType where
  | spend
  | income
  | lend
  | borrow
  | convert
  deriving DecidableEq, Repr

namespace EntryType

/-- The entry types in their order. -/
def all : List EntryType := [spend, income, lend, borrow, convert]

/-- The name of an entry type. -/
def text : EntryType → String
  | spend => "spend"
  | income => "income"
  | lend => "lend"
  | borrow => "borrow"
  | convert => "convert"

/-- The label of an entry type. -/
def label : EntryType → String
  | spend => "SPEND"
  | income => "INCOME"
  | lend => "LEND"
  | borrow => "BORROW"
  | convert => "CONVERT"

/-- The entry type of a name. -/
def ofText? (s : String) : Option EntryType := all.find? fun k => k.text == s

/-- Whether the entry's source gains: 1 for a gain and -1 for a loss. -/
def sign : EntryType → Int
  | income => 1
  | borrow => 1
  | _ => -1

/-- Whether the entry moves money into a second source. -/
def isTransfer : EntryType → Bool
  | convert => true
  | _ => false

@[simp] theorem ofText?_text (k : EntryType) : ofText? k.text = some k := by
  cases k <;> decide

end EntryType

end Bookkeeping
