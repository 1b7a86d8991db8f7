import Bookkeeping.Record

/-! # Currencies, categories and sources

The three kinds of named things that a user keeps: currencies with their rates to the user's fixed
currency, categories for entries, and sources, which hold money in one currency.
-/

namespace Bookkeeping

/-- A currency with its factor to the owner's fixed currency. -/
structure Currency where
  owner : Int
  name : String
  rate : Float
  archived : Bool := false
  deriving DecidableEq

/-- A category of entries. -/
structure Category where
  owner : Int
  name : String
  archived : Bool := false
  deriving DecidableEq

/-- An account, wallet or other holder of money with its running balance. -/
structure Source where
  owner : Int
  name : String
  currency : Int
  amount : Float
  archived : Bool := false
  deriving DecidableEq

namespace Currency

/-- Reads a currency from named fields. -/
def read (fields : List (String × Value)) : Reading (Item Currency) :=
  (fun id owner archived name rate => { id, data := { owner, name, rate, archived } })
    <$> Record.readId fields
    <*> Part.required fields "user_id" Part.int
    <*> Part.withDefault fields "archived" Part.bool false
    <*> Part.required fields "name" Part.name
    <*> Part.required fields "rate_to_fixed" Part.rate

instance : Record Currency where
  title := "Currency"
  read := read
  fields c := [("id", Value.ofInt? c.id), ("user_id", .int c.data.owner),
    ("archived", .bool c.data.archived), ("name", .text c.data.name),
    ("rate_to_fixed", .float c.data.rate)]

end Currency

namespace Category

/-- Reads a category from named fields. -/
def read (fields : List (String × Value)) : Reading (Item Category) :=
  (fun id owner archived name => { id, data := { owner, name, archived } })
    <$> Record.readId fields
    <*> Part.required fields "user_id" Part.int
    <*> Part.withDefault fields "archived" Part.bool false
    <*> Part.required fields "name" Part.name

instance : Record Category where
  title := "Category"
  read := read
  fields c := [("id", Value.ofInt? c.id), ("user_id", .int c.data.owner),
    ("archived", .bool c.data.archived), ("name", .text c.data.name)]

end Category

namespace Source

/-- Reads a source from named fields. -/
def read (fields : List (String × Value)) : Reading (Item Source) :=
  (fun id owner archived name currency amount =>
      { id, data := { owner, name, currency, amount, archived } })
    <$> Record.readId fields
    <*> Part.required fields "user_id" Part.int
    <*> Part.withDefault fields "archived" Part.bool false
    <*> Part.required fields "name" Part.name
    <*> Part.required fields "currency_id" Part.int
    <*> Part.withDefault fields "amount" Part.float 0

instance : Record Source where
  title := "Source"
  read := read
  fields s := [("id", Value.ofInt? s.id), ("user_id", .int s.data.owner),
    ("archived", .bool s.data.archived), ("name", .text s.data.name),
    ("currency_id", .int s.data.currency), ("amount", .float s.data.amount)]

end Source

end Bookkeeping
