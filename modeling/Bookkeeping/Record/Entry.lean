import Bookkeeping.Record

/-! # Entries

An entry is one movement of money. It keeps the rates it was made with: later changes of a currency
do not touch it. An entry request is what a caller asks to record; its parts are checked against the
ledger's rules when the entry is made.
-/

namespace Bookkeeping

open Calendar

/-- A movement of money. -/
structure Entry where
  owner : Int
  description : String
  /-- The other party. -/
  target : Option String := none
  category : Int
  amount : Float
  date : Moment
  createdAt : Option Moment := none
  currency : Int
  kind : EntryType
  source : Int
  /-- The source that a conversion moves the money into. -/
  secondary : Option Int := none
  /-- The factor from the entry's currency to that of the source it changes. -/
  rate : Option Float := none
  /-- The factor to the owner's fixed currency when the entry was made. -/
  rateToFixed : Float
  archived : Bool := false
  deriving DecidableEq

namespace Entry

/-- The amount in the owner's fixed currency. -/
def fixedAmount (e : Entry) : Float := e.amount * e.rateToFixed

/-- Reads an entry from named fields. -/
def read (fields : List (String × Value)) : Reading (Item Entry) :=
  (fun id owner archived description target category amount date createdAt currency kind source
      secondary rate rateToFixed =>
      { id, data := { owner, archived, description, target, category, amount, date, createdAt,
                      currency, kind, source, secondary, rate, rateToFixed } })
    <$> Record.readId fields
    <*> Part.required fields "user_id" Part.int
    <*> Part.withDefault fields "archived" Part.bool false
    <*> Part.required fields "description" Part.text
    <*> Part.withDefault fields "target" (Part.optional Part.text) none
    <*> Part.required fields "category_id" Part.int
    <*> Part.required fields "amount" Part.float
    <*> Part.required fields "date" Part.moment
    <*> Part.withDefault fields "created_at" (Part.optional Part.moment) none
    <*> Part.required fields "currency_id" Part.int
    <*> Part.required fields "entry_type" Part.kind
    <*> Part.required fields "source_id" Part.int
    <*> Part.withDefault fields "secondary_source_id" (Part.optional Part.int) none
    <*> Part.withDefault fields "conversion_rate" (Part.optional Part.float) none
    <*> Part.required fields "conversion_rate_to_fixed" Part.float

instance : Record Entry where
  title := "Entry"
  read := read
  fields e := [("id", Value.ofInt? e.id), ("user_id", .int e.data.owner),
    ("archived", .bool e.data.archived), ("description", .text e.data.description),
    ("target", Value.ofText? e.data.target), ("category_id", .int e.data.category),
    ("amount", .float e.data.amount), ("date", .moment e.data.date),
    ("created_at", (e.data.createdAt.map Value.moment).getD .null),
    ("currency_id", .int e.data.currency), ("entry_type", .kind e.data.kind),
    ("source_id", .int e.data.source), ("secondary_source_id", Value.ofInt? e.data.secondary),
    ("conversion_rate", Value.ofFloat? e.data.rate),
    ("conversion_rate_to_fixed", .float e.data.rateToFixed)]
  computed := ["fixed_amount"]

end Entry

/-- What a caller asks to record; a part that is null was not given. -/
structure EntryRequest where
  description : Value := .null
  target : Value := .null
  category : Value := .null
  amount : Value := .null
  date : Value := .null
  currency : Value := .null
  kind : Value := .null
  source : Value := .null
  secondary : Value := .null
  rate : Value := .null
  rateToFixed : Value := .null

namespace EntryRequest

/-- The parts of a request by their field names. -/
def parts (r : EntryRequest) : List (String × Value) :=
  [("description", r.description), ("target", r.target), ("category_id", r.category),
    ("amount", r.amount), ("date", r.date), ("currency_id", r.currency), ("entry_type", r.kind),
    ("source_id", r.source), ("secondary_source_id", r.secondary), ("conversion_rate", r.rate),
    ("conversion_rate_to_fixed", r.rateToFixed)]

/-- The request with the given parts; a part that is missing is null. -/
def ofParts (fields : List (String × Value)) : EntryRequest where
  description := Value.field fields "description"
  target := Value.field fields "target"
  category := Value.field fields "category_id"
  amount := Value.field fields "amount"
  date := Value.field fields "date"
  currency := Value.field fields "currency_id"
  kind := Value.field fields "entry_type"
  source := Value.field fields "source_id"
  secondary := Value.field fields "secondary_source_id"
  rate := Value.field fields "conversion_rate"
  rateToFixed := Value.field fields "conversion_rate_to_fixed"

/-- A request with some parts replaced as they are. -/
def override (r : EntryRequest) (fields : List (String × Value)) : EntryRequest :=
  ofParts (fields ++ r.parts)

/-- Reads an optional part of a request, keeping it as a value. -/
def readPart {α : Type} (fields : List (String × Value)) (field : String)
    (read : Value → Reading α) (toValue : α → Value) : Reading Value :=
  (fun v => (v.map toValue).getD .null) <$> Part.withDefault fields field (Part.optional read) none

/-- Reads a request from named fields. Only the shape of the parts is looked at. -/
def read (fields : List (String × Value)) : Reading (Item EntryRequest) :=
  (fun id description target category amount date currency kind source secondary rate rateToFixed =>
      { id, data := { description, target, category, amount, date, currency, kind, source,
                      secondary, rate, rateToFixed } })
    <$> Record.readId fields
    <*> readPart fields "description" Part.text .text
    <*> readPart fields "target" Part.text .text
    <*> readPart fields "category_id" Part.int .int
    <*> readPart fields "amount" Part.floatOrText id
    <*> readPart fields "date" Part.momentOrDate id
    <*> readPart fields "currency_id" Part.int .int
    <*> readPart fields "entry_type" Part.text .text
    <*> readPart fields "source_id" Part.int .int
    <*> readPart fields "secondary_source_id" Part.int .int
    <*> readPart fields "conversion_rate" Part.floatOrText id
    <*> readPart fields "conversion_rate_to_fixed" Part.floatOrText id

instance : Record EntryRequest where
  title := "EntryCreate"
  read := read
  fields r := ("id", Value.ofInt? r.id) :: r.data.parts

end EntryRequest

end Bookkeeping
