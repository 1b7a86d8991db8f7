import Bookkeeping.Balance
import Bookkeeping.Service.Operation

/-! # Entries

Making, archiving, restoring and removing entries. Each of these keeps the balances of the sources
in step with the active entries: what an entry contributes is put in when it becomes active and
taken out when it stops being so, in the same transaction.
-/

namespace Bookkeeping.Service

open Store Calendar

/-! ## Balances -/

/-- Applies shifts to balances, in the direction 1 or -1. -/
def applyShifts (direction : Int) : List Shift → Op Unit
  | [] => pure ()
  | s :: rest => do
    let d := s.directed direction
    let _ ← applyDelta (Value.ofInt? d.source) (.float d.delta)
    applyShifts direction rest

/-- The shifts of an entry with respect to its source. -/
def shiftsWith (e : Entry) (primary : Option Source) : Op (List Shift) :=
  Op.lift ((e.shifts primary).mapError .misuse)

/-- The shifts of a stored entry. -/
def shiftsOf (e : Entry) : Op (List Shift) := do
  let primary ← find Source (.int e.source)
  shiftsWith e (primary.map Row.data)

/-! ## Making an entry -/

/-- The rejection for the first flaw of a request. -/
def flawRejection (fs : List Flaw) : Rejection :=
  match fs with
  | [] => ⟨.check, "", none, .null⟩
  | f :: _ =>
    let field := if f.path.isEmpty then none else some (".".intercalate f.path)
    ⟨.check, "Invalid " ++ field.getD "None" ++ ": " ++ f.cause.message, field, f.input⟩

/-- The request to work on: a given one, with fields put over it as they are, or one read from the
fields alone. -/
def requestOf (data : Option EntryRequest) (fields : List (String × Value)) : Op EntryRequest :=
  match data with
  | some r => pure (if fields.isEmpty then r else r.override fields)
  | none =>
    match EntryRequest.read fields with
    | Except.ok item => pure item.data
    | Except.error fs => Op.reject (flawRejection fs)

/-- A request whose own parts are in order. -/
structure Checked where
  kind : EntryType
  amount : Float
  date : Moment
  rate : Option Float

/-- Checks the parts of a request that need no look at the store. -/
def checkRequest (r : EntryRequest) : Check.Checked Checked := do
  let kind ← Check.kind r.kind
  let _ ← Check.given "description" r.description
  let _ ← Check.given "category_id" r.category
  let _ ← Check.given "source_id" r.source
  let _ ← Check.given "currency_id" r.currency
  let amount ← Check.amount "amount" true r.amount
  let date ← Check.moment "date" r.date
  let rate ← if r.rate.isNull then .ok none
    else some <$> Check.rate "conversion_rate" r.rate
  if kind.isTransfer then do
    let _ ← Check.given "secondary_source_id" r.secondary
    if rate.isNone then Check.reject (.required "conversion_rate")
    else if r.secondary.same r.source then
      Check.reject (.outside "secondary_source_id" "must differ from source_id" r.secondary)
    else .ok { kind, amount, date, rate }
  else .ok { kind, amount, date, rate }

/-- A conversion must be in the currency of its source. -/
def foreignConversion (currency : Int) : Rejection :=
  ⟨.check, "convert entries must use the currency of their source", some "currency_id",
    .int currency⟩

/-- An entry in another currency than its source needs a rate. -/
def missingRate : Rejection :=
  ⟨.nullConstraint,
    "conversion_rate is required when the entry currency differs from the source currency",
    some "conversion_rate", .null⟩

/-- Checks the currency of an entry against that of its source. -/
def checkCurrency (c : Checked) (currency : Row Currency) (primary : Row Source) : Op Unit :=
  if currency.id == primary.data.currency then pure ()
  else if c.kind.isTransfer then Op.reject (foreignConversion currency.id)
  else if c.rate.isNone then Op.reject missingRate
  else pure ()

/-- Stores the entry of a checked request and applies its shifts. -/
def recordEntry (user : Value) (r : EntryRequest) (c : Checked) : Op (Row Entry × List Shift) :=
  transaction do
    let category ← loadOwned Category user r.category "category_id" true
    let currency ← loadOwned Currency user r.currency "currency_id" true
    let primary ← loadOwned Source user r.source "source_id" true
    if !r.secondary.isNull then
      let _ ← loadOwned Source user r.secondary "secondary_source_id" true
    checkCurrency c currency primary
    let rateToFixed ← if r.rateToFixed.isNull then pure currency.data.rate
      else Op.lift (Check.rate "conversion_rate_to_fixed" r.rateToFixed)
    let entry ← Store.insert StoredEntry (← recordOf Entry
      [("user_id", user), ("description", r.description),
        ("target", if r.target.truthy then r.target else .null), ("category_id", .int category.id),
        ("amount", .float c.amount), ("date", .moment c.date), ("currency_id", .int currency.id),
        ("entry_type", .kind c.kind), ("source_id", .int primary.id),
        ("secondary_source_id", r.secondary), ("conversion_rate", Value.ofFloat? c.rate),
        ("conversion_rate_to_fixed", .float rateToFixed)])
    let shifts ← shiftsWith entry.data (some primary.data)
    applyShifts 1 shifts
    pure (entry, shifts)

/-- Shifts as a dictionary by source; of two shifts of one source the last counts. -/
def shiftFields (shifts : List Shift) : List (String × Value) :=
  shifts.foldl (fun fs s =>
    Value.setField ((s.source.map fun (n : Int) => toString n).getD "null") (.float s.delta) fs) []

/-- Records an entry and updates the balances it touches. -/
def createEntry (user : Value) (data : Option EntryRequest) (fields : List (String × Value)) :
    Op (Row Entry) :=
  logged "create_entry" do
    let r ← requestOf data fields
    let c ← Op.lift (checkRequest r)
    let (entry, shifts) ← recordEntry user r c
    emit .info .entries "Entry created"
      [("user_id", user), ("entry_id", .int entry.id), ("entry_type", .text c.kind.text),
        ("balance_changes", .dict (shiftFields shifts))]
    pure entry

/-! ## Finding entries -/

/-- An entry of a user. -/
def getEntry (user id : Value) : Op (Row Entry) := loadOwned StoredEntry user id "entry_id"

/-- The entries of a user that pass a filter, the newest first. The bounds may be given in any form
of ISO 8601; the later one is excluded. -/
def listEntries (user : Value) (filter : EntryFilter) : Op (List (Row Entry)) := do
  let bound (field : String) (v : Value) : Check.Checked Value :=
    if v.isNull then .ok .null else (Check.moment field v).map .moment
  let start ← Op.lift (bound "start" filter.start)
  let stop ← Op.lift (bound "end" filter.stop)
  let kind ← Op.lift (if filter.kind.isNull then .ok .null else (Check.kind filter.kind).map .kind)
  findFiltered user { filter with start, stop, kind }

/-! ## The life of an entry -/

/-- Makes an entry archived or active and applies its shifts; none if it is so already. -/
def markEntry (archived : Bool) (user id : Value) : Op (Row Entry × Option (Option (Row Entry))) :=
  transaction do
    let e ← getEntry user id
    if e.data.archived == archived then pure (e, none)
    else
      let _ ← setArchived StoredEntry id (.bool archived)
      let shifts ← shiftsOf e.data
      applyShifts (if archived then -1 else 1) shifts
      let after ← find StoredEntry id
      pure (e, some after)

/-- Archives an entry and takes its amount back out of the balances. -/
def archiveEntry (user id : Value) : Op (Option (Row Entry)) :=
  logged "archive_entry" do
    match ← markEntry true user id with
    | (e, none) => pure (some e)
    | (_, some after) =>
      emit .info .entries "Entry archived" [("user_id", user), ("entry_id", id)]
      pure after

/-- Restores an archived entry and puts its amount into the balances again. -/
def restoreEntry (user id : Value) : Op (Option (Row Entry)) :=
  logged "restore_entry" do
    match ← markEntry false user id with
    | (e, none) => pure (some e)
    | (_, some after) =>
      emit .info .entries "Entry restored" [("user_id", user), ("entry_id", id)]
      pure after

/-- Removes an entry; if it is active its amount is taken out of the balances first. -/
def deleteEntry (user id : Value) : Op Unit :=
  logged "delete_entry" do
    transaction do
      let e ← getEntry user id
      if !e.data.archived then
        let shifts ← shiftsOf e.data
        applyShifts (-1) shifts
      let _ ← delete StoredEntry id
    emit .info .entries "Entry deleted" [("user_id", user), ("entry_id", id)]

end Bookkeeping.Service
