import Bookkeeping.Store.Access
import Bookkeeping.Text.Blank

/-! # Statements on rows with an owner

What can be asked and changed in the tables whose rows belong to users, and in the table of users
itself: rows by owner and by name, the archive flag, how many rows refer to one, the balance of a
source, and entries by date, type, source and target.
-/

namespace Bookkeeping.Store

open Calendar

/-! ## Whole numbers from values -/

/-- The start of a text as an error shows it. -/
def excerpt (s : String) : String := String.ofList (s.toList.take 200)

/-- The failure of a value that spells no integer. -/
def noInteger (v : Value) : Failure :=
  .badValue ("invalid literal for int() with base 10: " ++ excerpt v.literal)

/-- The failure of a text that spells an integer with too many digits. -/
def tooManyDigits (n : Nat) : Failure :=
  .badValue (s!"Exceeds the limit ({Part.maxDigits} digits) for integer string conversion: "
    ++ s!"value has {n} digits; use sys.set_int_max_str_digits() to increase the limit")

/-- The integer that the text of a value spells, with blanks around it, digits of any script and low
lines between digits. The digits at the start are counted before the rest is looked at. -/
def wholeOfText (v : Value) (s : String) : Except Failure Int :=
  let (negative, cs) := Number.takeSign (Text.cutEnds Text.isBlank s.toList)
  let run := cs.takeWhile fun c => (Text.digit? c).isSome || c == '_'
  match Part.dropLowLines? run with
  | none => .error (noInteger v)
  | some ds =>
    if Part.maxDigits < ds.length then .error (tooManyDigits ds.length)
    else if ds.isEmpty || run.length != cs.length then .error (noInteger v)
    else
      let n : Int := Text.ofDigits (ds.filterMap Text.digit?)
      .ok (if negative then -n else n)

/-- A value as an integer, cut toward zero. -/
def whole (v : Value) : Except Failure Int :=
  match v with
  | .bool b => .ok (if b then 1 else 0)
  | .int n => .ok n
  | .float x =>
    if Number.isNaN x then .error (.badValue "cannot convert float NaN to integer")
    else if Number.isFinite x then .ok (Number.truncate x)
    else .error (.misuse .overflow)
  | .decimal (.finite negative coefficient exponent) =>
    let n : Int := if exponent < 0 then (coefficient / Nat.pow 10 exponent.natAbs : Nat)
      else (coefficient * Nat.pow 10 exponent.natAbs : Nat)
    .ok (if negative then -n else n)
  | .decimal (.infinite _) => .error (.misuse .overflow)
  | .decimal (.nan _ _ _) => .error (.badValue "cannot convert NaN to integer")
  | v =>
    match v.text? with
    | none => .error (.misuse .wrongType)
    | some s => wholeOfText v s

/-- The text that a name is looked up by. -/
def lookupName (v : Value) : Except Failure Value :=
  match v.text? with
  | some s => .ok (.text (Text.strip s))
  | none => .error (.misuse .noAttribute)

/-! ## Rows by owner -/

/-- A record stored in a row with an owner. -/
class OwnedRecord (ρ : Type) (α : outParam Type) extends Owned ρ, Persistent ρ α where
  /-- Whether a record is archived. -/
  isArchived : α → Bool

instance : OwnedRecord Currency Currency where
  isArchived := Currency.archived

instance : OwnedRecord Category Category where
  isArchived := Category.archived

instance : OwnedRecord Source Source where
  isArchived := Source.archived

instance : OwnedRecord StoredEntry Entry where
  isArchived := Entry.archived

section Owned

variable (ρ : Type) {α : Type} [OwnedRecord ρ α]

/-- The row of an id, if it belongs to the user. -/
def findOwned (user id : Value) : Op (Option (Row α)) :=
  selectOne ρ
    (do
      let id ← param id
      let user ← param user
      .ok (id, user))
    fun (id, user) r => id.isInteger (.integer r.id) && user.isInteger (ownerCell r)

/-- The rows of a user, the archived ones only if asked for. -/
def findByUser (user : Value) (includeArchived : Value := .bool false) : Op (List (Row α)) :=
  selectAll ρ (param user) fun user rows =>
    rows.filter fun r =>
      user.isInteger (ownerCell r)
        && (includeArchived.truthy || !Owned.archived r.data)

/-- Sets or clears the archive flag of a row; says whether there is one. -/
def setArchived (id archived : Value) : Op Bool := do
  let flag ← Op.lift (whole archived)
  update ρ id [("archived", .int flag)]

/-- Removes every row of a user; gives their number. -/
def deleteByUser (user : Value) : Op Nat :=
  write ρ true fun s l => do
    let c ← param user
    .ok (l.remove s.enforce fun r : Row ρ => c.isInteger (ownerCell r))

end Owned

/-! ## Rows by name -/

/-- A record with an owner and a name. -/
class NamedRecord (ρ : Type) extends Named ρ, OwnedRecord ρ ρ

instance : NamedRecord Currency where
instance : NamedRecord Category where
instance : NamedRecord Source where

/-- The row of a user with a name, blanks at its ends left out. -/
def findByName (ρ : Type) [NamedRecord ρ] (user name : Value) : Op (Option (Row ρ)) := do
  let name ← Op.lift (lookupName name)
  selectOne ρ
    (do
      let user ← param user
      let name ← param name
      .ok (user, name))
    fun (user, name) r => user.isInteger (ownerCell r) && name.isText (.text (Named.rowName r.data))

/-! ## References -/

/-- The cell that holds the currency of a source. -/
def Source.currencyCell (r : Row Source) : Cell := r.cell "currency_id" (.integer r.data.currency)

namespace StoredEntry

/-- The cell that holds the currency of an entry. -/
def currencyCell (r : Row StoredEntry) : Cell := r.cell "currency_id" (.integer r.data.currency)

/-- The cell that holds the category of an entry. -/
def categoryCell (r : Row StoredEntry) : Cell := r.cell "category_id" (.integer r.data.category)

/-- The cells that hold the sources of an entry. -/
def sourceCells (r : Row StoredEntry) : List Cell :=
  [r.cell "source_id" (.integer r.data.source),
    r.cell "secondary_source_id" (.ofInt? r.data.secondary)]

end StoredEntry

/-- How many sources and entries are held in a currency. -/
def currencyReferences (id : Value) : Op (List (String × Nat)) :=
  select Source fun l => do
    let c ← param id
    .ok [("sources", l.sources.count fun s => c.isInteger (Source.currencyCell s)),
      ("entries", l.entries.count fun e => c.isInteger (StoredEntry.currencyCell e))]

/-- How many entries are filed under a category. -/
def categoryReferences (id : Value) : Op (List (String × Nat)) :=
  select StoredEntry fun l => do
    let c ← param id
    .ok [("entries", l.entries.count fun e => c.isInteger (StoredEntry.categoryCell e))]

/-- How many entries use a source as their first or second one. -/
def sourceReferences (id : Value) : Op (List (String × Nat)) :=
  select StoredEntry fun l => do
    let c ← param id
    .ok [("entries", l.entries.count fun e => (StoredEntry.sourceCells e).any c.isInteger)]

/-! ## Users -/

/-- The user of a name, blanks at its ends left out. -/
def findByUsername (username : Value) : Op (Option (Row User)) := do
  let username ← Op.lift (lookupName username)
  selectOne User (param username) fun c r => c.isText (.text r.data.username)

/-- The users whose account is enabled. -/
def findEnabled : Op (List (Row User)) :=
  selectAll User (.ok ()) fun _ rows => rows.filter fun r => r.data.enabled

/-- Enables or disables an account; says whether there is one. -/
def setEnabled (user enabled : Value) : Op Bool := do
  let flag ← Op.lift (whole enabled)
  update User user [("enabled", .int flag)]

/-- Replaces the hash of a user's password. -/
def updatePassword (user hash : Value) : Op Bool := update User user [("password", hash)]

/-- Chooses the currency that a user reports in, or none. -/
def setFixedCurrency (user currency : Value) : Op Bool :=
  update User user [("fixed_currency_id", currency)]

/-- Lets no user report in a currency; gives the number of users who did. -/
def clearFixedCurrency (currency : Value) : Op Nat :=
  write User false fun _ l => do
    let c ← param currency
    let p (r : Row User) : Bool :=
      c.isInteger (r.cell "fixed_currency_id" (.ofInt? r.data.fixedCurrency))
    let release (r : Row User) : Row User :=
      r.put "fixed_currency_id" { r.data with fixedCurrency := none }
    .ok (.ok (l.users.count p, { l with users := l.users.change p release }))

/-! ## Balances -/

/-- The balance after a shift, if it is a finite number. -/
def shifted? (amount delta : Cell) : Option Float :=
  let sum := amount.plus delta
  match sum.isFiniteNumber, sum.asReal with
  | true, .real x => some x
  | _, _ => none

/-- The cell that holds the balance of a source. -/
def Source.amountCell (r : Row Source) : Cell := r.cell "amount" (.real r.data.amount)

/-- Shifts the balances of the selected sources, where the result is finite. -/
def shiftSources (l : Ledger) (p : Row Source → Bool) (delta : Cell) : Nat × Ledger :=
  let moves (r : Row Source) : Bool := p r && (shifted? (Source.amountCell r) delta).isSome
  let move (r : Row Source) : Row Source :=
    let amount := (shifted? (Source.amountCell r) delta).getD r.data.amount
    r.put "amount" { r.data with amount }
  (l.sources.count moves, { l with sources := l.sources.change moves move })

/-- Counts a balance shift, which may be the one that is broken off. -/
def burnFuse : Op Unit :=
  Op.of fun s =>
    match s.fuse with
    | none => (.ok (), s)
    | some (n + 2) => (.ok (), { s with fuse := some (n + 1) })
    | some _ => (.error (.interrupted "interrupted"), { s with fuse := none })

/-- Shifts the balance of a source in place; says whether there is one. A shift that would not give
a finite balance is rejected. -/
def applyDelta (source delta : Value) : Op Bool := do
  burnFuse
  let n ← write Source false fun _ l => do
    let d ← param delta
    let c ← param source
    .ok (.ok (shiftSources l (fun r => c.isInteger (.integer r.id)) d))
  if 0 < n then pure true
  else
    match ← find Source source with
    | none => pure false
    | some _ => Op.reject (.overflow source delta)

/-! ## Entries -/

/-- What entries are listed by; a part that is null does not restrict the list. -/
structure EntryFilter where
  includeArchived : Value := .bool false
  start : Value := .null
  stop : Value := .null
  kind : Value := .null
  source : Value := .null
  target : Value := .null

/-- The text of a date bound. -/
def boundText (v : Value) : Except Failure (Option String) :=
  match v with
  | .null => .ok none
  | .moment m => .ok (some m.toText)
  | .date d => .ok (some d.toText)
  | _ => .error (.misuse .noAttribute)

/-- The entry type to restrict a list to. -/
def filterKind (v : Value) : Except Failure (Option EntryType) :=
  if v.isNull then .ok none
  else
    match Part.kindOf? v with
    | some k => .ok (some k)
    | none => .error (.badValue (v.literal ++ " is not a valid EntryType"))

/-- A condition on a text, bounds included from below and excluded from above. -/
def within (start stop : Option String) (date : String) : Bool :=
  start.all (fun a => !(date < a)) && stop.all fun b => date < b

/-- Whether one entry is listed before another: the later date first, and the larger id among equal
dates. -/
def listedBefore (a b : Row StoredEntry) : Bool :=
  b.data.date < a.data.date || (a.data.date == b.data.date && b.id ≤ a.id)

/-- A condition on a cell that holds only if the cell is given. -/
def optionally (c : Option Cell) (p : Cell → Bool) : Bool := c.all p

/-- The cell of a parameter that may not be given. -/
def optionalParam (v : Value) : Except Failure (Option Cell) :=
  if v.isNull then .ok none else some <$> param v

/-- The entries of a user that pass a filter, the newest first. -/
def findFiltered (user : Value) (filter : EntryFilter) : Op (List (Row Entry)) := do
  let start ← Op.lift (boundText filter.start)
  let stop ← Op.lift (boundText filter.stop)
  let kind ← Op.lift (filterKind filter.kind)
  let layout := (← get).database.layout
  if layout.tables && !layout.target && !filter.target.isNull then
    statement fun _ => .error (.operational "no such column: target")
  else
    selectAll StoredEntry
      (do
        let user ← param user
        let source ← optionalParam filter.source
        let target ← optionalParam filter.target
        .ok (user, source, target))
      fun (user, source, target) rows =>
        let chosen := rows.filter fun r =>
          let e := r.data
          user.isInteger (ownerCell r)
            && (filter.includeArchived.truthy || !e.archived)
            && within start stop e.date
            && kind.all (· == e.kind)
            && optionally source (fun c => (StoredEntry.sourceCells r).any c.isInteger)
            && optionally target (fun c => c.isText (.ofText? e.target))
        chosen.mergeSort listedBefore

end Bookkeeping.Store
