import Bookkeeping.Json.Reader
import Bookkeeping.Json.Writer
import Bookkeeping.Store.Database

/-! # Archives

A database between two runs of a program is a text: one JSON object with the layout, the history and
the rows of every table under their ids. Reading an archive that was written gives the database
back.
-/

namespace Bookkeeping.Store.Archive

/-- The fields of an object. -/
abbrev Fields : Type := List (String × Value)

/-! ## Reading parts -/

def int? (fs : Fields) (key : String) : Option Int :=
  match fs.lookup key with
  | some (.int n) => some n
  | _ => none

def float? (fs : Fields) (key : String) : Option Float :=
  match fs.lookup key with
  | some (.float x) => some x
  | _ => none

def text? (fs : Fields) (key : String) : Option String :=
  match fs.lookup key with
  | some (.text s) => some s
  | _ => none

def bool? (fs : Fields) (key : String) : Option Bool :=
  match fs.lookup key with
  | some (.bool b) => some b
  | _ => none

def list? (fs : Fields) (key : String) : Option (List Value) :=
  match fs.lookup key with
  | some (.list vs) => some vs
  | _ => none

def dict? (fs : Fields) (key : String) : Option Fields :=
  match fs.lookup key with
  | some (.dict inner) => some inner
  | _ => none

/-- A part that may be null. -/
def optional? {β : Type} (read? : Fields → String → Option β) (fs : Fields) (key : String) :
    Option (Option β) :=
  match fs.lookup key with
  | some .null => some none
  | _ => (read? fs key).map some

/-! ## Rows -/

/-- A kind of row that can be written and read. -/
class Archived (ρ : Type) where
  write : ρ → Fields
  read? : Fields → Option ρ

instance : Archived User where
  write u := [("username", .text u.username), ("password", .text u.passwordHash),
    ("fixed_currency", Value.ofInt? u.fixedCurrency), ("enabled", .bool u.enabled)]
  read? fs := do
    let username ← text? fs "username"
    let passwordHash ← text? fs "password"
    let fixedCurrency ← optional? int? fs "fixed_currency"
    let enabled ← bool? fs "enabled"
    some { username, passwordHash, fixedCurrency, enabled }

instance : Archived Currency where
  write c := [("owner", .int c.owner), ("name", .text c.name), ("rate", .float c.rate),
    ("archived", .bool c.archived)]
  read? fs := do
    let owner ← int? fs "owner"
    let name ← text? fs "name"
    let rate ← float? fs "rate"
    let archived ← bool? fs "archived"
    some { owner, name, rate, archived }

instance : Archived Category where
  write c := [("owner", .int c.owner), ("name", .text c.name), ("archived", .bool c.archived)]
  read? fs := do
    let owner ← int? fs "owner"
    let name ← text? fs "name"
    let archived ← bool? fs "archived"
    some { owner, name, archived }

instance : Archived Source where
  write s := [("owner", .int s.owner), ("name", .text s.name), ("currency", .int s.currency),
    ("amount", .float s.amount), ("archived", .bool s.archived)]
  read? fs := do
    let owner ← int? fs "owner"
    let name ← text? fs "name"
    let currency ← int? fs "currency"
    let amount ← float? fs "amount"
    let archived ← bool? fs "archived"
    some { owner, name, currency, amount, archived }

instance : Archived StoredEntry where
  write e := [("owner", .int e.owner), ("description", .text e.description),
    ("category", .int e.category), ("amount", .float e.amount), ("date", .text e.date),
    ("created_at", .text e.createdAt), ("currency", .int e.currency), ("kind", .text e.kind.text),
    ("source", .int e.source), ("secondary", Value.ofInt? e.secondary),
    ("rate", Value.ofFloat? e.rate), ("rate_to_fixed", .float e.rateToFixed),
    ("archived", .bool e.archived), ("target", Value.ofText? e.target)]
  read? fs := do
    let owner ← int? fs "owner"
    let description ← text? fs "description"
    let category ← int? fs "category"
    let amount ← float? fs "amount"
    let date ← text? fs "date"
    let createdAt ← text? fs "created_at"
    let currency ← int? fs "currency"
    let kind ← (text? fs "kind").bind EntryType.ofText?
    let source ← int? fs "source"
    let secondary ← optional? int? fs "secondary"
    let rate ← optional? float? fs "rate"
    let rateToFixed ← float? fs "rate_to_fixed"
    let archived ← bool? fs "archived"
    let target ← optional? text? fs "target"
    some { owner, description, category, amount, date, createdAt, currency, kind, source,
           secondary, rate, rateToFixed, archived, target }

/-! ## Tables -/

section

variable {ρ : Type} [Archived ρ]

/-- A row as a value. -/
def writeRow (r : Row ρ) : Value :=
  let odd := r.odd.map fun (name, c) => (name, c.toValue)
  .dict ([("id", .int r.id)] ++ Archived.write r.data ++ [("odd", .dict odd)])

/-- A table as a value. -/
def writeTable (t : Table ρ) : Value :=
  .dict [("last_id", .int t.lastId), ("rows", .list (t.rows.map writeRow))]

/-- The odd cells of a row. -/
def readOdd? (fs : Fields) : Option (List (String × Cell)) := do
  (← dict? fs "odd").mapM fun (name, v) => do some (name, ← (Cell.ofValue v).toOption)

/-- The row of a value. -/
def readRow? : Value → Option (Row ρ)
  | .dict fs => do
    let id ← int? fs "id"
    let data ← Archived.read? fs
    let odd ← readOdd? fs
    some { id, data, odd }
  | _ => none

/-- The table under a name. -/
def readTable? (fs : Fields) (name : TableName) : Option (Table ρ) := do
  let t ← dict? fs name.text
  let lastId ← int? t "last_id"
  let rows ← (← list? t "rows").mapM readRow?
  some { rows, lastId }

end

/-! ## Databases -/

/-- A ledger as fields. -/
def writeLedger (l : Ledger) : Fields :=
  [(TableName.users.text, writeTable l.users), (TableName.currencies.text, writeTable l.currencies),
    (TableName.categories.text, writeTable l.categories),
    (TableName.sources.text, writeTable l.sources), (TableName.entries.text, writeTable l.entries)]

/-- The ledger of fields. -/
def readLedger? (fs : Fields) : Option Ledger := do
  let users ← readTable? fs .users
  let currencies ← readTable? fs .currencies
  let categories ← readTable? fs .categories
  let sources ← readTable? fs .sources
  let entries ← readTable? fs .entries
  some { users, currencies, categories, sources, entries }

/-- An index as a value. -/
def writeIndex (i : Index) : Value := .list [.text i.name, .text i.table.text, .text i.column]

/-- The index of a value. -/
def readIndex? : Value → Option Index
  | .list [.text name, .text table, .text column] =>
    (TableName.all.find? fun t => t.text == table).map fun table => { name, table, column }
  | _ => none

/-- A layout as fields. -/
def writeLayout (l : Layout) : Fields :=
  [("tables", .bool l.tables), ("target", .bool l.target),
    ("indices", .list (l.indices.map writeIndex)), ("history", .bool l.history)]

/-- The layout of fields. -/
def readLayout? (fs : Fields) : Option Layout := do
  let tables ← bool? fs "tables"
  let target ← bool? fs "target"
  let indices ← (← list? fs "indices").mapM readIndex?
  let history ← bool? fs "history"
  some { tables, target, indices, history }

/-- The text of a database. -/
def write (db : Database) : String :=
  Json.write (.dict [("layout", .dict (writeLayout db.layout)),
    ("history", .list (db.history.map .text)), ("ledger", .dict (writeLedger db.ledger))])

/-- The database of a text. -/
def read? (s : String) : Option Database :=
  match Json.read s with
  | some (.dict fs) => do
    let layout ← readLayout? (← dict? fs "layout")
    let history ← (← list? fs "history").mapM Value.text?
    let ledger ← readLedger? (← dict? fs "ledger")
    some { layout, history, ledger }
  | _ => none

end Bookkeeping.Store.Archive
