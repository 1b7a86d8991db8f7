import Bookkeeping.Record.User
import Bookkeeping.Record.Catalog
import Bookkeeping.Record.Entry
import Bookkeeping.Store.Column

/-! # The tables of a ledger

A ledger has five tables. Users, currencies, categories and sources are stored as they are; an entry
is stored with its dates as text. A *relation* says for one kind of row where its table is, which
rows clash with each other, which rows of other tables it needs, and what happens to those that need
it when it is removed: they block the removal, lose the reference, or go with it.
-/

namespace Bookkeeping.Store

open Calendar

/-- An entry as it is stored. -/
structure StoredEntry where
  owner : Int
  description : String
  category : Int
  amount : Float
  date : String
  createdAt : String
  currency : Int
  kind : EntryType
  source : Int
  secondary : Option Int
  rate : Option Float
  rateToFixed : Float
  archived : Bool
  target : Option String
  deriving DecidableEq

/-- The five tables. -/
structure Ledger where
  users : Table User := {}
  currencies : Table Currency := {}
  categories : Table Category := {}
  sources : Table Source := {}
  entries : Table StoredEntry := {}
  deriving DecidableEq

/-! ## References -/

namespace Ledger

/-- Whether a row of any kind belongs to a user. -/
def usesUser (l : Ledger) (id : Int) : Bool :=
  l.currencies.rows.any (fun c => c.data.owner == id)
    || l.categories.rows.any (fun c => c.data.owner == id)
    || l.sources.rows.any (fun s => s.data.owner == id)
    || l.entries.rows.any (fun e => e.data.owner == id)

/-- Whether a source or an entry is held in a currency. -/
def usesCurrency (l : Ledger) (id : Int) : Bool :=
  l.sources.rows.any (fun s => s.data.currency == id)
    || l.entries.rows.any (fun e => e.data.currency == id)

/-- Whether an entry is filed under a category. -/
def usesCategory (l : Ledger) (id : Int) : Bool := l.entries.rows.any fun e => e.data.category == id

/-- Whether an entry names a source as its first or second one. -/
def usesSource (l : Ledger) (id : Int) : Bool :=
  l.entries.rows.any fun e => e.data.source == id || e.data.secondary == some id

/-- The ledger in which nobody reports in one of the selected currencies. -/
def forgetCurrencies (l : Ledger) (gone : Int → Bool) : Ledger :=
  let users := l.users.modify (fun u => u.data.fixedCurrency.any gone)
    (fun u => { u with fixedCurrency := none })
  { l with users }

/-- Removes selected rows of a table, unless one of them is still used. -/
def removeUnused {α : Type} (table : Table α) (used : Int → Bool) (p : Row α → Bool) :
    Stored (Table α) :=
  if table.rows.any (fun r => p r && used r.id) then .error .reference else .ok (table.erase p)

/-- Removes selected currencies; users that report in one of them lose it. -/
def removeCurrencies (l : Ledger) (p : Row Currency → Bool) : Stored Ledger := do
  let currencies ← removeUnused l.currencies l.usesCurrency p
  let gone (id : Int) : Bool := l.currencies.rows.any fun r => p r && r.id == id
  .ok ({ l with currencies }.forgetCurrencies gone)

/-- Removes selected categories. -/
def removeCategories (l : Ledger) (p : Row Category → Bool) : Stored Ledger := do
  let categories ← removeUnused l.categories l.usesCategory p
  .ok { l with categories }

/-- Removes selected sources. -/
def removeSources (l : Ledger) (p : Row Source → Bool) : Stored Ledger := do
  let sources ← removeUnused l.sources l.usesSource p
  .ok { l with sources }

/-- Removes selected entries. -/
def removeEntries (l : Ledger) (p : Row StoredEntry → Bool) : Ledger :=
  { l with entries := l.entries.erase p }

/-- Removes selected users with everything they own: entries first, then sources, categories and
currencies. -/
def removeUsers (l : Ledger) (p : Row User → Bool) : Stored Ledger := do
  let gone (id : Int) : Bool := l.users.rows.any fun r => p r && r.id == id
  let l := l.removeEntries fun r => gone r.data.owner
  let l ← l.removeSources fun r => gone r.data.owner
  let l ← l.removeCategories fun r => gone r.data.owner
  let l ← l.removeCurrencies fun r => gone r.data.owner
  .ok { l with users := l.users.erase p }

end Ledger

/-! ## Relations -/

/-- A kind of row, stored as `ρ`. -/
class Relation (ρ : Type) where
  name : TableName
  table : Ledger → Table ρ
  withTable : Ledger → Table ρ → Ledger
  /-- The columns but for the id, in their order. -/
  columns : List (Column ρ)
  /-- The columns of the key that must be unique. -/
  keyColumns : String := ""
  /-- The cells of that key; without any there is no such key. -/
  key : Row ρ → List Cell := fun _ => []
  /-- The references of a row, which must fit into 64 bits. -/
  references : ρ → List Int
  /-- Whether every reference of a row resolves. -/
  resolves : Ledger → ρ → Bool
  /-- Whether rows refer to the row of an id. -/
  isReferenced : Ledger → Int → Bool := fun _ _ => false
  /-- Removes selected rows, with the consequences for the rows that refer to them. -/
  remove : Ledger → (Row ρ → Bool) → Stored Ledger

/-- The qualified columns of a key. -/
def qualified (table : TableName) (columns : List String) : String :=
  ", ".intercalate (columns.map fun c => table.text ++ "." ++ c)

instance : Relation User where
  name := .users
  table l := l.users
  withTable l users := { l with users }
  columns := [
    .text .users "username" (·.username) fun username u => { u with username },
    .text .users "password" (·.passwordHash) fun passwordHash u => { u with passwordHash },
    .optionalInteger "fixed_currency_id" (·.fixedCurrency)
      fun fixedCurrency u => { u with fixedCurrency },
    .flag .users "enabled" (·.enabled) fun enabled u => { u with enabled }]
  keyColumns := qualified .users ["username"]
  key r := [.text r.data.username]
  references u := u.fixedCurrency.toList
  resolves l u := u.fixedCurrency.all l.currencies.contains
  isReferenced l id := l.usesUser id
  remove l p := l.removeUsers p

instance : Relation Currency where
  name := .currencies
  table l := l.currencies
  withTable l currencies := { l with currencies }
  columns := [
    .integer .currencies "user_id" (·.owner) fun owner c => { c with owner },
    .text .currencies "name" (·.name) fun name c => { c with name },
    .real .currencies "rate_to_fixed" (·.rate) fun rate c => { c with rate },
    .flag .currencies "archived" (·.archived) fun archived c => { c with archived }]
  keyColumns := qualified .currencies ["user_id", "name"]
  key r := [r.cell "user_id" (.integer r.data.owner), .text r.data.name]
  references c := [c.owner]
  resolves l c := l.users.contains c.owner
  isReferenced l id :=
    l.usesCurrency id || l.users.rows.any fun u => u.data.fixedCurrency == some id
  remove l p := l.removeCurrencies p

instance : Relation Category where
  name := .categories
  table l := l.categories
  withTable l categories := { l with categories }
  columns := [
    .integer .categories "user_id" (·.owner) fun owner c => { c with owner },
    .text .categories "name" (·.name) fun name c => { c with name },
    .flag .categories "archived" (·.archived) fun archived c => { c with archived }]
  keyColumns := qualified .categories ["user_id", "name"]
  key r := [r.cell "user_id" (.integer r.data.owner), .text r.data.name]
  references c := [c.owner]
  resolves l c := l.users.contains c.owner
  isReferenced l id := l.usesCategory id
  remove l p := l.removeCategories p

instance : Relation Source where
  name := .sources
  table l := l.sources
  withTable l sources := { l with sources }
  columns := [
    .integer .sources "user_id" (·.owner) fun owner s => { s with owner },
    .text .sources "name" (·.name) fun name s => { s with name },
    .integer .sources "currency_id" (·.currency) fun currency s => { s with currency },
    .real .sources "amount" (·.amount) fun amount s => { s with amount },
    .flag .sources "archived" (·.archived) fun archived s => { s with archived }]
  keyColumns := qualified .sources ["user_id", "name"]
  key r := [r.cell "user_id" (.integer r.data.owner), .text r.data.name]
  references s := [s.owner, s.currency]
  resolves l s := l.users.contains s.owner && l.currencies.contains s.currency
  isReferenced l id := l.usesSource id
  remove l p := l.removeSources p

instance : Relation StoredEntry where
  name := .entries
  table l := l.entries
  withTable l entries := { l with entries }
  columns := [
    .integer .entries "user_id" (·.owner) fun owner e => { e with owner },
    .text .entries "description" (·.description) fun description e => { e with description },
    .integer .entries "category_id" (·.category) fun category e => { e with category },
    .real .entries "amount" (·.amount) fun amount e => { e with amount },
    .text .entries "date" (·.date) fun date e => { e with date },
    .text .entries "created_at" (·.createdAt) fun createdAt e => { e with createdAt },
    .integer .entries "currency_id" (·.currency) fun currency e => { e with currency },
    .kind .entries "entry_type" (·.kind) fun kind e => { e with kind },
    .integer .entries "source_id" (·.source) fun source e => { e with source },
    .optionalInteger "secondary_source_id" (·.secondary) fun secondary e => { e with secondary },
    .optionalReal "conversion_rate" (·.rate) fun rate e => { e with rate },
    .real .entries "conversion_rate_to_fixed" (·.rateToFixed)
      fun rateToFixed e => { e with rateToFixed },
    .flag .entries "archived" (·.archived) fun archived e => { e with archived },
    .optionalText "target" (·.target) fun target e => { e with target }]
  references e := [e.owner, e.category, e.currency, e.source] ++ e.secondary.toList
  resolves l e := l.users.contains e.owner && l.categories.contains e.category
    && l.currencies.contains e.currency && l.sources.contains e.source
    && e.secondary.all l.sources.contains
  remove l p := .ok (l.removeEntries p)

/-- A kind of row with an owner, which can be archived. -/
class Owned (ρ : Type) extends Relation ρ where
  owner : ρ → Int
  archived : ρ → Bool

/-- A kind of row with an owner and a name. -/
class Named (ρ : Type) extends Owned ρ where
  rowName : ρ → String

instance : Named Currency where
  owner := Currency.owner
  archived := Currency.archived
  rowName := Currency.name

instance : Named Category where
  owner := Category.owner
  archived := Category.archived
  rowName := Category.name

instance : Named Source where
  owner := Source.owner
  archived := Source.archived
  rowName := Source.name

instance : Owned StoredEntry where
  owner := StoredEntry.owner
  archived := StoredEntry.archived

/-- The cell that holds the owner of a row. -/
def ownerCell {ρ : Type} [Owned ρ] (r : Row ρ) : Cell :=
  r.cell "user_id" (.integer (Owned.owner r.data))

/-! ## Changing a ledger -/

namespace Ledger

variable {ρ : Type} [Relation ρ]

/-- Whether two rows have the same key. -/
def clash (a b : Row ρ) : Bool :=
  let key := Relation.key a
  !key.isEmpty && (key.zip (Relation.key b)).all fun (x, y) => x.same y

/-- Whether a column of references has a cell that is no integer, and so refers to no row. -/
def refersToNothing (r : Row ρ) : Bool :=
  r.odd.any fun (name, _) =>
    (Relation.columns (ρ := ρ)).any fun c => c.name == name && c.type == .integer

/-- A row stored among the others, if no key is used twice and every reference resolves; references
are looked at only if `enforce` is set. -/
def checked (enforce : Bool) (l : Ledger) (others : List (Row ρ)) (r : Row ρ) : Stored (Row ρ) :=
  if others.any (fun other => other.id == r.id) then
    .error (.duplicate (qualified (Relation.name ρ) ["id"]))
  else if others.any (fun other => clash other r) then
    .error (.duplicate (Relation.keyColumns ρ))
  else if enforce && (refersToNothing r || !Relation.resolves l r.data) then .error .reference
  else .ok r

/-- The ledger with a new row, and the row's id. -/
def insert (enforce : Bool) (l : Ledger) (a : ρ) : Stored (Int × Ledger) := do
  let t := Relation.table (ρ := ρ) l
  let r ← checked enforce l t.rows { id := t.nextId, data := a }
  .ok (t.nextId, Relation.withTable l (t.insert r.data))

/-- The rank of a breach among several of one statement: an id that is none comes first, then
columns that must not be empty, domains, keys and references. -/
def rank : Breach → Nat
  | .mismatch => 0
  | .empty _ _ => 1
  | .domain _ => 2
  | .duplicate _ => 3
  | .reference => 4

/-- The breach of least rank, the first of several such. -/
def firstBreach? (bs : List Breach) : Option Breach :=
  bs.foldl (fun best b => match best with
    | none => some b
    | some a => if rank b < rank a then some b else some a) none

/-- A row with cells stored in some of its columns, in the order of the columns. -/
def assigned (columns : List (Column ρ)) (cells : List (String × Cell)) (r : Row ρ) :
    Stored (Row ρ) :=
  let step (acc : Row ρ × List Breach) (c : Column ρ) : Row ρ × List Breach :=
    match cells.lookup c.name with
    | none => acc
    | some cell =>
      match c.store cell acc.1 with
      | .ok r => (r, acc.2)
      | .error b => (acc.1, acc.2 ++ [b])
  let (r, breaches) := columns.foldl step (r, [])
  match firstBreach? breaches with
  | none => .ok r
  | some b => .error b

/-- A row under another id, if the cell holds one. -/
def renumbered (id : Option Cell) (r : Row ρ) : Stored (Row ρ) :=
  match id with
  | none => .ok r
  | some c =>
    match c.integer? with
    | some id => .ok { r with id }
    | none => .error .mismatch

/-- The ledger with one row changed, and the number of rows that were changed. A row that others
refer to keeps its id if references must resolve. -/
def update (enforce : Bool) (l : Ledger) (p : Row ρ → Bool) (change : Row ρ → Stored (Row ρ)) :
    Stored (Nat × Ledger) := do
  let t := Relation.table (ρ := ρ) l
  match t.rows.find? p with
  | none => .ok (0, l)
  | some old => do
    let r ← change old
    let r ← checked enforce l (t.rows.filter fun other => other.id != old.id) r
    if enforce && r.id != old.id && Relation.isReferenced (ρ := ρ) l old.id then .error .reference
    else .ok (1, Relation.withTable l (t.replace old.id r))

/-- The ledger without the selected rows, and how many they were. Without enforcement nothing else
changes. -/
def remove (enforce : Bool) (l : Ledger) (p : Row ρ → Bool) : Stored (Nat × Ledger) := do
  let t := Relation.table (ρ := ρ) l
  let n := t.count p
  if enforce then
    let l ← Relation.remove l p
    .ok (n, l)
  else .ok (n, Relation.withTable l (t.erase p))

end Ledger

end Bookkeeping.Store
