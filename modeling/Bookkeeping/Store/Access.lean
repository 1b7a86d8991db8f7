import Bookkeeping.Store.Assignment
import Bookkeeping.Store.Session

/-! # Reading and writing rows

The statements on the tables of a ledger. A statement finds out first whether its table and columns
exist, then stores its parameters in cells, and then works on the rows; what it breaks becomes a
rejection. Rows that were found are read as records after the statement is done, so a row that is no
record fails outside of it.
-/

namespace Bookkeeping.Store

open Calendar

/-- A kind of row, stored as `ρ`, for a kind of record. -/
class Persistent (ρ : Type) (α : outParam Type) extends Relation ρ where
  /-- The row of a record that is stored at a given time. -/
  encode : String → α → ρ
  /-- The record of a row. -/
  decode : Layout → Row ρ → Except Failure (Row α)

/-- Fields with the odd cells of a row in place of what its data has. -/
def withOdd (odd : List (String × Cell)) (fields : List (String × Value)) : List (String × Value) :=
  fields.map fun (name, v) => (name, ((odd.lookup name).map Cell.toValue).getD v)

/-- A row that holds its record, read anew. -/
def reread {α : Type} [Record α] (r : Row α) : Except Failure (Row α) := do
  let fields := withOdd r.odd (Record.fields (α := α) ⟨some r.id, r.data⟩)
  let item ← (Record.read fields).orFail (Record.title α)
  .ok { id := r.id, data := item.data }

instance : Persistent User User where
  encode _ u := u
  decode _ r := reread r

instance : Persistent Currency Currency where
  encode _ c := { c with rate := unsigned c.rate }
  decode _ r := reread r

instance : Persistent Category Category where
  encode _ c := c
  decode _ r := reread r

instance : Persistent Source Source where
  encode _ s := { s with amount := unsigned s.amount }
  decode _ r := reread r

namespace StoredEntry

/-- The row of an entry. An entry without a time of creation gets the given one. -/
def ofEntry (now : String) (e : Entry) : StoredEntry where
  owner := e.owner
  description := e.description
  category := e.category
  amount := unsigned e.amount
  date := e.date.toText
  createdAt := (e.createdAt.map Moment.toText).getD now
  currency := e.currency
  kind := e.kind
  source := e.source
  secondary := e.secondary
  rate := e.rate.map unsigned
  rateToFixed := unsigned e.rateToFixed
  archived := e.archived
  target := e.target

/-- The moment of a stored text. -/
def moment (s : String) : Except Failure Moment :=
  (Moment.ofIso s).mapError fun fault => .badValue fault.message

/-- The entry of a row. -/
def toEntry (layout : Layout) (r : Row StoredEntry) : Except Failure (Row Entry) := do
  if !layout.target then .error (.misuse .noKey)
  else
    let e := r.data
    let date ← moment e.date
    let createdAt ← if e.createdAt == "" then .ok none else some <$> moment e.createdAt
    let data : Entry :=
      { owner := e.owner, description := e.description, target := e.target, category := e.category,
        amount := e.amount, date, createdAt, currency := e.currency, kind := e.kind,
        source := e.source, secondary := e.secondary, rate := e.rate, rateToFixed := e.rateToFixed,
        archived := e.archived }
    reread { id := r.id, data, odd := r.odd }

end StoredEntry

instance : Persistent StoredEntry Entry where
  encode := StoredEntry.ofEntry
  decode := StoredEntry.toEntry

/-! ## Parts of statements -/

/-- The cell of a parameter. -/
def param (v : Value) : Except Failure Cell := (Cell.ofValue v).mapError .misuse

/-- The result of a change. A constraint that the change would break is noted, and the change is
rejected for it. -/
def obey {α : Type} (table : TableName) (deleting : Bool) (r : Stored α) : Op α :=
  Op.of fun s =>
    match r with
    | .ok a => (.ok a, s)
    | .error b => (.error (.rejected (b.rejection table deleting)),
        { s with breaches := s.breaches ++ [b] })

/-- The records of rows. -/
def decodeAll {ρ α : Type} [Persistent ρ α] (layout : Layout) :
    List (Row ρ) → Except Failure (List (Row α))
  | [] => .ok []
  | r :: rs => do
    let a ← Persistent.decode layout r
    let as ← decodeAll layout rs
    .ok (a :: as)

variable (ρ : Type) {α : Type} [Persistent ρ α]

/-- Runs a statement that only reads. -/
def select {β : Type} (run : Ledger → Except Failure β) : Op β :=
  statement fun s => do
    let l ← s.database.open? (Relation.name ρ)
    let b ← run l
    .ok (b, s.database)

/-- The row that a condition picks, as a record. -/
def selectOne {γ : Type} (params : Except Failure γ) (p : γ → Row ρ → Bool) :
    Op (Option (Row α)) := do
  let found ← select ρ fun l => do
    let c ← params
    .ok ((Relation.table (ρ := ρ) l).rows.find? (p c))
  match found with
  | none => pure none
  | some r => do
    let layout := (← get).database.layout
    some <$> Op.lift (Persistent.decode layout r)

/-- The rows that a condition picks, as records. -/
def selectAll {γ : Type} (params : Except Failure γ) (pick : γ → List (Row ρ) → List (Row ρ)) :
    Op (List (Row α)) := do
  let rows ← select ρ fun l => do
    let c ← params
    .ok (pick c (Relation.table (ρ := ρ) l).rows)
  let layout := (← get).database.layout
  Op.lift (decodeAll layout rows)

/-- Runs a statement that changes rows, unless they would break a constraint. -/
def change {β : Type} (deleting : Bool) (run : Session → Except Failure (Stored (β × Ledger))) :
    Op β :=
  transaction do
    let changed ← statement fun s => do
      match ← run s with
      | .ok (b, l) => .ok (Except.ok b, s.database.withLedger l)
      | .error b => .ok (.error b, s.database)
    obey (Relation.name ρ) deleting changed

/-- Runs a statement that changes rows of its table. -/
def write {β : Type} (deleting : Bool)
    (run : Session → Ledger → Except Failure (Stored (β × Ledger))) : Op β :=
  change ρ deleting fun s => do
    let l ← s.database.open? (Relation.name ρ)
    run s l

/-! ## Statements on any table -/

/-- The row of an id. -/
def find (id : Value) : Op (Option (Row α)) :=
  selectOne ρ (param id) fun c r => c.isInteger (.integer r.id)

/-- A part of a list: some members are dropped, and at most `limit` of the rest are kept, all if it
is negative. -/
def page {β : Type} (limit offset : Int) (l : List β) : List β :=
  let rest := l.drop offset.toNat
  if limit < 0 then rest else rest.take limit.toNat

/-- All rows, or a page of them if there is a limit that counts as true. -/
def findAll (limit : Value := .null) (offset : Value := .int 0) : Op (List (Row α)) :=
  if limit.truthy then
    selectAll ρ
      (do
        let limit ← param limit
        let offset ← param offset
        match limit.integer?, offset.integer? with
        | some n, some k => .ok (n, k)
        | _, _ => .error (.misuse .mismatch))
      fun (n, k) rows => page n k rows
  else selectAll ρ (.ok ()) fun _ rows => rows

/-- The number of rows. -/
def count : Op Nat := select ρ fun l => .ok (Relation.table (ρ := ρ) l).rows.length

/-- Whether every reference of a row fits into 64 bits. -/
def storable (a : ρ) : Except Failure Unit :=
  if (Relation.references a).all fitsInteger then .ok () else .error (.misuse .overflow)

/-- Stores a new record and gives it back as it is stored. -/
def insert (a : α) : Op (Row α) := do
  let id ← transaction <| abandoning <| write ρ false fun s l => do
    if (Relation.columns (ρ := ρ)).length != (s.database.layout.columns (ρ := ρ)).length then
      .error (.operational
        ("table " ++ (Relation.name ρ).text ++ " has no column named target"))
    else
      let row := Persistent.encode s.now a
      storable ρ row
      if (Relation.table (ρ := ρ) l).isFull then .error (.operational noRoom)
      else .ok (l.insert s.enforce row)
  match ← find ρ (.int id) with
  | some r => pure r
  | none => Op.fail (.misuse .noAttribute)

/-- The first of some columns that a table does not have. -/
def missingColumn? (layout : Layout) (fields : List (String × Value)) : Option String :=
  (fields.map Prod.fst).find? fun f => !(layout.columns (ρ := ρ)).any fun c => c.name == f

/-- The cells of named values. -/
def paramFields : List (String × Value) → Except Failure (List (String × Cell))
  | [] => .ok []
  | (k, v) :: rest => do
    let c ← param v
    let cs ← paramFields rest
    .ok ((k, c) :: cs)

/-- Changes some columns of a row; says whether there is one. -/
def update (id : Value) (fields : List (String × Value)) : Op Bool :=
  if fields.isEmpty then pure false
  else do
    let n ← write ρ false fun s l =>
      match missingColumn? ρ s.database.layout fields with
      | some column => .error (.operational ("no such column: " ++ column))
      | none => do
        let cells ← paramFields fields
        let c ← param id
        .ok (l.update s.enforce (fun r => c.isInteger (.integer r.id))
          (Ledger.assigned (s.database.layout.columns (ρ := ρ)) cells))
    pure (0 < n)

/-- Changes columns of a row that the caller names in a statement; says whether there is one. -/
def updateNamed (id : Value) (fields : List (String × Value)) : Op Bool :=
  if fields.isEmpty then pure false
  else do
    let n ← change ρ false fun s => do
      let u ← Update.named (fields.map Prod.fst)
      let l ← s.database.open? (Relation.name ρ)
      let columns := s.database.layout.columns (ρ := ρ)
      let u ← u.fitting columns (fields.length + 1)
      let params ← (Cell.ofValues (fields.map Prod.snd ++ [id])).mapError .misuse
      .ok (l.update s.enforce (u.picks columns params) (u.apply columns params))
    pure (0 < n)

/-- Removes a row; says whether there was one. -/
def delete (id : Value) : Op Bool := do
  let n ← write ρ true fun s l => do
    let c ← param id
    .ok (l.remove s.enforce fun r : Row ρ => c.isInteger (.integer r.id))
  pure (0 < n)

end Bookkeeping.Store
