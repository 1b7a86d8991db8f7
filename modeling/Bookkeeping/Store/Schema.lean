import Bookkeeping.Store.Migration

/-! # The schema

The two migrations that make up the layout of a ledger's database: the first makes its tables, the
second adds the column of the other party and the indices. Together with them the schema says which
tables, columns and indices a database has.
-/

namespace Bookkeeping.Store

/-! ## Statements -/

/-- Makes the tables that are missing. -/
def createTables : Script :=
  Script.change fun db =>
    if db.layout.tables then db
    else { db with layout := { db.layout with tables := true }, ledger := {} }

/-- Drops the tables with their rows, columns and indices. -/
def dropTables : Script :=
  Script.change fun db =>
    { db with layout := { history := db.layout.history }, ledger := {} }

/-- Adds the column of the other party. -/
def addTarget : Script := do
  if !(← get).database.layout.tables then throw (.operational "no such table: entries")
  Script.change fun db => { db with layout := { db.layout with target := true } }

/-- The row of an entry that names no other party. -/
def Row.withoutTarget (r : Row StoredEntry) : Row StoredEntry :=
  r.put "target" { r.data with target := none }

/-- A ledger in which no entry names another party. -/
def Ledger.withoutTargets (l : Ledger) : Ledger :=
  { l with entries := l.entries.change (fun _ => true) Row.withoutTarget }

/-- Drops the column of the other party with what is in it. -/
def dropTarget : Script :=
  Script.change fun db =>
    { db with layout := { db.layout with target := false }, ledger := db.ledger.withoutTargets }

/-- Makes an index that is missing. -/
def createIndex (i : Index) : Script := do
  let layout := (← get).database.layout
  if !layout.tables then throw (.operational ("no such table: main." ++ i.table.text))
  if !layout.indices.contains i then
    Script.change fun db =>
      { db with layout := { db.layout with indices := db.layout.indices ++ [i] } }

/-- Drops an index that may be there. -/
def dropIndex (i : Index) : Script :=
  Script.change fun db =>
    { db with layout := { db.layout with indices := db.layout.indices.filter (· != i) } }

/-- Runs a script for each member of a list. -/
def Script.each {β : Type} (script : β → Script) : List β → Script
  | [] => pure ()
  | b :: rest => do
    script b
    Script.each script rest

/-! ## The migrations -/

/-- The indices of a full layout, in the order in which they are made. -/
def Index.all : List Index := [
  ⟨"idx_users_enabled", .users, "enabled"⟩,
  ⟨"idx_currencies_name", .currencies, "name"⟩,
  ⟨"idx_currencies_archived", .currencies, "archived"⟩,
  ⟨"idx_categories_name", .categories, "name"⟩,
  ⟨"idx_categories_archived", .categories, "archived"⟩,
  ⟨"idx_sources_name", .sources, "name"⟩,
  ⟨"idx_sources_amount", .sources, "amount"⟩,
  ⟨"idx_sources_archived", .sources, "archived"⟩,
  ⟨"idx_entries_amount", .entries, "amount"⟩,
  ⟨"idx_entries_date", .entries, "date"⟩,
  ⟨"idx_entries_created_at", .entries, "created_at"⟩,
  ⟨"idx_entries_entry_type", .entries, "entry_type"⟩,
  ⟨"idx_entries_archived", .entries, "archived"⟩,
  ⟨"idx_entries_target", .entries, "target"⟩]

namespace Migration

/-- The first migration. -/
def tables : Migration where
  name := "001_create_tables"
  upgrade := createTables
  downgrade := dropTables

/-- The second migration. -/
def indices : Migration where
  name := "002_add_indices"
  upgrade := do
    if !(← get).database.layout.target then addTarget
    Script.each createIndex Index.all
  downgrade := do
    Script.each dropIndex Index.all
    if (← get).database.layout.target then dropTarget

/-- The migrations of a ledger's database, in their order. -/
def all : List Migration := [tables, indices]

end Migration

/-! ## What a database has -/

/-- The columns of the table that keeps the history of migrations. -/
def historyColumns : List String := ["id", "migration_name", "applied_at"]

namespace Layout

/-- The columns of a table. -/
def columnsOf (layout : Layout) : TableName → List String
  | .users => layout.columnNames User
  | .currencies => layout.columnNames Currency
  | .categories => layout.columnNames Category
  | .sources => layout.columnNames Source
  | .entries => layout.columnNames StoredEntry

/-- The tables of a layout with their columns. -/
def schema (layout : Layout) : List (String × List String) :=
  (if layout.tables then TableName.all.map fun t => (t.text, layout.columnsOf t) else [])
    ++ if layout.history then [("migrations", historyColumns)] else []

/-- The names of the indices of a layout, in alphabetical order. -/
def indexNames (layout : Layout) : List String :=
  (layout.indices.map Index.name).mergeSort fun a b => a ≤ b

end Layout

end Bookkeeping.Store
