import Bookkeeping.Store.Ledger

/-! # Databases

A database holds the tables of a ledger as far as its layout has them. The layout grows and shrinks
by migrations, of which the database keeps a history.
-/

namespace Bookkeeping.Store

/-- An index on a column of a table. -/
structure Index where
  name : String
  table : TableName
  column : String
  deriving DecidableEq, Repr

/-- Which parts of the full layout a database has. -/
structure Layout where
  /-- The five tables. -/
  tables : Bool := false
  /-- The column of the other party in the table of entries. -/
  target : Bool := false
  indices : List Index := []
  /-- The table of applied migrations. -/
  history : Bool := false
  deriving DecidableEq, Repr

/-- A database. -/
structure Database where
  layout : Layout := {}
  ledger : Ledger := {}
  /-- The names of the applied migrations, the oldest first. -/
  history : List String := []
  deriving DecidableEq

namespace Layout

/-- The columns of a table that a layout has, without the id. -/
def columns {ρ : Type} [Relation ρ] (layout : Layout) : List (Column ρ) :=
  (Relation.columns (ρ := ρ)).filter fun c => layout.target || c.name != "target"

/-- The names of all columns of a table, with the id in front. -/
def columnNames (ρ : Type) [Relation ρ] (layout : Layout) : List String :=
  "id" :: (layout.columns (ρ := ρ)).map Column.name

end Layout

namespace Database

/-- The tables of a database, or the answer of an engine that misses the named one. -/
def open? (db : Database) (name : TableName) : Except Failure Ledger :=
  if db.layout.tables then .ok db.ledger
  else .error (.operational ("no such table: " ++ name.text))

/-- The database with other rows. -/
def withLedger (db : Database) (l : Ledger) : Database := { db with ledger := l }

end Database

end Bookkeeping.Store
