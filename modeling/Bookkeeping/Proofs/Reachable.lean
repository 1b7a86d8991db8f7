import Bookkeeping.Store.Schema
import Bookkeeping.Proofs.Execution

/-! # What calls can lead to

The databases that come about when a database is migrated and calls are made on it, one after the
other and each outside of any block. The calls may succeed or fail, and may be made in
sessions of any kind: by whatever clock and password scheme, with or without enforced references,
broken off at any statement. All that is asked of them is that what stands where an id belongs is of
the type of ids.
-/

namespace Bookkeeping

/-- The integer that a value of the type of ids stands for; truth values count as 0 and 1. -/
def Value.id? : Value → Option Int
  | .int n => some n
  | .bool b => some (if b then 1 else 0)
  | _ => none

/-- Whether a value is of the type of ids or was not given. -/
def Value.isId (v : Value) : Bool := v.isNull || v.id?.isSome

/-- The parts of a request that are ids. -/
def EntryRequest.ids (r : EntryRequest) : List Value := [r.category, r.currency, r.source, r.secondary]

end Bookkeeping

namespace Bookkeeping.Service

open Store

/-- The arguments of a call that are ids. A request that is read from fields brings none along,
since reading it takes care of their types. What is put over a request is not read, so the ids among
it are arguments like others, although anything may be given there. -/
def Call.ids : Call → List Value
  | createUser _ _ => []
  | registerUser _ _ _ => []
  | getUser user => [user]
  | getUserByUsername _ => []
  | verifyCredentials _ _ => []
  | changePassword user _ _ => [user]
  | setEnabled user _ => [user]
  | setFixedCurrency user currency => [user, currency]
  | deleteUser user => [user]
  | createCurrency user _ _ => [user]
  | updateCurrency user id _ _ => [user, id]
  | createCategory user _ => [user]
  | createSource user _ currency _ => [user, currency]
  | rename _ user id _ => [user, id]
  | archive _ user id => [user, id]
  | restore _ user id => [user, id]
  | delete _ user id => [user, id]
  | get _ user id => [user, id]
  | getByName _ user _ => [user]
  | list _ user _ => [user]
  | createEntry user none _ => [user]
  | createEntry user (some r) fields =>
    user :: (if fields.isEmpty then r else r.override fields).ids
  | getEntry user id => [user, id]
  | listEntries user filter => [user, filter.source]
  | archiveEntry user id => [user, id]
  | restoreEntry user id => [user, id]
  | deleteEntry user id => [user, id]

/-- A call whose ids are of their type. -/
def Call.Typed (c : Call) : Prop := ∀ v ∈ c.ids, v.isId = true

end Bookkeeping.Service

namespace Bookkeeping.Store

open Service

/-- The layout that the migrations lead to. -/
def Layout.full : Layout where
  tables := true
  target := true
  indices := Index.all
  history := true

/-- A migrated database without any rows. -/
def Database.migrated : Database where
  layout := .full
  history := Migration.all.map Migration.name

@[simp] theorem Layout.full_tables : Layout.full.tables = true := rfl

@[simp] theorem Layout.full_target : Layout.full.target = true := rfl

/-! ## Migrating -/

/-- The database between the two migrations. -/
def Database.tabled : Database where
  layout := { tables := true, history := true }
  history := [Migration.tables.name]

theorem settle_tables :
    ({ layout := { history := true } } : Database).settle Migration.tables.applied
      = (.ok (), .tabled) := rfl

theorem settle_indices :
    Database.tabled.settle Migration.indices.applied = (.ok (), .migrated) := by
  have hd : (Database.tabled.settle Migration.indices.applied).2 = .migrated := by decide +kernel
  have hr : (Database.tabled.settle Migration.indices.applied).1.isOk = true := by decide +kernel
  cases h : Database.tabled.settle Migration.indices.applied with
  | mk r db =>
    rw [h] at hd hr
    cases r with
    | ok u => exact congrArg (Prod.mk (Except.ok u)) hd
    | error e => cases hr

theorem settle_change (db : Database) (f : Database → Database) :
    db.settle (.change f) = (.ok (), f db) := rfl

theorem exec_alter (script : Script) {s : Session} {r : Except Failure Unit} {db : Database}
    (ho : s.isOpen = false) (h : s.database.settle script = (r, db)) :
    (alter script).exec s = (r, { s with database := db }) := by
  simp [alter, ho, h]

theorem migrate_ok (m : Migration) {s : Session} {db : Database} (ho : s.inTransaction = false)
    (h : s.database.settle m.applied = (.ok (), db)) :
    ∃ t, (migrate m).exec s = (.ok (), t) ∧ t.database = db ∧ t.inTransaction = false := by
  rw [migrate, Op.exec_bind, Op.exec_tryCatch,
    exec_alter _ (Session.isOpen_of_outside ho) h]
  exact ⟨_, rfl, rfl, ho⟩

/-- Migrating an empty database makes the one that all others come from. -/
theorem migrateUp_empty (path : Value) {s : Session} (hd : s.database = {})
    (ho : s.inTransaction = false) :
    ((migrateUp Migration.all path).exec s).2.database = Database.migrated := by
  have hp : Migration.pending Migration.all [] = [Migration.tables, Migration.indices] := rfl
  have hh : history.exec s
      = (.ok [], { s with database := { layout := { history := true } } }) := by
    rw [history, Op.exec_bind, Op.exec_get]
    simp only [hd, Bool.not_false, if_true]
    rw [Op.exec_bind_ok (exec_alter _ (Session.isOpen_of_outside ho) (settle_change _ _)),
      Op.exec_pure, hd]
  obtain ⟨t, ht, htd, hto⟩ := migrate_ok Migration.tables
    (s := { s with database := { layout := { history := true } } }) ho settle_tables
  obtain ⟨u, hu, hud, -⟩ := migrate_ok Migration.indices (s := t) hto (htd ▸ settle_indices)
  have he : (migrateEach [Migration.tables, Migration.indices]).exec
      { s with database := { layout := { history := true } } } = (.ok (), u) := by
    rw [migrateEach, Op.exec_bind, ht]
    simp only [migrateEach, Op.exec_bind, hu, Op.exec_pure]
  simp only [migrateUp, Op.exec_bind, hh, hp, List.isEmpty_cons, Bool.false_eq_true, if_false, he,
    Op.exec_pure]
  exact hud

/-! ## Calling -/

/-- A database that calls can lead to. -/
inductive Reachable : Database → Prop
  | migrated : Reachable .migrated
  | call {s : Session} {c : Call} (hd : Reachable s.database) (ho : s.inBlock = false)
      (hc : c.Typed) : Reachable (c.run.exec s).2.database

/-- The session after calls that are made on it one after the other. -/
def Session.after (s : Session) (calls : List Call) : Session :=
  calls.foldl (fun s c => (c.run.exec s).2) s

/-- A session on a migrated database, in which passwords are kept as they are. -/
def newSession : Session where
  database := .migrated
  scheme := ⟨fun _ password => password, fun hash password => hash == password⟩
  now := "2024-01-25T09:30:00"
  path := "ledger.db"

/-- The call that makes a user and the currency that the user reports in. -/
def registration : Call := .registerUser (.text "ann") (.text "secret") (.text "EUR")

/-- The calls up to a first entry. -/
def firstSpending : List Call :=
  [registration, .createCategory (.int 1) (.text "Food"),
    .createSource (.int 1) (.text "Cash") (.int 1) (.float 20),
    .createEntry (.int 1)
      (some { description := .text "Bread", category := .int 1, amount := .float 3,
              date := .text "2024-01-25", currency := .int 1, kind := .text "spend",
              source := .int 1 }) []]

end Bookkeeping.Store
