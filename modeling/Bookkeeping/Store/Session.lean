import Bookkeeping.Log.Event
import Bookkeeping.Password.Scheme
import Bookkeeping.Store.Breach
import Bookkeeping.Store.Database

/-! # Sessions

A session is a database in use. Operations run one after another; each may change the session, and
may fail, keeping what it has changed so far. A block makes the changes of an operation come all or
not at all: the outermost block begins a transaction of the engine, commits it at the end and undoes
it if the operation fails, and a block inside another one merely joins it.

The engine may refuse to do its part. Some failures make it undo the transaction by itself, at once;
then the rest of the block goes on without one, and its end finds none to commit or to undo. If a
transaction cannot be committed because somebody else is at the database, it stays open, and no other
one can begin. Whatever a session logs stays logged, and so does every constraint that a statement
would have broken.
-/

namespace Bookkeeping.Store

/-- An end of a transaction. -/
inductive Boundary where
  | begun
  | committed
  | rolledBack
  deriving DecidableEq, Repr

/-- Where a session is among blocks. -/
inductive Standing where
  | outside
  /-- In a block. If its transaction is undone, the given database is back. -/
  | inside (before : Database)
  /-- In a block whose transaction the engine has undone by itself. What is written now stays. -/
  | bereft

/-- Why the engine does not do what it is told. -/
inductive Trouble where
  /-- Somebody else is at the database. -/
  | lock
  /-- The file cannot be read or written. -/
  | fault
  deriving DecidableEq, Repr

/-- What keeps the engine from doing what it is told. -/
inductive Hindrance where
  /-- A trouble that the engine runs into after some more statements. The beginning and the commit of
  a transaction are statements, too. -/
  | trouble (after : Nat) (t : Trouble)
  /-- A transaction that could not be committed, with the database as it has changed it. -/
  | pending (changed : Database)

/-- A database in use. -/
structure Session where
  /-- The database as everybody sees it; within a block, as the block has changed it. -/
  database : Database := {}
  /-- Whether references must resolve. -/
  enforce : Bool := true
  /-- How passwords are kept. -/
  scheme : PasswordScheme
  /-- The number of salts used so far. -/
  salts : Nat := 0
  /-- The time that new entries are stamped with. -/
  now : String
  /-- The name under which the database appears in log events. -/
  path : String
  standing : Standing := .outside
  /-- The ends of transactions so far. -/
  boundaries : List Boundary := []
  /-- How many balance shifts are left before one is broken off from outside, if any is to be. -/
  fuse : Option Nat := none
  /-- What the engine is hindered by, if it is. -/
  breaks : Option Hindrance := none
  /-- The constraints that statements were refused for so far. -/
  breaches : List Breach := []
  log : List Log.Event := []

/-- An operation on a session. -/
abbrev Op (α : Type) : Type := ExceptT Failure (StateM Session) α

namespace Op

variable {α : Type}

/-- Runs an operation. -/
def exec (op : Op α) (s : Session) : Except Failure α × Session := op.run.run s

/-- The operation with a given effect. -/
def of (f : Session → Except Failure α × Session) : Op α := ExceptT.mk fun s => f s

/-- The operation that only computes. -/
def lift (r : Except Failure α) : Op α := ExceptT.mk (pure r)

/-- Fails. -/
def fail (e : Failure) : Op α := lift (.error e)

/-- Fails with a rejection. -/
def reject (r : Rejection) : Op α := fail (.rejected r)

end Op

namespace Session

/-- Whether a session is in a block. -/
def inBlock (s : Session) : Bool :=
  match s.standing with
  | .outside => false
  | .inside _ | .bereft => true

/-- Whether a transaction that could not be committed is still open. -/
def isPending (s : Session) : Bool :=
  match s.breaks with
  | some (.pending _) => true
  | _ => false

/-- Whether a session is in a block, or has left one whose transaction is still open. -/
def inTransaction (s : Session) : Bool := s.inBlock || s.isPending

/-- Whether the session has a transaction of the engine open. -/
def isOpen (s : Session) : Bool :=
  match s.standing with
  | .inside _ => true
  | .outside | .bereft => s.isPending

/-- The database as the session itself sees it. What a transaction that is still open has changed is
seen by nobody else. -/
def view (s : Session) : Database :=
  match s.breaks with
  | some (.pending changed) => changed
  | _ => s.database

/-- The trouble that the next statement runs into. -/
def trouble? (s : Session) : Option Trouble :=
  match s.breaks with
  | some (.trouble 0 t) => some t
  | _ => none

/-- What the engine is hindered by after one more statement. -/
def hindrance (s : Session) : Option Hindrance :=
  match s.breaks with
  | some (.trouble (n + 1) t) => some (.trouble n t)
  | h => h

/-! ## Transactions of the engine -/

/-- The session in an outermost block, whose transaction has begun. -/
def start (s : Session) : Session :=
  { s with standing := .inside s.database, boundaries := s.boundaries ++ [.begun]
           breaks := s.hindrance }

/-- The session after an outermost block whose transaction is committed. -/
def commit (s : Session) : Session :=
  { s with standing := .outside, boundaries := s.boundaries ++ [.committed], breaks := s.hindrance }

/-- The session when the engine has undone the transaction by itself. -/
def abandon (s : Session) : Session :=
  match s.standing with
  | .inside before => { s with database := before, standing := .bereft }
  | .outside | .bereft => s

/-- The session after an outermost block that ended without a transaction. -/
def leave (s : Session) : Session := { s with standing := .outside }

/-- What is logged when a block fails. -/
def rollbackEvent (path : String) : Log.Event :=
  ⟨.debug, Log.Part.store.logger, "Transaction rolled back", [("db_path", .text path)]⟩

/-- The session after an outermost block that failed. Its transaction is undone if it is there. -/
def rollBack (s : Session) : Session :=
  let log := s.log ++ [rollbackEvent s.path]
  match s.standing with
  | .inside before =>
    { s with database := before, standing := .outside, boundaries := s.boundaries ++ [.rolledBack]
             log }
  | .outside | .bereft => { s with standing := .outside, log }

/-- The session after an outermost block whose transaction could not be committed, because somebody
else is at the database. -/
def leaveOpen (s : Session) : Session :=
  match s.standing with
  | .inside before =>
    { s with database := before, standing := .outside, breaks := some (.pending s.database) }
  | .outside | .bereft => s

end Session

/-- The failure of a trouble. -/
def Trouble.failure : Trouble → Failure
  | lock => .operational "database is locked"
  | fault => .operational "disk I/O error"

/-- Counts a statement, which may be the one that runs into trouble. -/
def countStatement : Op Unit :=
  Op.of fun s =>
    match s.trouble? with
    | none => (.ok (), { s with breaks := s.hindrance })
    | some .lock => (.error Trouble.lock.failure, { s with breaks := none })
    | some .fault => (.error Trouble.fault.failure, { s.abandon with breaks := none })

/-- Begins the transaction of an outermost block. -/
def openBlock : Op Unit :=
  Op.of fun s =>
    if s.isPending then
      (.error (.operational "cannot start a transaction within a transaction"), s)
    else
      match s.trouble? with
      | none => (.ok (), s.start)
      | some t => (.error t.failure, { s with breaks := none })

/-- Commits the transaction of an outermost block. -/
def closeBlock : Op Unit :=
  Op.of fun s =>
    match s.standing, s.trouble? with
    | .bereft, _ => (.error (.operational "cannot commit - no transaction is active"), s.leave)
    | .inside _, some .lock => (.error Trouble.lock.failure, s.leaveOpen)
    | .inside _, some .fault => (.error Trouble.fault.failure, { s.abandon.leave with breaks := none })
    | _, _ => (.ok (), s.commit)

/-- Runs the operation of an outermost block, and undoes its transaction if it fails. -/
def undoing {α : Type} (body : Op α) : Op α :=
  Op.of fun s =>
    match body.exec s with
    | (.ok a, t) => (.ok a, t)
    | (.error e, t) => (.error e, t.rollBack)

/-- Runs an operation in a block. Within another block it merely joins that one. -/
def transaction {α : Type} (body : Op α) : Op α := do
  if (← get).inBlock then body
  else
    openBlock
    let a ← undoing body
    closeBlock
    pure a

/-- What the engine answers when there is no room for another row. -/
def noRoom : String := "database or disk is full"

/-- Runs an operation that needs room for a row. If there is none, the engine undoes the transaction
by itself. -/
def abandoning {α : Type} (body : Op α) : Op α :=
  Op.of fun s =>
    match body.exec s with
    | (.error (.operational m), t) => (.error (.operational m), if m == noRoom then t.abandon else t)
    | (r, t) => (r, t)

/-- Gives what is made of the session, which goes on with the new database. -/
def replacing {α : Type} (run : Session → Except Failure (α × Database)) : Op α :=
  Op.of fun s =>
    match run s with
    | .ok (a, db) => (.ok a, { s with database := db })
    | .error e => (.error e, s)

/-- Runs one statement: it sees the session, and gives a result with the new database. -/
def statement {α : Type} (run : Session → Except Failure (α × Database)) : Op α :=
  transaction do
    countStatement
    replacing run

/-- Logs an event. -/
def emit (level : Log.Level) (part : Log.Part) (event : String)
    (fields : List (String × Value) := []) : Op Unit :=
  Op.of fun s => (.ok (), { s with log := s.log ++ [⟨level, part.logger, event, fields⟩] })

/-- The text kept for a password, under a fresh salt. -/
def hashed (password : String) : Op String :=
  Op.of fun s => (.ok (s.scheme.hash s.salts password), { s with salts := s.salts + 1 })

end Bookkeeping.Store
