import Bookkeeping.Store.Schema
import Bookkeeping.Text.Blank

/-! # The migration command

The command line applies the pending migrations of a database, takes one back, or shows which are
applied. A command gives the text to print and an exit code.
-/

namespace Bookkeeping.Command

open Store

/-- What a command gives. -/
structure Outcome where
  code : Nat
  output : String
  deriving DecidableEq, Repr

/-- A command that went well. -/
def done (lines : List String) : Outcome := ⟨0, String.join (lines.map (· ++ "\n"))⟩

/-- A command that was not understood. -/
def refused (lines : List String) : Outcome := ⟨1, String.join (lines.map (· ++ "\n"))⟩

/-- How the command is used. -/
def usage : List String := [
  "Usage:",
  "  moneyledger-migrate up          - Apply all pending migrations",
  "  moneyledger-migrate down        - Rollback last migration",
  "  moneyledger-migrate down <name> - Rollback specific migration",
  "  moneyledger-migrate status      - Show migration status"]

/-- What is said about the applied migrations. -/
def upLines (names : List String) : List String :=
  if names.isEmpty then ["No pending migrations. Database is up to date."]
  else names.map ("Applied " ++ ·)

/-- What is said about a migration that was taken back. -/
def downLine : Option String → String
  | some name => "Rolled back " ++ name
  | none => "No migrations to rollback."

/-- What is said about which migrations are applied. -/
def statusLines (status : List (String × Bool)) : List String :=
  let line : String × Bool → String := fun (name, applied) =>
    Text.pad 30 name ++ " " ++ if applied then "applied" else "pending"
  let pending := status.countP fun (_, applied) => !applied
  status.map line
    ++ ["", "Total: " ++ toString status.length ++ " migrations, "
      ++ toString pending ++ " pending"]

/-- Whether a command line asks for anything of a database. -/
def usesDatabase (args : List String) : Bool :=
  args.head?.any fun command => ["up", "down", "status"].contains command

/-- Does what the command line asks for. -/
def run (migrations : List Migration) : List String → Op Outcome
  | [] => pure (refused usage)
  | "up" :: _ => (fun names => done (upLines names)) <$> migrateUp migrations .null
  | "down" :: rest =>
    (fun name => done [downLine name])
      <$> migrateDown migrations (Value.ofText? rest.head?)
  | "status" :: _ => (fun status => done (statusLines status)) <$> migrationStatus migrations
  | command :: _ => pure (refused ["Unknown command: " ++ command])

end Bookkeeping.Command
