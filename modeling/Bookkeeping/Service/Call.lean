import Bookkeeping.Service.Entries
import Bookkeeping.Service.Users

/-! # Calls

Everything that can be asked of a ledger, as data, and one function that does it. The laws of the
ledger are about sequences of calls.
-/

namespace Bookkeeping.Service

open Store

/-- The kinds of named rows. -/
inductive CatalogKind where
  | currency
  | category
  | source
  deriving DecidableEq, Repr

/-- Something asked of a ledger. A part that is null was not given. -/
inductive Call where
  | createUser (username password : Value)
  | registerUser (username password currency : Value)
  | getUser (user : Value)
  | getUserByUsername (username : Value)
  | verifyCredentials (username password : Value)
  | changePassword (user old new : Value)
  | setEnabled (user enabled : Value)
  | setFixedCurrency (user currency : Value)
  | deleteUser (user : Value)
  | createCurrency (user name rate : Value)
  | updateCurrency (user id name rate : Value)
  | createCategory (user name : Value)
  | createSource (user name currency amount : Value)
  | rename (kind : CatalogKind) (user id name : Value)
  | archive (kind : CatalogKind) (user id : Value)
  | restore (kind : CatalogKind) (user id : Value)
  | delete (kind : CatalogKind) (user id : Value)
  | get (kind : CatalogKind) (user id : Value)
  | getByName (kind : CatalogKind) (user name : Value)
  | list (kind : CatalogKind) (user includeArchived : Value)
  | createEntry (user : Value) (data : Option EntryRequest) (fields : List (String × Value))
  | getEntry (user id : Value)
  | listEntries (user : Value) (filter : EntryFilter)
  | archiveEntry (user id : Value)
  | restoreEntry (user id : Value)
  | deleteEntry (user id : Value)

/-- What a ledger answers. -/
inductive Answer where
  | nothing
  | flag (b : Bool)
  | number (n : Int)
  | tally (counts : List (String × Nat))
  | user (r : Option (Row User))
  | currency (r : Option (Row Currency))
  | category (r : Option (Row Category))
  | source (r : Option (Row Source))
  | entry (r : Option (Row Entry))
  | users (rs : List (Row User))
  | currencies (rs : List (Row Currency))
  | categories (rs : List (Row Category))
  | sources (rs : List (Row Source))
  | entries (rs : List (Row Entry))

/-- A row of a named kind as an answer. -/
class Shown (ρ : Type) where
  one : Option (Row ρ) → Answer
  many : List (Row ρ) → Answer

instance : Shown Currency := ⟨.currency, .currencies⟩
instance : Shown Category := ⟨.category, .categories⟩
instance : Shown Source := ⟨.source, .sources⟩

/-- Does something for the named kind. -/
def CatalogKind.run {β : Type} (kind : CatalogKind)
    (f : (ρ : Type) → [Catalog ρ] → [Shown ρ] → β) : β :=
  match kind with
  | .currency => f Currency
  | .category => f Category
  | .source => f Source

/-- Does what a call asks for. -/
def Call.run : Call → Op Answer
  | createUser username password =>
    (fun r => Answer.user (some r)) <$> Service.createUser username password
  | registerUser username password currency =>
    (fun r => Answer.user (some r)) <$> Service.registerUser username password currency
  | getUser user => Answer.user <$> find User user
  | getUserByUsername username => Answer.user <$> findByUsername username
  | verifyCredentials username password =>
    Answer.user <$> Service.verifyCredentials username password
  | changePassword user old new => Answer.flag <$> Service.changePassword user old new
  | setEnabled user enabled => Answer.user <$> enableUser user enabled
  | setFixedCurrency user currency => Answer.user <$> chooseFixedCurrency user currency
  | deleteUser user => Answer.tally <$> Service.deleteUser user
  | createCurrency user name rate =>
    (fun r => Answer.currency (some r)) <$> Service.createCurrency user name rate
  | updateCurrency user id name rate => Answer.currency <$> Service.updateCurrency user id name rate
  | createCategory user name =>
    (fun r => Answer.category (some r)) <$> Service.createCategory user name
  | createSource user name currency amount =>
    (fun r => Answer.source (some r)) <$> Service.createSource user name currency amount
  | rename kind user id name =>
    kind.run fun ρ [Catalog ρ] [Shown ρ] => Shown.one <$> Service.rename ρ user id name
  | archive kind user id =>
    kind.run fun ρ [Catalog ρ] [Shown ρ] => Shown.one <$> Service.archive ρ user id
  | restore kind user id =>
    kind.run fun ρ [Catalog ρ] [Shown ρ] => Shown.one <$> Service.restore ρ user id
  | delete kind user id =>
    kind.run fun ρ [Catalog ρ] [Shown ρ] => (fun _ => Answer.nothing) <$> Service.remove ρ user id
  | get kind user id =>
    kind.run fun ρ [Catalog ρ] [Shown ρ] => (fun r => Shown.one (some r)) <$> fetch ρ user id
  | getByName kind user name =>
    kind.run fun ρ [Catalog ρ] [Shown ρ] => Shown.one <$> findByName ρ user name
  | list kind user includeArchived =>
    kind.run fun ρ [Catalog ρ] [Shown ρ] => Shown.many <$> findByUser ρ user includeArchived
  | createEntry user data fields =>
    (fun r => Answer.entry (some r)) <$> Service.createEntry user data fields
  | getEntry user id => (fun r => Answer.entry (some r)) <$> Service.getEntry user id
  | listEntries user filter => Answer.entries <$> Service.listEntries user filter
  | archiveEntry user id => Answer.entry <$> Service.archiveEntry user id
  | restoreEntry user id => Answer.entry <$> Service.restoreEntry user id
  | deleteEntry user id => (fun _ => Answer.nothing) <$> Service.deleteEntry user id

end Bookkeeping.Service
