import Bookkeeping.Record

/-! # Users -/

namespace Bookkeeping

/-- The owner of a ledger. The password is kept as a hash only. -/
structure User where
  username : String
  passwordHash : String
  /-- The currency that the user reports in, one of the user's own. -/
  fixedCurrency : Option Int := none
  enabled : Bool := false
  deriving DecidableEq

namespace User

/-- Reads a user from named fields. -/
def read (fields : List (String × Value)) : Reading (Item User) :=
  (fun id username passwordHash fixedCurrency enabled =>
      { id, data := { username, passwordHash, fixedCurrency, enabled } })
    <$> Record.readId fields
    <*> Part.required fields "username" Part.name
    <*> Part.required fields "password_hash" (Part.boundedText 0)
    <*> Part.withDefault fields "fixed_currency_id" (Part.optional Part.int) none
    <*> Part.withDefault fields "enabled" Part.bool false

/-- The fields of a user that may be shown. -/
def publicFields (u : Item User) : List (String × Value) :=
  [("id", Value.ofInt? u.id), ("username", .text u.data.username),
    ("fixed_currency_id", Value.ofInt? u.data.fixedCurrency), ("enabled", .bool u.data.enabled)]

instance : Record User where
  title := "User"
  read := read
  fields u := publicFields u ++ [("password_hash", .text u.data.passwordHash)]
  computed := ["_bcrypt_rounds"]

end User

end Bookkeeping
