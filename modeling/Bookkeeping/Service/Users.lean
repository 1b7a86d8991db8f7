import Bookkeeping.Service.Catalog

/-! # Users

Accounts: making them, alone or with a first currency, checking and changing passwords, and removing
a user with everything the user owns.
-/

namespace Bookkeeping.Service

open Store

/-- The record of a new account. The password is hashed before anything is looked up. -/
def newUser (username password : Value) : Op User := do
  let username ← Op.lift (Check.name "username" username)
  let password ← Op.lift (Check.password password)
  let hash ← hashed password
  recordOf User [("username", .text username), ("password_hash", .text hash)]

/-- Stores a new account under a user name that is not taken. -/
def insertUser (u : User) : Op (Row User) := do
  match ← findByUsername (.text u.username) with
  | some _ => Op.reject (.usernameTaken u.username)
  | none => Store.insert User u

/-- Makes an account. It is not enabled, and reports in no currency. -/
def createUser (username password : Value) : Op (Row User) :=
  logged "create_user" do
    let u ← newUser username password
    let row ← transaction (insertUser u)
    emit .info .users "User created"
      [("user_id", .int row.id), ("username", .text row.data.username)]
    pure row

/-- Makes an account together with the currency it reports in, if one is named. -/
def registerUser (username password : Value) (currency : Value := .null) : Op (Row User) :=
  logged "register_user" do
    let u ← newUser username password
    let currency ← if currency.isNull then pure none
      else some <$> Op.lift (Check.name "name" currency)
    let row ← transaction do
      let row ← insertUser u
      match currency with
      | none => pure row
      | some name =>
        let c ← Store.insert Currency (← recordOf Currency
          [("user_id", .int row.id), ("name", .text name), ("rate_to_fixed", .float 1)])
        let _ ← setFixedCurrency (.int row.id) (.int c.id)
        match ← find User (.int row.id) with
        | some row => pure row
        | none => Op.fail (.misuse .noAttribute)
    emit .info .users "User registered"
      [("user_id", .int row.id), ("username", .text row.data.username),
        ("fixed_currency_id", Value.ofInt? row.data.fixedCurrency)]
    pure row

/-- Whether a password belongs to a user. -/
def passwordMatches (u : Row User) (password : Value) : Op Bool := do
  match password.text? with
  | none => Op.fail (.misuse .noAttribute)
  | some p => return (← get).scheme.check u.data.passwordHash p

/-- The user of a name, if the password is the right one. -/
def verifyCredentials (username password : Value) : Op (Option (Row User)) := do
  let found ← if username.truthy then findByUsername username else pure none
  match found with
  | none => pure none
  | some u =>
    if !password.truthy then pure none
    else if ← passwordMatches u password then pure (some u)
    else do
      emit .warning .users "Credential check failed" [("username", .text u.data.username)]
      pure none

/-- Replaces a user's password; says whether the old one was right. -/
def changePassword (user old new : Value) : Op Bool :=
  logged "change_password" do
    let new ← Op.lift (Check.password new)
    let u ← requireUser user
    let right ← if old.truthy then passwordMatches u old else pure false
    if !right then
      emit .warning .users "Password change refused" [("user_id", user)]
      pure false
    else
      let hash ← hashed new
      let _ ← transaction (updatePassword user (.text hash))
      emit .info .users "Password changed" [("user_id", user)]
      pure true

/-- Enables or disables an account. -/
def enableUser (user enabled : Value) : Op (Option (Row User)) :=
  logged "set_enabled" do
    let row ← transaction do
      let _ ← requireUser user
      let _ ← setEnabled user enabled
      find User user
    emit .info .users (if enabled.truthy then "User enabled" else "User disabled")
      [("user_id", user)]
    pure row

/-- Chooses the active currency that a user reports in, or none. -/
def chooseFixedCurrency (user currency : Value) : Op (Option (Row User)) :=
  logged "set_fixed_currency" do
    let row ← transaction do
      let _ ← requireUser user
      if !currency.isNull then
        let _ ← loadOwned Currency user currency "currency_id" true
      let _ ← setFixedCurrency user currency
      find User user
    emit .info .users "Fixed currency set" [("user_id", user), ("currency_id", currency)]
    pure row

/-- Removes a user and everything the user owns, what refers before what is referred to. Gives the
number of removed rows by table. -/
def deleteUser (user : Value) : Op (List (String × Nat)) :=
  logged "delete_user" do
    let counts ← transaction do
      let _ ← requireUser user
      let entries ← deleteByUser StoredEntry user
      let sources ← deleteByUser Source user
      let categories ← deleteByUser Category user
      let _ ← setFixedCurrency user .null
      let currencies ← deleteByUser Currency user
      let gone ← delete User user
      pure [("entries", entries), ("sources", sources), ("categories", categories),
        ("currencies", currencies), ("users", if gone then 1 else 0)]
    emit .info .users "User deleted"
      (("user_id", user) :: counts.map fun (table, n) => (table, Value.int n))
    pure counts

end Bookkeeping.Service
