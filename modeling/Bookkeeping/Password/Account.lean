import Bookkeeping.Failure
import Bookkeeping.Password.Hash
import Bookkeeping.Record.User

/-! # Accounts

Making an account from a password outside of any store: the cost of hashing may be chosen, and
further fields of the user may be given.
-/

namespace Bookkeeping.Account

/-- The cost of hashing where none is chosen. -/
def usualCost : Nat := 12

/-- The cost that a value chooses. -/
def costOf (v : Value) : Except Failure Nat :=
  if !v.truthy then .ok usualCost
  else
    let n? : Option Int := match v with
      | .int n => some n
      | .bool b => some (if b then 1 else 0)
      | _ => none
    match n? with
    | none => .error (.misuse .wrongType)
    | some n =>
      if n < 0 || 0x10000 ≤ n then .error (.misuse .overflow)
      else if n < 4 || 31 < n then .error (.badValue "Invalid rounds")
      else .ok n.toNat

/-- What is said about a password that is too long to hash. -/
def tooLong : String :=
  "password cannot be longer than 72 bytes, truncate manually if necessary (e.g. my_password[:72])"

/-- The hash of a password at a chosen cost. -/
def hash (cost : Value) (salt : Nat) (password : Value) : Except Failure String := do
  let cost ← costOf cost
  match password.text? with
  | none => .error (.misuse .noAttribute)
  | some p =>
    if Hash.maxBytes < (Text.bytes p).length then .error (.badValue tooLong)
    else .ok (Hash.make Hash.version cost (Hash.saltOf salt) p)

/-- The names of what an account is made from, and of the account itself. -/
def arguments : List String := ["cls", "username", "password", "rounds"]

/-- A user with a hashed password. The further fields name nothing that the account is made from,
and not the hash either, which is there before they are looked at. -/
def create (username password cost : Value) (salt : Nat) (more : List (String × Value)) :
    Except Failure (Item User) := do
  if more.any fun (k, _) => arguments.contains k then .error (.misuse .wrongType)
  else
    let h ← hash cost salt password
    if (more.lookup "password_hash").isSome then .error (.misuse .wrongType)
    else
      (User.read ([("username", username), ("password_hash", .text h)] ++ more)).orFail
        (Record.title User)

/-- Whether a password fits a user's hash. -/
def verify (u : User) (password : Value) : Except Failure Bool :=
  match password.text? with
  | none => .error (.misuse .noAttribute)
  | some p => .ok (Hash.check u.passwordHash p)

end Bookkeeping.Account
