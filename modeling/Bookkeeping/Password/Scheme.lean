/-! # Password schemes

A scheme turns a password into a text that is safe to keep, and checks a candidate against such a
text. The ledger uses nothing else about passwords.
-/

namespace Bookkeeping

/-- How passwords are kept and checked. -/
structure PasswordScheme where
  /-- The text that is kept for a password; the number picks the salt. -/
  hash : Nat → String → String
  /-- Whether a candidate belongs to a text that was kept. -/
  check : String → String → Bool

end Bookkeeping
