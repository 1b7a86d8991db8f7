import Bookkeeping.Number.Decimal

/-! # Exact numbers

Integers, doubles and decimals are compared by value: each finite one is a whole number prime to ten
times a power of two and a power of five, and in that form equal numbers are equal.
-/

namespace Bookkeeping.Number

/-- The number `core · 2 ^ twos · 5 ^ fives`, with a core prime to ten, or zero with zero powers. -/
structure Exact where
  core : Int
  twos : Int
  fives : Int
  deriving DecidableEq, Repr

namespace Exact

/-- A number without its factors `p`, and how many there were. Fuel bounds the count. -/
def divideOut (p : Nat) : Nat → Nat → Nat → Nat × Nat
  | 0, n, k => (n, k)
  | fuel + 1, n, k => if n % p == 0 && n != 0 then divideOut p fuel (n / p) (k + 1) else (n, k)

/-- The exact number `± n · 2 ^ twos · 5 ^ fives`. -/
def of (negative : Bool) (n : Nat) (twos fives : Int) : Exact :=
  if n == 0 then ⟨0, 0, 0⟩
  else
    let (n, a) := divideOut 2 (n.log2 + 1) n 0
    let (n, b) := divideOut 5 (n.log2 + 1) n 0
    ⟨if negative then -(n : Int) else n, twos + a, fives + b⟩

def ofInt (n : Int) : Exact := of (n < 0) n.natAbs 0 0

/-- The value of a finite double. -/
def ofFloat? (x : Float) : Option Exact :=
  if isFinite x then
    let b := Binary.magnitude x
    some (of (Binary.isNegative x) b.mantissa b.exponent 0)
  else none

/-- The value of a finite decimal. -/
def ofDecimal? : Decimal → Option Exact
  | .finite negative coefficient exponent => some (of negative coefficient exponent exponent)
  | _ => none

end Exact

end Bookkeeping.Number
