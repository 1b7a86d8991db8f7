import Bookkeeping.Number.Shortest

/-! # Extended doubles

Numbers that are not negative, with significands of sixty-four bits and exponents without a bound.
Every result is rounded to the nearest such number; a half goes to the even neighbour. A calculation
in extended doubles is more exact than one in doubles, but its rounding errors show all the same.
-/

namespace Bookkeeping.Number

/-- The number `mantissa · 2 ^ exponent`. -/
structure Extended where
  mantissa : Nat
  exponent : Int
  deriving DecidableEq, Repr

namespace Extended

/-- The extended double nearest to `num / den · 2 ^ exponent`. -/
def nearest (num den : Nat) (exponent : Int) : Extended :=
  if num == 0 then ⟨0, 0⟩
  else
    let shift : Int := 63 - ((num.log2 : Int) - den.log2)
    let scaled (shift : Int) : Nat × Nat :=
      if shift < 0 then (num, den <<< shift.natAbs) else (num <<< shift.natAbs, den)
    let (a, b) := scaled shift
    let shift := if a / b < 0x8000000000000000 then shift + 1 else shift
    let (a, b) := scaled shift
    let n := a / b
    let rest := 2 * (a % b)
    ⟨if b < rest || (rest == b && n % 2 == 1) then n + 1 else n, exponent - shift⟩

def ofNat (n : Nat) : Extended := nearest n 1 0

/-- The magnitude of a finite double, which is an extended double. -/
def ofFloat (x : Float) : Extended :=
  let b := Binary.magnitude x
  ⟨b.mantissa, b.exponent⟩

def mul (a b : Extended) : Extended := nearest (a.mantissa * b.mantissa) 1 (a.exponent + b.exponent)

def div (a b : Extended) : Extended := nearest a.mantissa b.mantissa (a.exponent - b.exponent)

/-- The mantissas of two numbers under their smaller exponent. -/
def aligned (a b : Extended) : Nat × Nat × Int :=
  let e := min a.exponent b.exponent
  (a.mantissa <<< (a.exponent - e).natAbs, b.mantissa <<< (b.exponent - e).natAbs, e)

def add (a b : Extended) : Extended :=
  let (m, n, e) := aligned a b
  nearest (m + n) 1 e

/-- The difference, zero if it would be negative. -/
def sub (a b : Extended) : Extended :=
  let (m, n, e) := aligned a b
  nearest (m - n) 1 e

def le (a b : Extended) : Bool :=
  let (m, n, _) := aligned a b
  m ≤ n

def lt (a b : Extended) : Bool :=
  let (m, n, _) := aligned a b
  m < n

/-- The integer part. -/
def floor (a : Extended) : Nat :=
  if a.exponent < 0 then a.mantissa >>> a.exponent.natAbs else a.mantissa <<< a.exponent.natAbs

/-- The nearest double, infinite beyond the largest one. -/
def toFloat (a : Extended) : Float :=
  if a.exponent < 0 then
    ofDecimal false (a.mantissa * Nat.pow 5 a.exponent.natAbs) a.exponent
  else ofDecimal false (a.mantissa <<< a.exponent.natAbs) 0

/-- A power of ten by repeated squaring, least bit of the exponent first. The fuel bounds the
bits. -/
def powerOfTenFrom : Nat → Nat → Extended → Extended → Extended
  | 0, _, _, r => r
  | fuel + 1, e, x, r =>
    let r := if e % 2 == 1 then r.mul x else r
    if e / 2 == 0 then r else powerOfTenFrom fuel (e / 2) (x.mul x) r

/-- A power of ten, with the rounding errors of its squarings. -/
def powerOfTen (e : Nat) : Extended := powerOfTenFrom (e.log2 + 1) e (ofNat 10) (ofNat 1)

end Extended

end Bookkeeping.Number
