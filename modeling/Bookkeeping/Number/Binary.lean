/-! # Doubles as binary fractions

A finite double is, up to its sign, a natural number times a power of two. The decoding reads the
fields of the bit pattern; everything that prints or compares doubles exactly goes through it.
-/

namespace Bookkeeping.Number

/-- The number `mantissa · 2 ^ exponent`. -/
structure Binary where
  mantissa : Nat
  exponent : Int
  deriving DecidableEq, Repr

namespace Binary

/-- The bits of a double as a natural number. -/
def bits (x : Float) : Nat := x.toBits.toNat

/-- The sign bit of a double; set for negative numbers and for negative zero. -/
def isNegative (x : Float) : Bool := 0x8000000000000000 ≤ bits x

/-- The exponent field of a double, eleven bits wide. -/
def exponentField (x : Float) : Nat := (bits x >>> 52) % 0x800

/-- The fraction field of a double, fifty-two bits wide. -/
def fractionField (x : Float) : Nat := bits x % 0x10000000000000

/-- The magnitude of a finite double. A zero exponent field marks the subnormal numbers, which lack
the implicit leading bit. -/
def magnitude (x : Float) : Binary :=
  if exponentField x == 0 then ⟨fractionField x, -1074⟩
  else ⟨0x10000000000000 + fractionField x, (exponentField x : Int) - 1075⟩

/-- Whether the gap below a double is half the gap above it, which is so at the powers of two. -/
def gapHalves (x : Float) : Bool := fractionField x == 0 && 1 < exponentField x

end Binary

/-- Whether a double is neither infinite nor the not-a-number. -/
def isFinite (x : Float) : Bool := Binary.exponentField x != 2047

/-- Whether a double is the not-a-number. -/
def isNaN (x : Float) : Bool := Binary.exponentField x == 2047 && Binary.fractionField x != 0

/-- Positive infinity. -/
def infinity : Float := Float.ofBits 0x7ff0000000000000

/-- The not-a-number. -/
def nan : Float := Float.ofBits 0x7ff8000000000000

/-- The largest finite double. -/
def largest : Float := Float.ofBits 0x7fefffffffffffff

/-- The double nearest to `mantissa · 10 ^ exponent`, infinite beyond the largest double. -/
def ofDecimal (negative : Bool) (mantissa : Nat) (exponent : Int) : Float :=
  let x := Float.ofScientific mantissa (exponent < 0) exponent.natAbs
  if negative then -x else x

/-- The double nearest to an integer, infinite beyond the largest double. -/
def ofInt (n : Int) : Float := ofDecimal (n < 0) n.natAbs 0

/-- The integer part of a finite double, cut toward zero. -/
def truncate (x : Float) : Int :=
  let b := Binary.magnitude x
  let n : Nat := if b.exponent < 0 then b.mantissa >>> b.exponent.natAbs
    else b.mantissa <<< b.exponent.natAbs
  if Binary.isNegative x then -(n : Int) else n

/-- Whether a finite double has no fractional part. -/
def isIntegral (x : Float) : Bool :=
  let b := Binary.magnitude x
  0 ≤ b.exponent || b.mantissa % (1 <<< b.exponent.natAbs) == 0

end Bookkeeping.Number
