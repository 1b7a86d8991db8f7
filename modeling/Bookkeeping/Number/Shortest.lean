import Bookkeeping.Number.Binary

/-! # The shortest decimal of a double

A decimal reads back as a given double if it lies in the interval of numbers that round to it. The
shortest decimal has the fewest digits among those, and of two with as many digits it is the nearer
one. The search tries one digit, two digits and so on; at each count the only candidates are the two
neighbours of the double on that grid of decimals. All arithmetic is exact.
-/

namespace Bookkeeping.Number

/-- The number `digits · 10 ^ exponent`. -/
structure Scaled where
  digits : Nat
  exponent : Int
  deriving DecidableEq, Repr

/-- A positive ratio. -/
structure Ratio where
  num : Nat
  den : Nat

namespace Ratio

/-- The number `n · b ^ e`. -/
def power (n b : Nat) (e : Int) : Ratio :=
  if e < 0 then ⟨n, Nat.pow b e.natAbs⟩ else ⟨n * Nat.pow b e.natAbs, 1⟩

def le (a b : Ratio) : Bool := a.num * b.den ≤ b.num * a.den
def lt (a b : Ratio) : Bool := a.num * b.den < b.num * a.den

/-- How often `b` goes into `a`. -/
def quotient (a b : Ratio) : Nat := (a.num * b.den) / (a.den * b.num)

/-- The distance between two ratios. -/
def distance (a b : Ratio) : Ratio :=
  ⟨((a.num * b.den : Int) - b.num * a.den).natAbs, a.den * b.den⟩

end Ratio

/-- The interval of numbers that round to a double, with the double itself. The ends belong to it if
the double's last bit is zero. -/
structure Rounding where
  low : Ratio
  value : Ratio
  high : Ratio
  closed : Bool

namespace Rounding

/-- The interval around a positive finite double, in quarters of the unit of its last bit. -/
def of (x : Float) : Rounding :=
  let b := Binary.magnitude x
  let quarters (n : Nat) : Ratio := Ratio.power n 2 (b.exponent - 2)
  { low := quarters (4 * b.mantissa - if Binary.gapHalves x then 1 else 2)
    value := quarters (4 * b.mantissa)
    high := quarters (4 * b.mantissa + 2)
    closed := b.mantissa % 2 == 0 }

/-- Whether a number rounds to the double of the interval. -/
def contains (r : Rounding) (q : Ratio) : Bool :=
  if r.closed then r.low.le q && q.le r.high else r.low.lt q && q.lt r.high

end Rounding

/-- The exponent of the leading decimal digit of a positive ratio. The estimate from the binary
logarithms is off by at most one. -/
def leadingExponent (q : Ratio) : Int :=
  let guess := ((q.num.log2 : Int) - q.den.log2) * 1233 / 4096
  if q.lt (Ratio.power 1 10 guess) then guess - 1
  else if (Ratio.power 1 10 (guess + 1)).le q then guess + 1
  else guess

/-- The best decimal with the given grid exponent that rounds to the double, if there is one. -/
def onGrid? (r : Rounding) (exponent : Int) : Option Scaled :=
  let below := r.value.quotient (Ratio.power 1 10 exponent)
  let point (n : Nat) : Ratio := Ratio.power n 10 exponent
  match r.contains (point below), r.contains (point (below + 1)) with
  | true, false => some ⟨below, exponent⟩
  | false, true => some ⟨below + 1, exponent⟩
  | false, false => none
  | true, true =>
    let down := r.value.distance (point below)
    let up := r.value.distance (point (below + 1))
    if down.lt up || (down.le up && below % 2 == 0) then some ⟨below, exponent⟩
    else some ⟨below + 1, exponent⟩

/-- The shortest decimal of a positive finite double. Seventeen digits always suffice. -/
def shortest (x : Float) : Scaled :=
  let r := Rounding.of x
  let top := leadingExponent r.value
  ((List.range 17).findSome? fun n : Nat => onGrid? r (top - n)).getD
    ⟨r.value.quotient (Ratio.power 1 10 (top - 16)), top - 16⟩

end Bookkeeping.Number
