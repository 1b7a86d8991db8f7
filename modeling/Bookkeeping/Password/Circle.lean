/-! # The number π

The binary digits of π after the point, by Machin's formula π = 16 · arctan (1/5) − 4 · arctan
(1/239). Everything is computed in whole numbers of a unit far below the last digit that is wanted.
-/

namespace Bookkeeping.Circle

/-- Terms `power / k`, `power / (square · (k + 2))` and so on with alternating signs, while they are
not zero. The fuel bounds their number. -/
def alternating (square : Nat) : Nat → Nat → Nat → Bool → Int → Int
  | 0, _, _, _, sum => sum
  | fuel + 1, power, k, negative, sum =>
    let term : Int := power / k
    if power == 0 then sum
    else
      alternating square fuel (power / square) (k + 2) (!negative)
        (if negative then sum - term else sum + term)

/-- The arc tangent of `1 / x` in units of `1 / scale`. -/
def arctan (x scale : Nat) : Int := alternating (x * x) scale.log2 (scale / x) 1 false 0

/-- The first digits of π after the point as a whole number of `bits` bits. -/
def fraction (bits : Nat) : Nat :=
  let scale := 1 <<< (bits + 64)
  let pi := 16 * arctan 5 scale - 4 * arctan 239 scale
  (pi.toNat % scale) >>> 64

/-- The first digits of π after the point as words of 32 bits. -/
def words (count : Nat) : Array UInt32 :=
  let digits := fraction (32 * count)
  Array.ofFn fun i : Fin count => UInt32.ofNat (digits >>> (32 * (count - 1 - i)))

end Bookkeeping.Circle
