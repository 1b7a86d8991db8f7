/-! # Decimal digits

Every script of Unicode 14 that writes numbers in base ten has its ten digits in a row, from zero
to nine; the value of a digit is its distance from the zero of its script.
-/

namespace Bookkeeping.Text

/-- The zeros of the scripts with decimal digits. -/
def zeros : List Nat :=
  [48, 1632, 1776, 1984, 2406, 2534, 2662, 2790, 2918, 3046, 3174, 3302, 3430, 3558, 3664, 3792,
   3872, 4160, 4240, 6112, 6160, 6470, 6608, 6784, 6800, 6992, 7088, 7232, 7248, 42528, 43216,
   43264, 43472, 43504, 43600, 44016, 65296, 66720, 68912, 69734, 69872, 69942, 70096, 70384,
   70736, 70864, 71248, 71360, 71472, 71904, 72016, 72784, 73040, 73120, 92768, 92864, 93008,
   120782, 120792, 120802, 120812, 120822, 123200, 123632, 125264, 130032]

/-- The value of a decimal digit of any script. -/
def digit? (c : Char) : Option Nat :=
  if c.isDigit then some (c.toNat - 48)
  else (zeros.find? fun z => z ≤ c.toNat && c.toNat < z + 10).map (c.toNat - ·)

/-- The value of one of the ten ASCII digits. -/
def asciiDigit? (c : Char) : Option Nat :=
  if c.isDigit then some (c.toNat - 48) else none

/-- The number that a list of digit values spells in base ten. -/
def ofDigits (ds : List Nat) : Nat := ds.foldl (fun n d => 10 * n + d) 0

end Bookkeeping.Text
