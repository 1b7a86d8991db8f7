import Bookkeeping.Number.Shortest

/-! # Doubles as text

A double is written with the fewest digits that read back, positionally while its leading digit has
an exponent from -4 to 15 and with an exponent of at least two digits otherwise. An integral value
keeps a fractional zero, so that a double never looks like an integer.
-/

namespace Bookkeeping.Number

/-- A number without its trailing decimal zeros, with the count of those. Fuel bounds the count. -/
def dropZeros : Nat → Nat → Nat → Nat × Nat
  | 0, n, k => (n, k)
  | fuel + 1, n, k => if n % 10 == 0 && n != 0 then dropZeros fuel (n / 10) (k + 1) else (n, k)

/-- An exponent with its sign and at least two digits. -/
def exponentText (e : Int) : String :=
  let digits := toString e.natAbs
  (if e < 0 then "-" else "+") ++ (if digits.length < 2 then "0" ++ digits else digits)

/-- The digits of a decimal with the point put where its exponent says. -/
def layout (s : Scaled) : String :=
  let (n, zeros) := dropZeros 20 s.digits 0
  let digits := toString n
  let exponent := s.exponent + zeros
  let top := exponent + digits.length - 1
  if -4 ≤ top && top < 16 then
    if 0 ≤ exponent then digits ++ "".pushn '0' exponent.natAbs ++ ".0"
    else if 0 ≤ top then
      let whole := (top + 1).toNat
      String.ofList (digits.toList.take whole) ++ "." ++ String.ofList (digits.toList.drop whole)
    else "0." ++ "".pushn '0' (-top - 1).toNat ++ digits
  else
    let mantissa := match digits.toList with
      | [d] => String.ofList [d]
      | d :: rest => String.ofList (d :: '.' :: rest)
      | [] => ""
    mantissa ++ "e" ++ exponentText top

/-- The text of a double. -/
def floatText (x : Float) : String :=
  if isNaN x then "nan"
  else
    let body :=
      if !isFinite x then "inf"
      else if x == 0 then "0.0"
      else layout (shortest (if Binary.isNegative x then -x else x))
    if Binary.isNegative x then "-" ++ body else body

end Bookkeeping.Number
