import Bookkeeping.Number.Shortest

/-! # Rounded decimals

Doubles with a fixed number of digits after the point, and in exponent notation. The exact value is
rounded to the nearest decimal of that form; a half goes to the even neighbour.
-/

namespace Bookkeeping.Number

/-- The nearest natural number, the even one of two. -/
def Ratio.round (r : Ratio) : Nat :=
  let q := r.num / r.den
  let rest := 2 * (r.num % r.den)
  if r.den < rest || (rest == r.den && q % 2 == 1) then q + 1 else q

/-- The magnitude of a finite double times a power of ten. -/
def scaledRatio (x : Float) (power : Int) : Ratio :=
  let b := Binary.magnitude x
  let r := Ratio.power b.mantissa 2 b.exponent
  let t := Ratio.power 1 10 power
  ⟨r.num * t.num, r.den * t.den⟩

/-- The digits of a number, at least `width` of them. -/
def digitsOf (width n : Nat) : List Char :=
  let ds := (toString n).toList
  List.replicate (width - ds.length) '0' ++ ds

/-- The magnitude of a finite double with a fixed number of digits after the point. -/
def fixedText (places : Nat) (x : Float) : String :=
  let ds := digitsOf (places + 1) (scaledRatio x places).round
  let whole := String.ofList (ds.take (ds.length - places))
  if places == 0 then whole else whole ++ "." ++ String.ofList (ds.drop (ds.length - places))

/-- The leading digits of a finite double, one more than `places`, and the exponent of the first. -/
def leadingDigits (places : Nat) (x : Float) : Nat × Int :=
  if x == 0 then (0, 0)
  else
    let top := leadingExponent (scaledRatio x 0)
    let n := (scaledRatio x (places - top)).round
    if n < Nat.pow 10 (places + 1) then (n, top) else (n / 10, top + 1)

end Bookkeeping.Number
