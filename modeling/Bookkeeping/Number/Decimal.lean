import Bookkeeping.Text.Case
import Bookkeeping.Text.Blank
import Bookkeeping.Number.Numeral

/-! # Decimal numbers

A decimal number keeps the digits and the exponent it was written with, so that `2.50` and `2.5` are
different texts of equal numbers. Besides the finite numbers there are two infinities and the quiet
and signalling not-a-numbers with an optional payload.
-/

namespace Bookkeeping.Number

/-- A decimal floating-point number. -/
inductive Decimal where
  | finite (negative : Bool) (coefficient : Nat) (exponent : Int)
  | infinite (negative : Bool)
  | nan (negative signalling : Bool) (payload : Nat)
  deriving DecidableEq, Repr

namespace Decimal

/-- The largest exponent that the leading digit may have. -/
def maxExponent : Int := 999999999999999999

/-- The smallest exponent that the last digit may have. -/
def minExponent : Int := -1999999999999999997

/-- The characters of a numeral with the digits of every script made ASCII and the low lines left
out. -/
def plain (cs : List Char) : List Char :=
  (cs.filter (· != '_')).map fun c =>
    match Text.digit? c with
    | some d => Nat.digitChar d
    | none => c

/-- A special value after its sign: an infinity or a not-a-number. -/
def special? (negative : Bool) (cs : List Char) : Option Decimal :=
  let word := Text.lower (String.ofList (cs.takeWhile fun c => !c.isDigit))
  let (payload, rest) := takeDigits (cs.dropWhile fun c => !c.isDigit)
  if !rest.isEmpty then none
  else if word == "nan" then some (.nan negative false (Text.ofDigits payload))
  else if word == "snan" then some (.nan negative true (Text.ofDigits payload))
  else if (word == "inf" || word == "infinity") && payload.isEmpty then some (.infinite negative)
  else none

/-- A finite decimal, none if its exponent is out of range. -/
def bounded? (n : Numeral) : Option Decimal :=
  let coefficient := Text.ofDigits n.digits
  let top := if coefficient == 0 then n.exponent
    else n.exponent + (toString coefficient).length - 1
  if maxExponent < top || n.exponent < minExponent then none
  else some (.finite n.negative coefficient n.exponent)

/-- The decimal that a text spells. Low lines count for nothing and digits of every script count. -/
def ofText? (s : String) : Option Decimal :=
  let cs := plain (Text.cutEnds Text.isBlank s.toList)
  match numeral? cs with
  | some n => bounded? n
  | none =>
    let (negative, cs) := takeSign cs
    special? negative cs

/-- The sign as text. -/
def signText (negative : Bool) : String := if negative then "-" else ""

/-- The text of a decimal: positional while the exponent is not positive and the leading digit is
not far behind the point, and with an exponent otherwise. -/
def toText : Decimal → String
  | .infinite negative => signText negative ++ "Infinity"
  | .nan negative signalling payload =>
    signText negative ++ (if signalling then "sNaN" else "NaN")
      ++ (if payload == 0 then "" else toString payload)
  | .finite negative coefficient exponent =>
    let digits := (toString coefficient).toList
    let left := exponent + digits.length
    let plainForm := exponent ≤ 0 && -6 < left
    let point := if plainForm then left else 1
    let body :=
      if point ≤ 0 then "0." ++ "".pushn '0' (-point).toNat ++ String.ofList digits
      else if digits.length ≤ point then
        String.ofList digits ++ "".pushn '0' (point - digits.length).toNat
      else
        String.ofList (digits.take point.toNat) ++ "." ++ String.ofList (digits.drop point.toNat)
    let scale := left - point
    let tail :=
      if scale == 0 then "" else (if scale < 0 then "E-" else "E+") ++ toString scale.natAbs
    signText negative ++ body ++ tail

/-- The nearest double; a signalling not-a-number has none. -/
def toFloat? : Decimal → Option Float
  | .infinite negative => some (if negative then -infinity else infinity)
  | .nan _ true _ => none
  | .nan _ false _ => some Number.nan
  | .finite negative coefficient exponent => some (ofDecimal negative coefficient exponent)

end Decimal

end Bookkeeping.Number
