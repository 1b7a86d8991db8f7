import Bookkeeping.Text.Digit
import Bookkeeping.Number.Binary

/-! # Numerals

A numeral is a signed number in positional or exponent notation: digits with an optional point, at
least one of them, and an optional decimal exponent. Several readers share this grammar; they differ
in what they strip or remove before.
-/

namespace Bookkeeping.Number

/-- The number `± digits · 10 ^ exponent`; the digits are kept as written. -/
structure Numeral where
  negative : Bool
  digits : List Nat
  exponent : Int
  deriving DecidableEq, Repr

/-- A leading sign, true for minus, and what follows it. -/
def takeSign : List Char → Bool × List Char
  | '-' :: rest => (true, rest)
  | '+' :: rest => (false, rest)
  | cs => (false, cs)

/-- The values of the ASCII digits at the head of a list, and what follows them. -/
def takeDigits (cs : List Char) : List Nat × List Char :=
  ((cs.takeWhile Char.isDigit).filterMap Text.asciiDigit?, cs.dropWhile Char.isDigit)

/-- The decimal exponent after its mark: a sign and at least one digit, and nothing more. -/
def exponent? (cs : List Char) : Option Int :=
  let (negative, cs) := takeSign cs
  match takeDigits cs with
  | ([], _) => none
  | (ds, []) => some (if negative then -(Text.ofDigits ds : Int) else Text.ofDigits ds)
  | _ => none

/-- The numeral that a whole list of characters spells. -/
def numeral? (cs : List Char) : Option Numeral :=
  let (negative, cs) := takeSign cs
  let (whole, cs) := takeDigits cs
  let (fraction, cs) := match cs with
    | '.' :: cs => takeDigits cs
    | _ => ([], cs)
  let digits := whole ++ fraction
  let shift := -(fraction.length : Int)
  if digits.isEmpty then none
  else match cs with
    | [] => some ⟨negative, digits, shift⟩
    | c :: cs =>
      if c == 'e' || c == 'E' then (exponent? cs).map fun e => ⟨negative, digits, shift + e⟩
      else none

/-- The double nearest to a numeral. -/
def Numeral.toFloat (n : Numeral) : Float :=
  ofDecimal n.negative (Text.ofDigits n.digits) n.exponent

end Bookkeeping.Number
