import Bookkeeping.Number.Extended
import Bookkeeping.Number.FloatText
import Bookkeeping.Number.Numeral

/-! # Numbers and texts in the storage engine

The storage engine turns texts into numbers and numbers into texts with extended doubles. It keeps
as many digits of a text as an integer of 64 bits holds, and writes a double with fifteen digits;
both may miss the nearest result by the last digit.
-/

namespace Bookkeeping.Store.Numeric

open Number

/-! ## Reading -/

/-- Spaces that may stand around a number in a text. -/
def isSpace (c : Char) : Bool := c == ' ' || (9 ≤ c.toNat && c.toNat ≤ 13)

/-- A number that a text starts with. -/
structure Scan where
  negative : Bool
  whole : List Nat
  fraction : List Nat
  exponent : Int
  /-- Whether the number has a point or an exponent. -/
  decimal : Bool
  /-- Whether the text holds nothing but the number and spaces around it. -/
  entire : Bool
  deriving DecidableEq, Repr

/-- An exponent at the head of the characters: its value, whether it is complete and what
follows. -/
def scanExponent (cs : List Char) : Int × Bool × List Char :=
  match cs with
  | c :: rest =>
    if c == 'e' || c == 'E' then
      let (negative, rest) := takeSign rest
      let (ds, rest) := takeDigits rest
      let n := min 10000 (Text.ofDigits ds)
      (if negative then -(n : Int) else n, !ds.isEmpty, rest)
    else (0, true, cs)
  | [] => (0, true, [])

/-- The number that a text starts with, zero if there is none. -/
def scan (s : String) : Scan :=
  let cs := s.toList.dropWhile isSpace
  let (negative, cs) := takeSign cs
  let (whole, cs) := takeDigits cs
  let (pointed, fraction, cs) := match cs with
    | '.' :: rest => (true, takeDigits rest)
    | cs => (false, [], cs)
  let (exponent, complete, rest) := scanExponent cs
  let marked := rest.length != cs.length
  let any := !(whole ++ fraction).isEmpty
  { negative, whole, fraction, exponent
    decimal := any && (pointed || (marked && complete))
    entire := any && complete && (rest.dropWhile isSpace).isEmpty }

/-- The largest integer of 64 bits. -/
def largestInteger : Nat := 0x7fffffffffffffff

/-- A significand takes no further digits from here on. -/
def significandBound : Nat := (largestInteger - 9) / 10

/-- Digits put behind a significand as long as it takes them, and how many are left over. -/
def takeSignificand : List Nat → Nat → Nat × Nat
  | [], s => (s, 0)
  | d :: ds, s =>
    if s < significandBound then takeSignificand ds (10 * s + d) else (s, ds.length + 1)

/-- The significand of a number and its decimal exponent. -/
def Scan.significand (n : Scan) : Nat × Int :=
  let (s, skipped) := takeSignificand n.whole 0
  let (t, dropped) := takeSignificand n.fraction s
  (t, n.exponent + skipped - (n.fraction.length - dropped : Nat))

/-- A significand and an exponent with the exponent brought nearer to zero, as far as the
significand stays an integer of 64 bits. The fuel bounds the digits. -/
def reduce : Nat → Nat → Int → Nat × Int
  | 0, s, e => (s, e)
  | fuel + 1, s, e =>
    if 0 < e then
      if largestInteger / 10 ≤ s then (s, e) else reduce fuel (10 * s) (e - 1)
    else if e < 0 then
      if s % 10 != 0 then (s, e) else reduce fuel (s / 10) (e + 1)
    else (s, e)

/-- The magnitude of a significand and an exponent as a double. Large exponents are applied in two
steps. -/
def magnitude (s : Nat) (e : Int) : Float :=
  let n := Extended.ofNat s
  let shift (k : Nat) : Float :=
    ((if e < 0 then n.div else n.mul) (Extended.powerOfTen k)).toFloat
  if s == 0 then 0
  else if e == 0 then ofInt s
  else if e.natAbs ≤ 307 then shift e.natAbs
  else if e.natAbs < 342 then
    if e < 0 then shift (e.natAbs - 308) / 1e308 else shift (e.natAbs - 308) * 1e308
  else if e < 0 then 0
  else infinity

/-- The double that a text starts with. -/
def Scan.value (n : Scan) : Float :=
  let (s, e) := n.significand
  let (s, e) := reduce 20 s e
  if n.negative then -(magnitude s e) else magnitude s e

/-- The integer that the digits before the point spell. -/
def Scan.integer (n : Scan) : Int :=
  let m : Int := Text.ofDigits n.whole
  if n.negative then -m else m

/-! ## Writing -/

/-- A number with a scale: the largest product of given factors that does not exceed it, and the
decimal exponent of the scale. The fuel bounds the factors. -/
def climb (x factor : Extended) (digits : Int) : Nat → Extended × Int → Extended × Int
  | 0, acc => acc
  | fuel + 1, (scale, e) =>
    if (factor.mul scale).le x then climb x factor digits fuel (scale.mul factor, e + digits)
    else (scale, e)

/-- A number multiplied by a factor as long as it is below a bound, and its decimal exponent. The
fuel bounds the steps. -/
def lift (bound factor : Extended) (digits : Int) : Nat → Extended × Int → Extended × Int
  | 0, acc => acc
  | fuel + 1, (x, e) =>
    if x.lt bound then lift bound factor digits fuel (x.mul factor, e - digits) else (x, e)

/-- A positive number brought between one and ten, and its decimal exponent. -/
def normalize (x : Extended) : Extended × Int :=
  let one := Extended.ofNat 1
  let ten := Extended.ofNat 10
  let (scale, e) := climb x ten 1 9
    (climb x (.ofFloat 1e10) 10 9 (climb x (.ofFloat 1e100) 100 3 (one, 0)))
  lift one ten 1 8 (lift (.ofFloat 1e-8) (.ofFloat 1e8) 8 41 (x.div scale, e))

/-- The first digits of a number below ten, as one number. -/
def leading : Nat → Extended → Nat → Nat
  | 0, _, acc => acc
  | n + 1, x, acc =>
    let d := x.floor
    leading n ((x.sub (.ofNat d)).mul (.ofNat 10)) (10 * acc + d)

/-- A positive double with fifteen digits. Half a unit of the last digit is added before the rest is
cut off. -/
def fifteen (x : Float) : Scaled :=
  let (y, e) := normalize (.ofFloat x)
  let y := y.add ((Extended.ofFloat 5e-5).mul (.ofFloat 1e-10))
  let (y, e) := if (Extended.ofNat 10).le y then (y.mul (.ofFloat 0.1), e + 1) else (y, e)
  ⟨leading 15 y 0, e - 14⟩

/-- Fifteen digits laid out: positionally while the exponent of the leading digit is from -4 to 14,
always with a point. -/
def layoutFifteen (s : Scaled) : String :=
  let (n, zeros) := dropZeros 20 s.digits 0
  let digits := (toString n).toList
  let exponent := s.exponent + zeros
  let top := exponent + digits.length - 1
  if -4 ≤ top && top < 15 then layout s
  else
    let mantissa := String.ofList (digits.take 1) ++ "."
      ++ (if digits.length == 1 then "0" else String.ofList (digits.drop 1))
    mantissa ++ "e" ++ exponentText top

/-- A double as it is kept in a text column. -/
def realText (x : Float) : String :=
  if x == 0 then "0.0"
  else
    let body := if isFinite x then layoutFifteen (fifteen x.abs) else "Inf"
    if x < 0 then "-" ++ body else body

end Bookkeeping.Store.Numeric
