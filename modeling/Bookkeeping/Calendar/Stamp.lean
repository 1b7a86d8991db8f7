import Bookkeeping.Calendar.IsoText
import Bookkeeping.Number.Numeral

/-! # Reading time stamps

A time stamp is an internet date-time (a hyphenated date, one of four separators, a time of day with
at least minutes, and an optional offset), a bare date, or a count of seconds since 1970 in
universal time. Counts beyond twenty thousand million either way are taken to be milliseconds.

Stamps of the year 0 are read, although the calendar starts with the year 1; they are told apart
because they are refused in words of their own.
-/

namespace Bookkeeping.Calendar

/-- The day number of the first of January 1970. -/
def epochDay : Int := 719163

/-- The counts of seconds and milliseconds are told apart by this bound. -/
def secondsBound : Nat := 20000000000

/-- What a time stamp names. -/
inductive Stamp where
  | moment (m : Moment)
  /-- An instant of the year 0, and whether it is the start of a day. -/
  | yearZero (midnight : Bool)
  deriving DecidableEq

/-- The days of the year 0, a leap year. -/
def yearZeroDays : Nat := 366

/-- The stamp of a number of microseconds after the start of 1970, if its year is in range. -/
def Stamp.ofEpochMicros? (micros : Int) : Option Stamp := do
  let day := epochDay + micros.fdiv dayMicros
  let rest := (micros.fmod dayMicros).toNat
  if 1 ≤ day then
    let (year, month, dayOfMonth) := Date.ofDayNumber day.toNat
    let date ← (Date.of year month dayOfMonth).toOption
    some (.moment ⟨date, Clock.ofMicros rest, some .utc⟩)
  else if -day < yearZeroDays then some (.yearZero (rest == 0))
  else none

/-- The stamp of a whole count. -/
def Stamp.ofCount? (count : Int) : Option Stamp :=
  let unit : Int := if count.natAbs ≤ secondsBound then 1000000 else 1000
  Stamp.ofEpochMicros? (count * unit)

/-- The whole number below a finite double. -/
def floorOf (x : Float) : Int :=
  let n := Number.truncate x
  if x < Number.ofInt n then n - 1 else n

/-- The whole number nearest to a double that is not negative, the larger of two. -/
def nearestOf (x : Float) : Int :=
  let n := Number.truncate x
  if 0.5 ≤ x - Number.ofInt n then n + 1 else n

/-- The stamp of a count given as a double: the whole seconds below it, and the microseconds nearest
to what is left. -/
def Stamp.ofFloat? (x : Float) : Option Stamp :=
  if Number.isFinite x then
    let y := if Number.ofInt secondsBound < x.abs then x / 1000 else x
    let seconds := floorOf y
    Stamp.ofEpochMicros? (seconds * 1000000 + nearestOf ((y - Number.ofInt seconds) * 1000000))
  else none

/-! ## Texts -/

/-- The number of a fixed count of digits at the head of the characters. -/
def twoDigits? (cs : List Char) : Option (Nat × List Char) :=
  match cs with
  | a :: b :: rest =>
    if a.isDigit && b.isDigit then some ((a.toNat - 48) * 10 + (b.toNat - 48), rest) else none
  | _ => none

/-- The date of three numbers, none for a day of the year 0. -/
def dateOrYearZero? (year month day : Nat) : Option (Option Date) :=
  match Date.of year month day with
  | .ok d => some (some d)
  | .error _ =>
    if year == 0 && (Date.of 400 month day).toOption.isSome then some none else none

/-- The date of the form `2024-01-25` at the head of the characters, none for a day of the year
0. -/
def hyphenated? (cs : List Char) : Option (Option Date × List Char) := do
  let (century, cs) ← twoDigits? cs
  let (years, cs) ← twoDigits? cs
  let '-' :: cs := cs | none
  let (month, cs) ← twoDigits? cs
  let '-' :: cs := cs | none
  let (day, cs) ← twoDigits? cs
  let date ← dateOrYearZero? (century * 100 + years) month day
  some (date, cs)

/-- The microseconds that the digits of a fraction stand for; further digits are dropped. -/
def fractionDigits (ds : List Nat) : Nat :=
  let kept := ds.take 6
  Text.ofDigits kept * Nat.pow 10 (6 - kept.length)

/-- Seconds with an optional fraction, if they are given. -/
def seconds? (cs : List Char) : Option ((Nat × Nat) × List Char) :=
  match cs with
  | ':' :: cs => do
    let (second, cs) ← twoDigits? cs
    match cs with
    | mark :: rest =>
      if mark == '.' || mark == ',' then
        let (ds, after) := Number.takeDigits rest
        if ds.isEmpty then none else some ((second, fractionDigits ds), after)
      else some ((second, 0), cs)
    | [] => some ((second, 0), cs)
  | cs => some ((0, 0), cs)

/-- The offset that the rest of a text spells, none for an empty rest. -/
def zone? (cs : List Char) : Option (Option Offset) :=
  match cs with
  | [] => some none
  | ['Z'] => some (some .utc)
  | ['z'] => some (some .utc)
  | sign :: cs => do
    let negative ← if sign == '+' then some false
      else if sign == '-' || sign == '\u2212' then some true else none
    let (hour, cs) ← twoDigits? cs
    let cs := match cs with
      | ':' :: cs => cs
      | _ => cs
    let (minute, cs) ← twoDigits? cs
    if cs.isEmpty && minute < 60 then
      let size : Int := ((hour * 60 + minute : Nat) : Int) * 60000000
      (Offset.of? (if negative then -size else size)).map some
    else none

/-- The stamp of an internet date-time. -/
def Stamp.ofInternet? (s : String) : Option Stamp := do
  let (date, cs) ← hyphenated? s.toList
  let mark :: cs := cs | none
  if mark == 'T' || mark == 't' || mark == ' ' || mark == '_' then
    let (hour, cs) ← twoDigits? cs
    let ':' :: cs := cs | none
    let (minute, cs) ← twoDigits? cs
    let ((second, micro), cs) ← seconds? cs
    let offset ← zone? cs
    let clock ← (Clock.of hour minute second micro).toOption
    some (date.elim (.yearZero (clock == .midnight)) fun d => .moment ⟨d, clock, offset⟩)
  else none

/-- The stamp of a bare date that a whole text spells. -/
def Stamp.ofHyphenated? (s : String) : Option Stamp :=
  match hyphenated? s.toList with
  | some (some date, []) => some (.moment (.ofDate date))
  | some (none, []) => some (.yearZero true)
  | _ => none

/-- The stamp of a count written as a number, with an optional sign. A number with a point before
anything but digits may have an exponent and is read as a double. -/
def Stamp.ofCountText? (s : String) : Option Stamp :=
  let (negative, cs) := Number.takeSign s.toList
  let (ds, rest) := Number.takeDigits cs
  match rest with
  | [] =>
    let n : Int := Text.ofDigits ds
    if ds.isEmpty || 0x8000000000000000 ≤ n then none else Stamp.ofCount? (if negative then -n else n)
  | '.' :: _ => (Number.numeral? s.toList).bind fun n => Stamp.ofFloat? n.toFloat
  | _ => none

/-- The stamp of a text of any of the forms. -/
def Stamp.ofText? (s : String) : Option Stamp :=
  match Stamp.ofInternet? s with
  | some m => some m
  | none =>
    match Stamp.ofCountText? s with
    | some m => some m
    | none => Stamp.ofHyphenated? s

end Bookkeeping.Calendar
