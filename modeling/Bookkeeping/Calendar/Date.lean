import Bookkeeping.Text.Digit

/-! # Dates

A date of the proleptic Gregorian calendar in the years 1 to 9999. A date carries the proof that it
exists, so that every date has a day number and a text of ten characters.
-/

namespace Bookkeeping.Calendar

/-- Whether a year has a twenty-ninth of February. -/
def isLeap (year : Nat) : Bool := year % 4 == 0 && (year % 100 != 0 || year % 400 == 0)

/-- The number of days in a month. -/
def daysInMonth (year month : Nat) : Nat :=
  if month == 2 then (if isLeap year then 29 else 28)
  else if month == 4 || month == 6 || month == 9 || month == 11 then 30
  else 31

/-- Why three numbers are not a date. -/
inductive DateFault where
  | year (n : Nat)
  | month
  | day
  deriving DecidableEq, Repr

/-- The first thing wrong with three numbers as a date. -/
def dateFault? (year month day : Nat) : Option DateFault :=
  if !(1 ≤ year && year ≤ 9999) then some (.year year)
  else if !(1 ≤ month && month ≤ 12) then some .month
  else if !(1 ≤ day && day ≤ daysInMonth year month) then some .day
  else none

/-- A date. -/
structure Date where
  year : Nat
  month : Nat
  day : Nat
  valid : dateFault? year month day = none
  deriving DecidableEq

namespace Date

/-- The date of three numbers, or what is wrong with them. -/
def of (year month day : Nat) : Except DateFault Date :=
  match h : dateFault? year month day with
  | none => .ok ⟨year, month, day, h⟩
  | some fault => .error fault

/-- The number of days before the first of January of a year. -/
def daysBeforeYear (year : Nat) : Nat :=
  let y := year - 1
  365 * y + y / 4 - y / 100 + y / 400

/-- The number of days of a year before the first of a month. -/
def daysBeforeMonth (year month : Nat) : Nat :=
  (List.range (month - 1)).foldl (fun days m => days + daysInMonth year (m + 1)) 0

/-- The number of a day, counted from the first of January of the year 1, which has number 1. -/
def dayNumber (year month day : Nat) : Nat :=
  daysBeforeYear year + daysBeforeMonth year month + day

/-- The month and day of the `n`-th day of a year, counted from zero. -/
def monthAndDay (year : Nat) : Nat → List Nat → Nat × Nat
  | n, m :: rest =>
    if n < daysInMonth year m then (m, n + 1) else monthAndDay year (n - daysInMonth year m) rest
  | n, [] => (12, n + 1)

/-- Year, month and day of a day number. A four-century cycle has 146097 days. -/
def ofDayNumber (number : Nat) : Nat × Nat × Nat :=
  let n := number - 1
  let guess := n / 146097 * 400 + n % 146097 / 366 + 1
  let year := if daysBeforeYear (guess + 1) ≤ n then guess + 1 else guess
  let (month, day) :=
    monthAndDay year (n - daysBeforeYear year) [1, 2, 3, 4, 5, 6, 7, 8, 9, 10, 11, 12]
  (year, month, day)

end Date

/-- A number in decimal with zeros in front up to a width. -/
def padded (width n : Nat) : String :=
  let digits := toString n
  "".pushn '0' (width - digits.length) ++ digits

/-- The text of a date, such as `2024-01-25`. -/
def Date.toText (d : Date) : String :=
  padded 4 d.year ++ "-" ++ padded 2 d.month ++ "-" ++ padded 2 d.day

end Bookkeeping.Calendar
