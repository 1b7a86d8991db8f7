import Bookkeeping.Text.Bytes
import Bookkeeping.Text.Quoted
import Bookkeeping.Calendar.Moment

/-! # Reading ISO 8601

The reader of moments takes the calendar form and the week form of a date, each with or without
hyphens, any one character between date and time, and a time of day down to fractions of a second
with an optional offset. It looks at bytes; the end of the text reads as the byte zero.
-/

namespace Bookkeeping.Calendar

/-- Why a text is not a moment. -/
inductive IsoFault where
  | malformed (text : String)
  | offset (micros : Int)
  | date (fault : DateFault)
  | clock (fault : ClockFault)
  deriving DecidableEq, Repr

/-- What is said about a text that is not a moment. -/
def IsoFault.message : IsoFault → String
  | .malformed text => "Invalid isoformat string: " ++ Text.quoted text
  | .offset micros => "offset must be a timedelta strictly between -timedelta(hours=24) and "
      ++ "timedelta(hours=24), not " ++ spanText micros ++ "."
  | .date (.year n) => "year " ++ toString n ++ " is out of range"
  | .date .month => "month must be in 1..12"
  | .date .day => "day is out of range for month"
  | .clock .hour => "hour must be in 0..23"
  | .clock .minute => "minute must be in 0..59"
  | .clock .second => "second must be in 0..59"

/-! ## Bytes -/

/-- Whether a byte is an ASCII digit. -/
def isDigitByte (b : Nat) : Bool := 48 ≤ b && b ≤ 57

/-- The number spelled by the first `n` bytes, which must all be digits, and the bytes after. -/
def fixedDigits? : Nat → List Nat → Nat → Option (Nat × List Nat)
  | 0, bs, acc => some (acc, bs)
  | n + 1, b :: bs, acc => if isDigitByte b then fixedDigits? n bs (10 * acc + (b - 48)) else none
  | _ + 1, [], _ => none

/-- The byte at a place, zero beyond the end. -/
def byteAt (bs : List Nat) (i : Nat) : Nat := bs[i]?.getD 0

/-! ## Dates -/

/-- The weekday of the first of January, zero for Monday. -/
def firstWeekday (year : Nat) : Nat := (Date.dayNumber year 1 1 + 6) % 7

/-- The day number of the Monday that starts the first week of a year. -/
def firstMonday (year : Nat) : Nat :=
  let first := Date.dayNumber year 1 1
  let weekday := firstWeekday year
  if 3 < weekday then first + 7 - weekday else first - weekday

/-- Whether a year has a week of that number: the fifty-third belongs to the years that start on a
Thursday and to the leap years that start on a Wednesday. -/
def hasWeek (year week : Nat) : Bool :=
  (1 ≤ week && week ≤ 52)
    || (week == 53 && (firstWeekday year == 3 || (firstWeekday year == 2 && isLeap year)))

/-- Year, month and day of a day in a week of a year. -/
def ofWeek? (year week day : Nat) : Option (Nat × Nat × Nat) :=
  if 1 ≤ year && hasWeek year week && 1 ≤ day && day ≤ 7 then
    some (Date.ofDayNumber (firstMonday year + (week - 1) * 7 + day - 1))
  else none

/-- A hyphen, if the form has them, and what follows. -/
def hyphen? (uses : Bool) (bs : List Nat) : Option (List Nat) :=
  match uses, bs with
  | true, 45 :: rest => some rest
  | true, _ => none
  | false, bs => some bs

/-- The three numbers of a date that takes up all the bytes. -/
def dateNumbers? (bs : List Nat) : Option (Nat × Nat × Nat) := do
  let (year, bs) ← fixedDigits? 4 bs 0
  let uses := bs.head? == some 45
  let bs := if uses then bs.tail else bs
  match bs with
  | 87 :: bs =>
    let (week, bs) ← fixedDigits? 2 bs 0
    if bs.isEmpty then ofWeek? year week 1
    else
      let bs ← hyphen? uses bs
      let (day, bs) ← fixedDigits? 1 bs 0
      if bs.isEmpty then ofWeek? year week day else none
  | bs =>
    let (month, bs) ← fixedDigits? 2 bs 0
    let bs ← hyphen? uses bs
    let (day, bs) ← fixedDigits? 2 bs 0
    if bs.isEmpty then some (year, month, day) else none

/-- How many bytes the date takes up. In the week forms the digits that follow decide: times have
their digits in pairs. -/
def dateLength? (bs : List Nat) : Option Nat :=
  let size := bs.length
  if size == 7 then some 7
  else if byteAt bs 4 == 45 then
    if byteAt bs 5 == 87 then
      if 8 < size && byteAt bs 8 == 45 then
        if size == 9 then none
        else if 10 < size && isDigitByte (byteAt bs 10) then some 8
        else some 10
      else some 8
    else some 10
  else if byteAt bs 4 == 87 then
    let stop := 7 + ((bs.drop 7).takeWhile isDigitByte).length
    if stop < 9 then some stop
    else if stop % 2 == 0 then some 7
    else some 8
  else some 8

/-! ## Times -/

/-- A time as it is read: hours, minutes, seconds, microseconds, and whether a byte is left over. -/
structure ClockNumbers where
  hour : Nat := 0
  minute : Nat := 0
  second : Nat := 0
  micro : Nat := 0
  leftOver : Bool := false

/-- The fraction of a second: up to six digits count and further ones are skipped. The byte `after`
stands behind the given ones. -/
def fraction? (bs : List Nat) (after : Nat) : Option (Nat × Bool) :=
  let n := min 6 bs.length
  (fixedDigits? n bs 0).map fun (value, rest) =>
    (value * Nat.pow 10 (6 - n), ((rest.dropWhile isDigitByte).head?.getD after) != 0)

/-- The groups of two digits and the fraction after them: the values of the groups, the microseconds
and whether a byte is left over. `colons` says whether groups are separated, once that is known. -/
def groups? : Nat → Option Bool → List Nat → Nat → Option (List Nat × Nat × Bool)
  | 0, _, bs, after => (fraction? bs after).map fun (micro, left) => ([], micro, left)
  | n + 1, colons, bs, after => do
    let (value, rest) ← fixedDigits? 2 bs 0
    match rest with
    | [] => some ([value], 0, after != 0)
    | [c] => some ([value], 0, c != 0)
    | c :: more =>
      let colons := colons.getD (c == 58)
      if colons && c == 58 then
        (groups? n (some colons) more after).map fun (vs, r) => (value :: vs, r)
      else if c == 46 || c == 44 then
        (fraction? more after).map fun (micro, left) => ([value], micro, left)
      else if colons then none
      else (groups? n (some colons) rest after).map fun (vs, r) => (value :: vs, r)

/-- The numbers of a time of day or of an offset. -/
def clockNumbers? (bs : List Nat) (after : Nat) : Option ClockNumbers :=
  (groups? 3 none bs after).map fun (vs, micro, leftOver) =>
    { hour := vs[0]?.getD 0, minute := vs[1]?.getD 0, second := vs[2]?.getD 0, micro, leftOver }

/-- Whether a byte opens an offset: a plus, a hyphen or the letter Z. -/
def opensOffset (b : Nat) : Bool := b == 43 || b == 45 || b == 90

/-- A time of day with the microseconds of its offset, if it has one. A single byte left over before
an offset is passed over. An offset of less than a second is none at all. -/
def timeNumbers? (bs : List Nat) : Option (ClockNumbers × Option Int) := do
  let clock := bs.takeWhile fun b => !opensOffset b
  match bs.dropWhile fun b => !opensOffset b with
  | [] =>
    let c ← clockNumbers? clock 0
    if c.leftOver then none else some (c, none)
  | mark :: rest =>
    let c ← clockNumbers? clock mark
    if mark == 90 then
      if rest.head?.getD 0 == 0 then some (c, some 0) else none
    else
      let o ← clockNumbers? rest 0
      if o.leftOver then none
      else
        let seconds : Nat := (o.hour * 60 + o.minute) * 60 + o.second
        let size : Int := if seconds == 0 then 0 else seconds * 1000000 + o.micro
        some (c, some (if mark == 45 then -size else size))

/-! ## Moments -/

/-- The bytes of the character at the head of a list, left out. -/
def dropChar : List Nat → List Nat
  | [] => []
  | b :: bs => if b < 0x80 then bs else bs.dropWhile fun b => 0x80 ≤ b && b < 0xc0

/-- The numbers of a moment, before any of them is checked against its range. -/
def momentNumbers? (s : String) : Option ((Nat × Nat × Nat) × ClockNumbers × Option Int) := do
  let bs := Text.bytes s
  if s.length < 7 then none
  else
    let size ← dateLength? bs
    let date ← dateNumbers? (bs.take size)
    if bs.length ≤ size then some (date, {}, none)
    else
      let (clock, offset) ← timeNumbers? (dropChar (bs.drop size))
      some (date, clock, offset)

/-- The moment that a text spells. -/
def Moment.ofIso (s : String) : Except IsoFault Moment :=
  match momentNumbers? s with
  | none => .error (.malformed s)
  | some ((year, month, day), c, offset) => do
    let offset ← match offset with
      | none => .ok none
      | some micros => match Offset.of? micros with
        | some o => .ok (some o)
        | none => .error (.offset micros)
    let date ← (Date.of year month day).mapError .date
    let clock ← (Clock.of c.hour c.minute c.second c.micro).mapError .clock
    .ok ⟨date, clock, offset⟩

/-- The date that a text of the form `2024-01-25` spells. -/
def Date.ofIso? (s : String) : Option Date := do
  let (year, month, day) ← dateNumbers? (Text.bytes s)
  (Date.of year month day).toOption

end Bookkeeping.Calendar
