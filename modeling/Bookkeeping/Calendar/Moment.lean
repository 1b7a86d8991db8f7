import Bookkeeping.Calendar.Date

/-! # Moments

A moment is a date with a time of day, and optionally the offset of its clock from universal time.
Moments are compared by their text in the store; the texts of moments without an offset are ordered
as the moments are.
-/

namespace Bookkeeping.Calendar

/-- Why three numbers are not a time of day. -/
inductive ClockFault where
  | hour
  | minute
  | second
  deriving DecidableEq, Repr

/-- The first thing wrong with three numbers as a time of day. -/
def clockFault? (hour minute second : Nat) : Option ClockFault :=
  if 24 ≤ hour then some .hour
  else if 60 ≤ minute then some .minute
  else if 60 ≤ second then some .second
  else none

/-- A time of day with microseconds. -/
structure Clock where
  hour : Nat
  minute : Nat
  second : Nat
  micro : Nat
  hour_lt : hour < 24 := by omega
  minute_lt : minute < 60 := by omega
  second_lt : second < 60 := by omega
  micro_lt : micro < 1000000 := by omega
  deriving DecidableEq

namespace Clock

/-- The start of the day. -/
def midnight : Clock := { hour := 0, minute := 0, second := 0, micro := 0 }

/-- The time of day of three numbers, or what is wrong with them; the microseconds are cut to six
digits. -/
def of (hour minute second micro : Nat) : Except ClockFault Clock :=
  if h : 24 ≤ hour then .error .hour
  else if m : 60 ≤ minute then .error .minute
  else if s : 60 ≤ second then .error .second
  else .ok { hour, minute, second, micro := micro % 1000000 }

/-- The microseconds since the start of the day. -/
def micros (c : Clock) : Nat := ((c.hour * 60 + c.minute) * 60 + c.second) * 1000000 + c.micro

/-- The time of day a number of microseconds after midnight, whole days left out. -/
def ofMicros (n : Nat) : Clock :=
  let seconds := n / 1000000
  { hour := seconds / 3600 % 24, minute := seconds / 60 % 60, second := seconds % 60
    micro := n % 1000000 }

end Clock

/-- The microseconds of a day. -/
def dayMicros : Nat := 86400000000

/-- The offset of a clock from universal time in microseconds, less than a day either way. -/
structure Offset where
  micros : Int
  lt_day : micros.natAbs < dayMicros
  deriving DecidableEq

namespace Offset

def utc : Offset := ⟨0, by decide⟩

/-- The offset of a number of microseconds, if it is less than a day. -/
def of? (micros : Int) : Option Offset :=
  if h : micros.natAbs < dayMicros then some ⟨micros, h⟩ else none

end Offset

/-- A date and a time of day, with the offset of the clock if it is known. -/
structure Moment where
  date : Date
  clock : Clock
  offset : Option Offset
  deriving DecidableEq

namespace Moment

/-- The start of a day, without an offset. -/
def ofDate (d : Date) : Moment := ⟨d, .midnight, none⟩

/-- The microseconds since the start of the calendar, as the clock shows them. -/
def localMicros (m : Moment) : Int :=
  (Date.dayNumber m.date.year m.date.month m.date.day : Int) * dayMicros + m.clock.micros

/-- The instant of a moment; a clock without an offset is taken to show universal time. -/
def instant (m : Moment) : Int := m.localMicros - (m.offset.map Offset.micros).getD 0

end Moment

/-- Microseconds as a fraction after the point, left out if zero. -/
def fractionText (micro : Nat) : String := if micro == 0 then "" else "." ++ padded 6 micro

/-- The text of a time of day, such as `09:30:00`. -/
def Clock.toText (c : Clock) : String :=
  padded 2 c.hour ++ ":" ++ padded 2 c.minute ++ ":" ++ padded 2 c.second ++ fractionText c.micro

/-- The text of an offset, such as `+01:00`; seconds are written only if there are any. -/
def Offset.toText (o : Offset) : String :=
  let n := o.micros.natAbs
  let seconds := n / 1000000
  (if o.micros < 0 then "-" else "+") ++ padded 2 (seconds / 3600) ++ ":"
    ++ padded 2 (seconds / 60 % 60)
    ++ (if n % 60000000 == 0 then ""
      else ":" ++ padded 2 (seconds % 60) ++ fractionText (n % 1000000))

/-- The text of a moment, such as `2024-01-25T09:30:00+01:00`. -/
def Moment.toText (m : Moment) : String :=
  m.date.toText ++ "T" ++ m.clock.toText ++ ((m.offset.map Offset.toText).getD "")

/-- A span of time by days, seconds and microseconds, the last two never negative. -/
def spanText (micros : Int) : String :=
  let days := micros.fdiv dayMicros
  let rest := (micros.fmod dayMicros).toNat
  let parts := (if days == 0 then [] else ["days=" ++ toString days])
    ++ (if rest / 1000000 == 0 then [] else ["seconds=" ++ toString (rest / 1000000)])
    ++ (if rest % 1000000 == 0 then [] else ["microseconds=" ++ toString (rest % 1000000)])
  "datetime.timedelta(" ++ (if parts.isEmpty then "0" else ", ".intercalate parts) ++ ")"

end Bookkeeping.Calendar
