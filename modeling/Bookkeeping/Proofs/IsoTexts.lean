import Mathlib.Algebra.Group.Nat.Defs
import Mathlib.Data.List.TakeWhile
import Bookkeeping.Calendar.IsoText

/-! # Texts of moments

The text of a moment has its numbers in fixed numbers of digits, and the reader finds them there. So
every moment can be read from its text; what is lost is an offset of less than a second.
-/

namespace Bookkeeping.Calendar

open Text

/-! ## Numbers in a fixed number of digits -/

theorem toList_pushn (c : Char) (n : Nat) : ("".pushn c n).toList = List.replicate n c := by
  rw [String.pushn_eq_repeat_push]
  induction n with
  | zero => rfl
  | succ n ih => rw [Nat.repeat, String.toList_push, ih, List.replicate_succ']

theorem toList_padded (width n : Nat) :
    (padded width n).toList
      = List.replicate (width - (Nat.toDigits 10 n).length) '0' ++ Nat.toDigits 10 n := by
  rw [padded, String.toList_append, toList_pushn, Nat.toString_eq_repr, Nat.toList_repr,
    ← Nat.toList_repr, String.length_toList]

theorem isDigit_of_mem_padded {width n : Nat} {c : Char} (h : c ∈ (padded width n).toList) :
    c.isDigit = true := by
  rw [toList_padded] at h
  rcases List.mem_append.1 h with h | h
  · rw [List.eq_of_mem_replicate h]
    rfl
  · exact Nat.isDigit_of_mem_toDigits (by decide) (by decide) h

theorem length_padded {width n : Nat} (hw : 0 < width) (hn : n < 10 ^ width) :
    (padded width n).length = width := by
  rw [← String.length_toList, toList_padded, List.length_append, List.length_replicate]
  have := (Nat.length_toDigits_le_iff (by decide) hw).2 hn
  omega

theorem ofDigitChars_padded (width n : Nat) : Nat.ofDigitChars 10 (padded width n).toList 0 = n := by
  rw [toList_padded, Nat.ofDigitChars_append, Nat.ofDigitChars_replicate_zero, Nat.mul_zero,
    Nat.ofDigitChars_ten_toDigits]

theorem charBytes_of_isDigit {c : Char} (h : c.isDigit = true) : charBytes c = [c.toNat] := by
  have : c.toNat ≤ 57 := by
    simp only [Char.isDigit, Bool.and_eq_true, decide_eq_true_eq] at h
    exact h.2
  rw [charBytes, if_pos (by omega)]

theorem isDigitByte_toNat {c : Char} (h : c.isDigit = true) : isDigitByte c.toNat = true := by
  simp only [Char.isDigit, Bool.and_eq_true, decide_eq_true_eq] at h
  simp only [isDigitByte, Bool.and_eq_true, decide_eq_true_eq]
  exact h

/-- Digits that are all there are read one by one. -/
theorem fixedDigits?_digits (cs : List Char) (h : ∀ c ∈ cs, c.isDigit = true) (rest : List Nat)
    (acc : Nat) :
    fixedDigits? cs.length (cs.flatMap charBytes ++ rest) acc
      = some (Nat.ofDigitChars 10 cs acc, rest) := by
  induction cs generalizing acc with
  | nil => rfl
  | cons c cs ih =>
    have hc := h c List.mem_cons_self
    rw [List.flatMap_cons, charBytes_of_isDigit hc, List.length_cons, Nat.ofDigitChars_cons]
    exact (if_pos (isDigitByte_toNat hc)).trans (ih (fun x hx => h x (List.mem_cons_of_mem c hx)) _)

theorem bytes_append (s t : String) : bytes (s ++ t) = bytes s ++ bytes t := by
  rw [bytes, String.toList_append, List.flatMap_append]
  rfl

theorem bytes_hyphen : bytes "-" = [45] := rfl

theorem bytes_colon : bytes ":" = [58] := rfl

theorem bytes_point : bytes "." = [46] := rfl

/-- A number that is padded is read again. -/
theorem fixedDigits?_padded {width n : Nat} (hw : 0 < width) (hn : n < 10 ^ width)
    (rest : List Nat) :
    fixedDigits? width (bytes (padded width n) ++ rest) 0 = some (n, rest) := by
  have h := fixedDigits?_digits (padded width n).toList (fun c => isDigit_of_mem_padded) rest 0
  rwa [String.length_toList, length_padded hw hn, ofDigitChars_padded] at h

theorem isDigitByte_of_mem_padded {width n b : Nat} (h : b ∈ bytes (padded width n)) :
    isDigitByte b = true := by
  obtain ⟨c, hc, hb⟩ := List.mem_flatMap.1 h
  have hdigit := isDigit_of_mem_padded hc
  rw [charBytes_of_isDigit hdigit, List.mem_singleton] at hb
  exact hb ▸ isDigitByte_toNat hdigit

theorem length_bytes_padded {width n : Nat} (hw : 0 < width) (hn : n < 10 ^ width) :
    (bytes (padded width n)).length = width := by
  have hone (cs : List Char) (h : ∀ c ∈ cs, c.isDigit = true) :
      (cs.flatMap charBytes).length = cs.length := by
    induction cs with
    | nil => rfl
    | cons c cs ih =>
      rw [List.flatMap_cons, charBytes_of_isDigit (h c List.mem_cons_self), List.length_append,
        ih fun x hx => h x (List.mem_cons_of_mem c hx), List.length_singleton, List.length_cons,
        Nat.add_comm]
  rw [bytes, hone _ fun c => isDigit_of_mem_padded, String.length_toList, length_padded hw hn]

/-- Two digits, as they are read. -/
theorem bytes_padded_two {n : Nat} (hn : n < 100) :
    ∃ a b, bytes (padded 2 n) = [a, b] ∧ isDigitByte a = true ∧ isDigitByte b = true ∧
      ∀ rest, fixedDigits? 2 (a :: b :: rest) 0 = some (n, rest) := by
  have hlen := length_bytes_padded (by decide : 0 < 2) hn
  have hdigits (x : Nat) := @isDigitByte_of_mem_padded 2 n x
  have hread := fixedDigits?_padded (by decide : 0 < 2) hn
  match h : bytes (padded 2 n) with
  | [a, b] =>
    rw [h] at hdigits hread
    exact ⟨a, b, rfl, hdigits a (by simp), hdigits b (by simp), hread⟩
  | [] | [_] | _ :: _ :: _ :: _ =>
    rw [h] at hlen
    simp at hlen

theorem bytes_padded_four {n : Nat} (hn : n < 10000) :
    ∃ a b c d, bytes (padded 4 n) = [a, b, c, d] ∧
      ∀ rest, fixedDigits? 4 (a :: b :: c :: d :: rest) 0 = some (n, rest) := by
  have hlen := length_bytes_padded (by decide : 0 < 4) hn
  have hread := fixedDigits?_padded (by decide : 0 < 4) hn
  match h : bytes (padded 4 n) with
  | [a, b, c, d] =>
    rw [h] at hread
    exact ⟨a, b, c, d, rfl, hread⟩
  | [] | [_] | [_, _] | [_, _, _] | _ :: _ :: _ :: _ :: _ :: _ =>
    rw [h] at hlen
    simp at hlen

/-! ## Dates -/

theorem Date.bounds (d : Date) :
    1 ≤ d.year ∧ d.year ≤ 9999 ∧ 1 ≤ d.month ∧ d.month ≤ 12 ∧ 1 ≤ d.day ∧ d.day ≤ 31 := by
  have hv := d.valid
  have hm : daysInMonth d.year d.month ≤ 31 := by
    unfold daysInMonth
    repeat' split
    all_goals omega
  unfold dateFault? at hv
  repeat' split at hv
  all_goals simp_all
  omega

theorem Date.of_eq (d : Date) : Date.of d.year d.month d.day = .ok d := by
  have hv := d.valid
  unfold Date.of
  split
  · rfl
  · rename_i fault h
    rw [hv] at h
    cases h

/-- The text of a date takes up ten bytes, and its numbers are found in them. -/
theorem dateNumbers?_toText (d : Date) :
    ∃ y₁ y₂ y₃ y₄ m₁ m₂ d₁ d₂,
      bytes d.toText = [y₁, y₂, y₃, y₄, 45, m₁, m₂, 45, d₁, d₂] ∧ m₁ ≠ 87 ∧
      dateNumbers? [y₁, y₂, y₃, y₄, 45, m₁, m₂, 45, d₁, d₂] = some (d.year, d.month, d.day) := by
  obtain ⟨-, hyear, -, hmonth, -, hday⟩ := d.bounds
  obtain ⟨y₁, y₂, y₃, y₄, hy, hyread⟩ := bytes_padded_four (n := d.year) (by omega)
  obtain ⟨m₁, m₂, hm, hm₁, -, hmread⟩ := bytes_padded_two (n := d.month) (by omega)
  obtain ⟨d₁, d₂, hd, -, -, hdread⟩ := bytes_padded_two (n := d.day) (by omega)
  have hne : m₁ ≠ 87 := by
    rintro rfl
    cases hm₁
  refine ⟨y₁, y₂, y₃, y₄, m₁, m₂, d₁, d₂, ?_, hne, ?_⟩
  · simp only [Date.toText, bytes_append, bytes_hyphen, hy, hm, hd, List.cons_append, List.nil_append]
  · rw [dateNumbers?]
    simp only [hyread, hyphen?, bind, Option.bind, List.head?_cons, beq_self_eq_true,
      if_true, List.tail_cons]
    split
    · rename_i h
      cases h
      exact absurd rfl hne
    · simp [hmread, hdread]

/-! ## Times -/

/-- A byte that is a digit or separates digits opens no offset. -/
theorem opensOffset_of_isDigitByte {b : Nat} (h : isDigitByte b = true) : opensOffset b = false := by
  simp only [isDigitByte, Bool.and_eq_true, decide_eq_true_eq] at h
  have : b ≠ 43 ∧ b ≠ 45 ∧ b ≠ 90 := by omega
  simp [opensOffset, this]

theorem opensOffset_of_mem_padded {width n b : Nat} (h : b ∈ bytes (padded width n)) :
    opensOffset b = false :=
  opensOffset_of_isDigitByte (isDigitByte_of_mem_padded h)

theorem opensOffset_of_mem_fractionText {micro b : Nat} (h : b ∈ bytes (fractionText micro)) :
    opensOffset b = false := by
  unfold fractionText at h
  split at h
  · cases h
  · rw [bytes_append] at h
    rcases List.mem_append.1 h with h | h
    · obtain rfl : b = 46 := by simpa [bytes, charBytes] using h
      rfl
    · exact opensOffset_of_mem_padded h

theorem fraction?_padded {micro : Nat} (hm : micro < 10 ^ 6) (after : Nat) :
    fraction? (bytes (padded 6 micro)) after = some (micro, after != 0) := by
  have hread := fixedDigits?_padded (by decide : 0 < 6) hm []
  rw [List.append_nil] at hread
  rw [fraction?, length_bytes_padded (by decide) hm, Nat.min_self, hread]
  simp

/-- A group of digits that a colon follows. -/
theorem groups?_colon {n value a b : Nat} {colons : Option Bool} (hc : colons.getD true = true)
    (hread : ∀ rest, fixedDigits? 2 (a :: b :: rest) 0 = some (value, rest)) {more : List Nat}
    (hmore : more ≠ []) (after : Nat) :
    groups? (n + 1) colons (a :: b :: 58 :: more) after
      = (groups? n (some true) more after).map fun (vs, r) => (value :: vs, r) := by
  cases more with
  | nil => exact absurd rfl hmore
  | cons x more => simp [groups?, hread, hc]

/-- The last group of digits, with a fraction of six digits unless it is zero. -/
theorem groups?_end {n value micro a b : Nat} (colons : Option Bool)
    (hread : ∀ rest, fixedDigits? 2 (a :: b :: rest) 0 = some (value, rest)) (hm : micro < 10 ^ 6)
    (after : Nat) :
    groups? (n + 1) colons (a :: b :: bytes (fractionText micro)) after
      = some ([value], micro, after != 0) := by
  by_cases hzero : micro = 0
  · subst hzero
    simp [groups?, fractionText, bytes, hread]
  · have hbytes : bytes (fractionText micro) = 46 :: bytes (padded 6 micro) := by
      rw [fractionText, if_neg (by simpa using hzero), bytes_append, bytes_point]
      rw [List.singleton_append]
    have hfraction := fraction?_padded hm after
    have hlen := length_bytes_padded (by decide : 0 < 6) hm
    rw [hbytes]
    generalize bytes (padded 6 micro) = bs at hfraction hlen
    cases bs with
    | nil => cases hlen
    | cons x rest => simp [groups?, hread, hfraction]

/-- The text of a time with its seconds. -/
def timeText (hour minute second micro : Nat) : String :=
  padded 2 hour ++ ":" ++ padded 2 minute ++ ":" ++ padded 2 second ++ fractionText micro

theorem clockNumbers?_timeText {hour minute second micro : Nat} (hh : hour < 100)
    (hm : minute < 100) (hs : second < 100) (hmicro : micro < 10 ^ 6) (after : Nat) :
    clockNumbers? (bytes (timeText hour minute second micro)) after
      = some { hour, minute, second, micro, leftOver := after != 0 } := by
  obtain ⟨a, b, hab, -, -, habread⟩ := bytes_padded_two hh
  obtain ⟨c, d, hcd, -, -, hcdread⟩ := bytes_padded_two hm
  obtain ⟨e, f, hef, -, -, hefread⟩ := bytes_padded_two hs
  have hbytes : bytes (timeText hour minute second micro)
      = a :: b :: 58 :: c :: d :: 58 :: e :: f :: bytes (fractionText micro) := by
    simp only [timeText, bytes_append, bytes_colon, hab, hcd, hef, List.cons_append,
      List.nil_append]
  rw [hbytes, clockNumbers?, groups?_colon rfl habread (by simp), groups?_colon rfl hcdread (by simp),
    groups?_end _ hefread hmicro]
  rfl

theorem bytes_clock (c : Clock) :
    bytes c.toText = bytes (timeText c.hour c.minute c.second c.micro) := rfl

theorem opensOffset_of_mem_clock {c : Clock} {b : Nat} (h : b ∈ bytes c.toText) :
    opensOffset b = false := by
  simp only [Clock.toText, bytes_append, bytes_colon, List.mem_append, List.mem_singleton] at h
  rcases h with ((((h | rfl) | h) | rfl) | h) | h
  · exact opensOffset_of_mem_padded h
  · rfl
  · exact opensOffset_of_mem_padded h
  · rfl
  · exact opensOffset_of_mem_padded h
  · exact opensOffset_of_mem_fractionText h

/-! ## Offsets -/

/-- What is left of an offset when it is read from its text: less than a second counts as none. -/
def Offset.kept (o : Offset) : Offset := if o.micros.natAbs < 1000000 then .utc else o

/-- The bytes of an offset: its sign, and a time that has the numbers of its size. -/
theorem bytes_offset (o : Offset) : ∃ rest,
    bytes o.toText = (if o.micros < 0 then 45 else 43) :: rest ∧
      clockNumbers? rest 0 = some
        { hour := o.micros.natAbs / 1000000 / 3600, minute := o.micros.natAbs / 1000000 / 60 % 60
          second := o.micros.natAbs / 1000000 % 60, micro := o.micros.natAbs % 1000000 } := by
  have hlt := o.lt_day
  rw [dayMicros] at hlt
  generalize hn : o.micros.natAbs = n at hlt
  have hsign : bytes (if o.micros < 0 then "-" else "+") = [if o.micros < 0 then 45 else 43] := by
    split <;> rfl
  by_cases hs : n % 60000000 = 0
  · obtain ⟨a, b, hab, -, -, habread⟩ := bytes_padded_two (n := n / 1000000 / 3600) (by omega)
    obtain ⟨c, d, hcd, -, -, hcdread⟩ := bytes_padded_two (n := n / 1000000 / 60 % 60) (by omega)
    have hend := groups?_end (n := 1) (some true) hcdread (by decide : 0 < 10 ^ 6) 0
    have hempty : bytes (fractionText 0) = [] := rfl
    have hsecond : n / 1000000 % 60 = 0 := by omega
    have hmicro : n % 1000000 = 0 := by omega
    refine ⟨[a, b, 58, c, d], ?_, ?_⟩
    · simp only [Offset.toText, bytes_append, hsign, bytes_colon, hn, hab, hcd, hs, beq_self_eq_true,
        if_true, List.cons_append, List.nil_append]
      rfl
    · rw [hempty] at hend
      rw [clockNumbers?, groups?_colon rfl habread (by simp), hend, hsecond, hmicro]
      rfl
  · refine ⟨bytes (timeText (n / 1000000 / 3600) (n / 1000000 / 60 % 60) (n / 1000000 % 60)
      (n % 1000000)), ?_, ?_⟩
    · simp only [Offset.toText, timeText, bytes_append, hsign, hn, beq_iff_eq, hs, if_false,
        List.append_assoc, List.cons_append, List.nil_append]
    · exact clockNumbers?_timeText (by omega) (by omega) (by omega) (by omega) 0

/-- The size of an offset is made up of the numbers of its text, if it is at least a second. -/
theorem Offset.size_eq (o : Offset) :
    (if (o.micros.natAbs / 1000000 / 3600 * 60 + o.micros.natAbs / 1000000 / 60 % 60) * 60
          + o.micros.natAbs / 1000000 % 60 == 0 then (0 : Int)
      else ((o.micros.natAbs / 1000000 / 3600 * 60 + o.micros.natAbs / 1000000 / 60 % 60) * 60
          + o.micros.natAbs / 1000000 % 60 : Nat) * 1000000 + (o.micros.natAbs % 1000000 : Nat))
      = o.kept.micros.natAbs := by
  have hseconds : (o.micros.natAbs / 1000000 / 3600 * 60 + o.micros.natAbs / 1000000 / 60 % 60) * 60
      + o.micros.natAbs / 1000000 % 60 = o.micros.natAbs / 1000000 := by omega
  rw [hseconds, Offset.kept]
  by_cases hn : o.micros.natAbs < 1000000
  · have hzero : o.micros.natAbs / 1000000 = 0 := by omega
    rw [if_pos hn, hzero]
    rfl
  · have hpos : o.micros.natAbs / 1000000 ≠ 0 := by omega
    rw [if_neg hn, if_neg (by simpa using hpos)]
    omega

theorem Offset.kept_sign (o : Offset) :
    o.kept.micros = if o.micros < 0 then -(o.kept.micros.natAbs : Int) else o.kept.micros.natAbs := by
  unfold kept
  split
  · simp [utc]
  · split <;> omega

theorem timeNumbers?_toText (c : Clock) (o : Option Offset) : ∃ leftOver,
    timeNumbers? (bytes c.toText ++ bytes ((o.map Offset.toText).getD "")) = some
      ({ hour := c.hour, minute := c.minute, second := c.second, micro := c.micro, leftOver },
        o.map fun o => o.kept.micros) := by
  have hclock (after : Nat) := clockNumbers?_timeText (by have := c.hour_lt; omega : c.hour < 100)
    (by have := c.minute_lt; omega : c.minute < 100) (by have := c.second_lt; omega : c.second < 100)
    c.micro_lt after
  have hbefore : ∀ b ∈ bytes c.toText, (!opensOffset b) = true := fun b hb => by
    rw [opensOffset_of_mem_clock hb]
    rfl
  unfold timeNumbers?
  rw [List.takeWhile_append_of_pos hbefore, List.dropWhile_append_of_pos hbefore]
  cases o with
  | none =>
    refine ⟨false, ?_⟩
    have hempty : bytes ((Option.map Offset.toText none).getD "") = [] := rfl
    simp only [hempty, List.takeWhile_nil, List.dropWhile_nil, List.append_nil, bytes_clock, hclock]
    rfl
  | some o =>
    refine ⟨true, ?_⟩
    obtain ⟨rest, hrest, hread⟩ := bytes_offset o
    have hbytes : bytes ((Option.map Offset.toText (some o)).getD "") = _ := hrest
    have hsize := o.size_eq
    rw [hbytes, Option.map_some, o.kept_sign, ← hsize]
    split
    · simp [opensOffset, bytes_clock, hclock, hread]
    · simp [opensOffset, bytes_clock, hclock, hread]

/-! ## Moments -/

theorem Offset.of?_eq (o : Offset) : Offset.of? o.micros = some o := dif_pos o.lt_day

theorem Clock.of_eq (c : Clock) : Clock.of c.hour c.minute c.second c.micro = .ok c := by
  have hmicro := Nat.mod_eq_of_lt c.micro_lt
  rw [Clock.of, dif_neg (Nat.not_le.2 c.hour_lt), dif_neg (Nat.not_le.2 c.minute_lt),
    dif_neg (Nat.not_le.2 c.second_lt)]
  simp only [hmicro]

theorem Date.length_toText (d : Date) : d.toText.length = 10 := by
  obtain ⟨-, hyear, -, hmonth, -, hday⟩ := d.bounds
  rw [Date.toText, String.length_append, String.length_append, String.length_append,
    String.length_append, length_padded (by decide) (by omega : d.year < 10 ^ 4),
    length_padded (by decide) (by omega : d.month < 10 ^ 2),
    length_padded (by decide) (by omega : d.day < 10 ^ 2)]
  rfl

theorem momentNumbers?_toText (m : Moment) : ∃ leftOver,
    momentNumbers? m.toText = some ((m.date.year, m.date.month, m.date.day),
      { hour := m.clock.hour, minute := m.clock.minute, second := m.clock.second
        micro := m.clock.micro, leftOver }, m.offset.map fun o => o.kept.micros) := by
  obtain ⟨y₁, y₂, y₃, y₄, m₁, m₂, d₁, d₂, hdate, hne, hnumbers⟩ := dateNumbers?_toText m.date
  obtain ⟨leftOver, htime⟩ := timeNumbers?_toText m.clock m.offset
  refine ⟨leftOver, ?_⟩
  have hlen : ¬ m.toText.length < 7 := by
    rw [Moment.toText, String.length_append, String.length_append, String.length_append,
      Date.length_toText]
    omega
  have hbytes : bytes m.toText = [y₁, y₂, y₃, y₄, 45, m₁, m₂, 45, d₁, d₂]
      ++ 84 :: (bytes m.clock.toText ++ bytes ((m.offset.map Offset.toText).getD "")) := by
    have hmark : bytes "T" = [84] := rfl
    simp only [Moment.toText, bytes_append, hdate, hmark, List.cons_append, List.nil_append]
  generalize bytes m.clock.toText ++ bytes ((m.offset.map Offset.toText).getD "") = time
    at htime hbytes
  have hsize : dateLength? (bytes m.toText) = some 10 := by
    rw [hbytes]
    simp [dateLength?, byteAt, hne]
  unfold momentNumbers?
  simp only [hlen, hsize, if_false, bind, Option.bind]
  simp [hbytes, hnumbers, dropChar, htime]

/-- Every moment can be read from its text. -/
theorem Moment.ofIso_toText (m : Moment) :
    Moment.ofIso m.toText = .ok { m with offset := m.offset.map Offset.kept } := by
  obtain ⟨leftOver, hnumbers⟩ := momentNumbers?_toText m
  simp only [Moment.ofIso, hnumbers, Date.of_eq, Clock.of_eq]
  cases m.offset with
  | none => rfl
  | some o =>
    simp only [Option.map_some, Offset.of?_eq]
    rfl

end Bookkeeping.Calendar
