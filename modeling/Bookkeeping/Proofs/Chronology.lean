import Bookkeeping.Proofs.IsoTexts

/-! # Texts in the order of time

Numbers that are padded to one width have texts in the order of the numbers, and the text of a moment
is made of such numbers, the larger units first. So of two moments whose clocks show different times
the one with the earlier time has the smaller text: the fraction of a second, which is left out if it
is zero, and the offset at the end open with characters below the point.
-/

namespace Bookkeeping.Calendar

/-! ## Lists of characters -/

theorem lt_append {as bs : List Char} (hlen : as.length = bs.length) (h : as < bs)
    (cs ds : List Char) : as ++ cs < bs ++ ds := by
  induction as generalizing bs with
  | nil =>
    rw [List.eq_nil_of_length_eq_zero hlen.symm] at h
    exact absurd h (List.lt_irrefl [])
  | cons a as ih =>
    cases bs with
    | nil => cases hlen
    | cons b bs =>
      rw [List.cons_append, List.cons_append, List.cons_lt_cons_iff]
      rcases List.cons_lt_cons_iff.1 h with hab | ⟨hab, h⟩
      · exact .inl hab
      · exact .inr ⟨hab, ih (Nat.succ.inj hlen) h⟩

theorem ofDigitChars_cons_zero (c : Char) (cs : List Char) :
    Nat.ofDigitChars 10 (c :: cs) 0
      = 10 ^ cs.length * (c.toNat - '0'.toNat) + Nat.ofDigitChars 10 cs 0 := by
  rw [Nat.ofDigitChars_cons, Nat.ofDigitChars_eq_ofDigitChars_zero, Nat.mul_zero, Nat.zero_add]

theorem ofDigitChars_lt {cs : List Char} (h : ∀ c ∈ cs, c.isDigit = true) :
    Nat.ofDigitChars 10 cs 0 < 10 ^ cs.length := by
  induction cs with
  | nil => decide
  | cons c cs ih =>
    have hdigit : c.toNat - '0'.toNat ≤ 9 := by
      have hc := h c List.mem_cons_self
      simp only [Char.isDigit, Bool.and_eq_true, decide_eq_true_eq] at hc
      have : c.toNat ≤ 57 := hc.2
      show c.toNat - 48 ≤ 9
      omega
    have hrest := ih fun d hd => h d (List.mem_cons_of_mem c hd)
    rw [ofDigitChars_cons_zero, List.length_cons, Nat.pow_succ]
    have := Nat.mul_le_mul_left (10 ^ cs.length) hdigit
    omega

/-- Of two lists of digits of one length the one that spells the smaller number is the smaller. -/
theorem lt_of_ofDigitChars_lt {as bs : List Char} (hlen : as.length = bs.length)
    (ha : ∀ c ∈ as, c.isDigit = true)
    (h : Nat.ofDigitChars 10 as 0 < Nat.ofDigitChars 10 bs 0)
    (hb : ∀ c ∈ bs, c.isDigit = true) : as < bs := by
  induction as generalizing bs with
  | nil =>
    rw [List.eq_nil_of_length_eq_zero hlen.symm] at h
    exact absurd h (Nat.lt_irrefl _)
  | cons a as ih =>
    cases bs with
    | nil => cases hlen
    | cons b bs =>
      have hlength : as.length = bs.length := Nat.succ.inj hlen
      have hrest := ofDigitChars_lt fun d hd => hb d (List.mem_cons_of_mem b hd)
      rw [ofDigitChars_cons_zero, ofDigitChars_cons_zero, hlength] at h
      rw [List.cons_lt_cons_iff]
      rcases Nat.lt_trichotomy a.toNat b.toNat with hab | hab | hba
      · exact .inl hab
      · obtain rfl := Char.toNat_inj.1 hab
        refine .inr ⟨rfl, ih hlength (fun d hd => ha d (List.mem_cons_of_mem a hd)) ?_
          fun d hd => hb d (List.mem_cons_of_mem a hd)⟩
        omega
      · -- a larger first digit outweighs all that follow
        have hzero : '0'.toNat ≤ b.toNat := by
          have hc := hb b List.mem_cons_self
          simp only [Char.isDigit, Bool.and_eq_true, decide_eq_true_eq] at hc
          exact hc.1
        have hstep : b.toNat - '0'.toNat + 1 ≤ a.toNat - '0'.toNat := by omega
        have := Nat.mul_le_mul_left (10 ^ bs.length) hstep
        rw [Nat.mul_add, Nat.mul_one] at this
        omega

theorem padded_lt {width m n : Nat} (hw : 0 < width) (hn : n < 10 ^ width) (h : m < n) :
    (padded width m).toList < (padded width n).toList := by
  refine lt_of_ofDigitChars_lt ?_ (fun c => isDigit_of_mem_padded) ?_
    fun c => isDigit_of_mem_padded
  · rw [String.length_toList, String.length_toList, length_padded hw hn,
      length_padded hw (h.trans hn)]
  · rwa [ofDigitChars_padded, ofDigitChars_padded]

/-- A padded number decides which of two texts is smaller, unless it is the same in both. -/
theorem padded_append_lt {width m n : Nat} (hw : 0 < width) (hm : m < 10 ^ width)
    (hn : n < 10 ^ width) {cs ds : List Char} (h : m < n ∨ m = n ∧ cs < ds) :
    (padded width m).toList ++ cs < (padded width n).toList ++ ds := by
  rcases h with h | ⟨rfl, h⟩
  · refine lt_append ?_ (padded_lt hw hn h) cs ds
    rw [String.length_toList, String.length_toList, length_padded hw hn, length_padded hw hm]
  · exact List.append_left_lt h

/-- The same of a padded number that a sign separates from what follows. -/
theorem padded_cons_lt {width m n : Nat} (hw : 0 < width) (hm : m < 10 ^ width)
    (hn : n < 10 ^ width) (sign : Char) {cs ds : List Char} (h : m < n ∨ m = n ∧ cs < ds) :
    (padded width m).toList ++ sign :: cs < (padded width n).toList ++ sign :: ds := by
  apply padded_append_lt hw hm hn
  rcases h with hlt | ⟨heq, hlt⟩
  · exact .inl hlt
  · exact .inr ⟨heq, List.cons_lt_cons_iff.2 (.inr ⟨rfl, hlt⟩)⟩

/-! ## Dates -/

/-- Whether a date is earlier than another one, by year, month and day. -/
def Date.Before (a b : Date) : Prop :=
  a.year < b.year ∨ a.year = b.year ∧ (a.month < b.month ∨ a.month = b.month ∧ a.day < b.day)

/-- The number of days in a year. -/
def daysInYear (year : Nat) : Nat := if isLeap year then 366 else 365

theorem isLeap_iff {year : Nat} :
    isLeap year = true ↔ 4 ∣ year ∧ (¬ 100 ∣ year ∨ 400 ∣ year) := by
  simp [isLeap, Nat.dvd_iff_mod_eq_zero]

theorem daysBeforeYear_succ {year : Nat} (h : 1 ≤ year) :
    Date.daysBeforeYear (year + 1) = Date.daysBeforeYear year + daysInYear year := by
  obtain ⟨n, rfl⟩ : ∃ n, year = n + 1 := ⟨year - 1, by omega⟩
  have hle : n / 100 ≤ n / 4 := Nat.div_le_div_left (by decide) (by decide)
  have hcentury : 100 ∣ n + 1 → 4 ∣ n + 1 := Nat.dvd_trans (by decide)
  have hcycle : 400 ∣ n + 1 → 100 ∣ n + 1 := Nat.dvd_trans (by decide)
  simp only [Date.daysBeforeYear, daysInYear, isLeap_iff, Nat.add_sub_cancel, Nat.succ_div]
  generalize n / 4 = fours, n / 100 = centuries, n / 400 = cycles at hle ⊢
  split_ifs <;> omega

theorem daysBeforeMonth_succ (year : Nat) {month : Nat} (h : 1 ≤ month) :
    Date.daysBeforeMonth year (month + 1)
      = Date.daysBeforeMonth year month + daysInMonth year month := by
  obtain ⟨m, rfl⟩ : ∃ m, month = m + 1 := ⟨month - 1, by omega⟩
  simp only [Date.daysBeforeMonth, Nat.add_sub_cancel, List.range_succ, List.foldl_append]
  rfl

theorem daysBeforeMonth_thirteen (year : Nat) : Date.daysBeforeMonth year 13 = daysInYear year := by
  cases h : isLeap year <;>
    simp [daysInYear, Date.daysBeforeMonth, List.range, List.range.loop, daysInMonth, h]

theorem daysBeforeYear_mono {year later : Nat} (h : 1 ≤ year) (hle : year ≤ later) :
    Date.daysBeforeYear year ≤ Date.daysBeforeYear later := by
  induction later, hle using Nat.le_induction with
  | base => exact Nat.le_refl _
  | succ later hle ih =>
    rw [daysBeforeYear_succ (by omega)]
    omega

theorem daysBeforeMonth_mono (year : Nat) {month later : Nat} (h : 1 ≤ month)
    (hle : month ≤ later) : Date.daysBeforeMonth year month ≤ Date.daysBeforeMonth year later := by
  induction later, hle using Nat.le_induction with
  | base => exact Nat.le_refl _
  | succ later hle ih =>
    rw [daysBeforeMonth_succ year (by omega)]
    omega

/-- The number of a date. -/
def Date.number (d : Date) : Nat := dayNumber d.year d.month d.day

theorem Date.day_le (d : Date) : d.day ≤ daysInMonth d.year d.month := by
  have hv := d.valid
  unfold dateFault? at hv
  split at hv
  · cases hv
  · split at hv
    · cases hv
    · split at hv
      · cases hv
      · simp_all

/-- A date lies within its month. -/
theorem Date.number_le_month (d : Date) :
    d.number ≤ daysBeforeYear d.year + daysBeforeMonth d.year (d.month + 1) := by
  obtain ⟨-, -, hmonth, -, -, -⟩ := d.bounds
  have hday := d.day_le
  rw [number, dayNumber, daysBeforeMonth_succ d.year hmonth]
  omega

/-- A date lies within its year. -/
theorem Date.number_le_year (d : Date) : d.number ≤ daysBeforeYear (d.year + 1) := by
  obtain ⟨hyear, -, -, hmonth, -, -⟩ := d.bounds
  have hlast : daysBeforeMonth d.year (d.month + 1) ≤ daysBeforeMonth d.year 13 :=
    daysBeforeMonth_mono d.year (by omega) (by omega)
  rw [daysBeforeMonth_thirteen] at hlast
  have := d.number_le_month
  rw [daysBeforeYear_succ hyear]
  omega

theorem Date.Before.number_lt {a b : Date} (h : a.Before b) : a.number < b.number := by
  obtain ⟨hyear, -, hmonth, -, -, -⟩ := a.bounds
  obtain ⟨-, -, -, -, hday, -⟩ := b.bounds
  rcases h with hlt | ⟨heq, hlt | ⟨hm, hlt⟩⟩
  · have hle := a.number_le_year
    have hmono : daysBeforeYear (a.year + 1) ≤ daysBeforeYear b.year :=
      daysBeforeYear_mono (by omega) hlt
    show a.number < dayNumber b.year b.month b.day
    rw [dayNumber]
    omega
  · have hle := a.number_le_month
    have hmono : daysBeforeMonth b.year (a.month + 1) ≤ daysBeforeMonth b.year b.month :=
      daysBeforeMonth_mono b.year (by omega) hlt
    rw [heq] at hle
    show a.number < dayNumber b.year b.month b.day
    rw [dayNumber]
    omega
  · rw [number, number, dayNumber, dayNumber, heq, hm]
    omega

theorem Date.before_or_eq_or_after (a b : Date) : a.Before b ∨ a = b ∨ b.Before a := by
  have hcases : a.Before b ∨ (a.year = b.year ∧ a.month = b.month ∧ a.day = b.day) ∨
      b.Before a := by
    unfold Before
    omega
  rcases hcases with h | ⟨hy, hm, hd⟩ | h
  · exact .inl h
  · refine .inr (.inl ?_)
    cases a
    cases b
    simp only at hy hm hd
    subst hy hm hd
    rfl
  · exact .inr (.inr h)

theorem Date.toList_toText (d : Date) :
    d.toText.toList
      = (padded 4 d.year).toList ++ '-' :: ((padded 2 d.month).toList ++
          '-' :: (padded 2 d.day).toList) := by
  simp [Date.toText, String.toList_append]

theorem Date.Before.toText_lt {a b : Date} (h : a.Before b) :
    a.toText.toList < b.toText.toList := by
  obtain ⟨-, hya, -, hma, -, hda⟩ := a.bounds
  obtain ⟨-, hyb, -, hmb, -, hdb⟩ := b.bounds
  rw [toList_toText, toList_toText]
  apply padded_cons_lt (by decide) (by omega) (by omega)
  rcases h with hyear | ⟨hyear, h⟩
  · exact .inl hyear
  · refine .inr ⟨hyear, padded_cons_lt (by decide) (by omega) (by omega) '-' ?_⟩
    rcases h with hmonth | ⟨hmonth, hday⟩
    · exact .inl hmonth
    · exact .inr ⟨hmonth, padded_lt (by decide) (by omega) hday⟩

/-! ## Times of day -/

/-- Whether a time of day is earlier than another one, by hour, minute, second and microsecond. -/
def Clock.Before (a b : Clock) : Prop :=
  a.hour < b.hour ∨ a.hour = b.hour ∧ (a.minute < b.minute ∨ a.minute = b.minute ∧
    (a.second < b.second ∨ a.second = b.second ∧ a.micro < b.micro))

theorem Clock.micros_lt (c : Clock) : c.micros < dayMicros := by
  have := c.hour_lt
  have := c.minute_lt
  have := c.second_lt
  have := c.micro_lt
  unfold micros dayMicros
  omega

theorem Clock.before_of_micros_lt {a b : Clock} (h : a.micros < b.micros) : a.Before b := by
  have := a.minute_lt
  have := a.second_lt
  have := a.micro_lt
  have := b.minute_lt
  have := b.second_lt
  have := b.micro_lt
  unfold micros at h
  unfold Before
  omega

theorem Clock.eq_of_micros_eq {a b : Clock} (h : a.micros = b.micros) : a = b := by
  have hparts : a.hour = b.hour ∧ a.minute = b.minute ∧ a.second = b.second ∧
      a.micro = b.micro := by
    have := a.minute_lt
    have := a.second_lt
    have := a.micro_lt
    have := b.minute_lt
    have := b.second_lt
    have := b.micro_lt
    unfold micros at h
    omega
  cases a
  cases b
  simpa only [Clock.mk.injEq] using hparts

/-- Whether a text is empty or opens with a character below the point. -/
def OpensBelowPoint (cs : List Char) : Prop := ∀ c ∈ cs.head?, c < '.'

/-- The smaller fraction of a second has the smaller text, also if it is zero and left out. -/
theorem fractionText_append_lt {m n : Nat} (hn : n < 10 ^ 6) (h : m < n) {cs : List Char}
    (hcs : OpensBelowPoint cs) (ds : List Char) :
    (fractionText m).toList ++ cs < (fractionText n).toList ++ ds := by
  have hpoint (k : Nat) (hk : k ≠ 0) :
      (fractionText k).toList = '.' :: (padded 6 k).toList := by
    rw [fractionText, if_neg (by simpa using hk), String.toList_append]
    rfl
  rw [hpoint n (by omega), List.cons_append]
  by_cases hm : m = 0
  · subst hm
    show cs < _
    cases cs with
    | nil => exact List.nil_lt_cons _ _
    | cons c cs => exact List.cons_lt_cons_iff.2 (.inl (hcs c rfl))
  · rw [hpoint m hm, List.cons_append]
    exact List.cons_lt_cons_iff.2
      (.inr ⟨rfl, padded_append_lt (by decide) (h.trans hn) hn (.inl h)⟩)

theorem Clock.toList_toText (c : Clock) :
    c.toText.toList
      = (padded 2 c.hour).toList ++ ':' :: ((padded 2 c.minute).toList ++
          ':' :: ((padded 2 c.second).toList ++ (fractionText c.micro).toList)) := by
  simp [Clock.toText, String.toList_append]

theorem Clock.Before.toText_append_lt {a b : Clock} (h : a.Before b) {cs : List Char}
    (hcs : OpensBelowPoint cs) (ds : List Char) :
    a.toText.toList ++ cs < b.toText.toList ++ ds := by
  have := a.hour_lt
  have := a.minute_lt
  have := a.second_lt
  have := b.hour_lt
  have := b.minute_lt
  have := b.second_lt
  simp only [Clock.toList_toText, List.append_assoc, List.cons_append]
  apply padded_cons_lt (by decide) (by omega) (by omega)
  rcases h with hhour | ⟨hhour, h⟩
  · exact .inl hhour
  refine .inr ⟨hhour, padded_cons_lt (by decide) (by omega) (by omega) ':' ?_⟩
  rcases h with hminute | ⟨hminute, h⟩
  · exact .inl hminute
  refine .inr ⟨hminute, padded_append_lt (by decide) (by omega) (by omega) ?_⟩
  rcases h with hsecond | ⟨hsecond, hmicro⟩
  · exact .inl hsecond
  · exact .inr ⟨hsecond, fractionText_append_lt b.micro_lt hmicro hcs ds⟩

/-! ## Moments -/

namespace Moment

/-- The end of the text of a moment, after the time of day. -/
def offsetText (m : Moment) : List Char := ((m.offset.map Offset.toText).getD "").toList

theorem opensBelowPoint_offsetText (m : Moment) : OpensBelowPoint m.offsetText := by
  rw [OpensBelowPoint, offsetText]
  cases m.offset with
  | none => rintro c ⟨⟩
  | some o =>
    simp only [Option.map_some, Option.getD_some, Offset.toText, String.toList_append]
    split
    · rintro c ⟨⟩
      decide
    · rintro c ⟨⟩
      decide

theorem toList_toText (m : Moment) :
    m.toText.toList = m.date.toText.toList ++ 'T' :: (m.clock.toText.toList ++ m.offsetText) := by
  simp [toText, offsetText, String.toList_append]

variable {a b : Moment}

theorem localMicros_eq (m : Moment) :
    m.localMicros = (m.date.number : Int) * dayMicros + m.clock.micros := rfl

theorem localMicros_lt_of_before (h : a.date.Before b.date) : a.localMicros < b.localMicros := by
  have hnumber := h.number_lt
  have := a.clock.micros_lt
  rw [localMicros_eq, localMicros_eq]
  unfold dayMicros at *
  omega

/-- Clocks that show the same show the same date and time of day. -/
theorem date_and_clock_of_localMicros_eq (h : a.localMicros = b.localMicros) :
    a.date = b.date ∧ a.clock = b.clock := by
  rcases a.date.before_or_eq_or_after b.date with hd | hd | hd
  · have := localMicros_lt_of_before hd
    omega
  · refine ⟨hd, Clock.eq_of_micros_eq ?_⟩
    rw [localMicros_eq, localMicros_eq, hd] at h
    omega
  · have := localMicros_lt_of_before hd
    omega

/-- Of two moments the one whose clock shows the earlier time has the smaller text, whatever the
offsets of the clocks are. -/
theorem toText_lt (h : a.localMicros < b.localMicros) : a.toText < b.toText := by
  rw [String.lt_iff, toList_toText, toList_toText]
  rcases a.date.before_or_eq_or_after b.date with hd | hd | hd
  · refine lt_append ?_ hd.toText_lt _ _
    rw [String.length_toList, String.length_toList, Date.length_toText, Date.length_toText]
  · rw [hd]
    refine List.append_left_lt (List.cons_lt_cons_iff.2 (.inr ⟨rfl, ?_⟩))
    refine (Clock.before_of_micros_lt ?_).toText_append_lt a.opensBelowPoint_offsetText _
    rw [localMicros_eq, localMicros_eq, hd] at h
    omega
  · have := localMicros_lt_of_before hd
    omega

/-- The same clock time with the same offset, or none, has the same text. -/
theorem toText_eq (h : a.localMicros = b.localMicros) (ho : a.offset = b.offset) :
    a.toText = b.toText := by
  obtain ⟨hd, hc⟩ := date_and_clock_of_localMicros_eq h
  rw [toText, toText, hd, hc, ho]

/-! ### Instants -/

/-- Whether two clocks show their instants in the right order: the one that shows the earlier time is
at the earlier instant, and they show the same time at the same instant. -/
def ClocksAgree (a b : Moment) : Prop :=
  (a.localMicros < b.localMicros ↔ a.instant < b.instant) ∧
    (b.localMicros < a.localMicros ↔ b.instant < a.instant)

instance (a b : Moment) : Decidable (a.ClocksAgree b) :=
  inferInstanceAs (Decidable ((_ ↔ _) ∧ (_ ↔ _)))

/-- Clocks of one offset agree, and so do clocks without one. -/
theorem clocksAgree_of_offset_eq (h : a.offset = b.offset) : a.ClocksAgree b := by
  unfold ClocksAgree instant
  rw [h]
  omega

/-- The moment that is read from the text of a moment. -/
def kept (m : Moment) : Moment := { m with offset := m.offset.map Offset.kept }

theorem localMicros_kept (m : Moment) : m.kept.localMicros = m.localMicros := rfl

theorem kept_of_offset_none {m : Moment} (h : m.kept.offset = none) : m.kept = m := by
  have ho : m.offset = none := Option.map_eq_none_iff.1 h
  rw [kept, ho]
  exact congrArg (Moment.mk m.date m.clock) ho.symm

end Moment

theorem lt_of_append_lt {as cs ds : List Char} (h : as ++ cs < as ++ ds) : cs < ds := by
  induction as with
  | nil => exact h
  | cons a as ih =>
    rcases List.cons_lt_cons_iff.1 h with h | ⟨-, h⟩
    · exact absurd h (Nat.lt_irrefl a.toNat)
    · exact ih h

/-- An offset that is too small to be kept has no smaller text than none at all. -/
theorem Offset.not_toText_lt_utc {o : Offset} (h : o.micros.natAbs < 1000000) :
    ¬ o.toText.toList < Offset.utc.toText.toList := by
  have hseconds : o.micros.natAbs / 1000000 = 0 := Nat.div_eq_of_lt h
  have hutc : Offset.utc.toText.toList = '+' :: "00:00".toList := by decide
  rw [hutc]
  by_cases hneg : o.micros < 0
  · have hopen : ∃ rest, o.toText.toList = '-' :: rest := by
      simp [toText, hneg, String.toList_append]
    obtain ⟨rest, hrest⟩ := hopen
    rw [hrest, List.cons_lt_cons_iff]
    rintro (hlt | ⟨heq, -⟩)
    · exact absurd hlt (by decide)
    · exact absurd heq (by decide)
  · have hopen : ∃ rest, o.toText.toList = ('+' :: "00:00".toList) ++ rest := by
      have hzero : (padded 2 0).toList = ['0', '0'] := by decide
      simp only [toText, hneg, if_false, hseconds, Nat.zero_div, Nat.zero_mod, String.toList_append,
        hzero]
      exact ⟨_, rfl⟩
    obtain ⟨rest, hrest⟩ := hopen
    rw [hrest]
    intro hlt
    have hnone : ('+' :: "00:00".toList) ++ rest < ('+' :: "00:00".toList) ++ [] := by
      rwa [List.append_nil]
    exact List.not_lt_nil rest (lt_of_append_lt hnone)

theorem Offset.eq_of_kept {o p : Offset} (h : o.kept.micros = p.micros)
    (hlarge : ¬ o.micros.natAbs < 1000000) : o = p := by
  rw [kept, if_neg hlarge] at h
  cases o
  cases p
  simpa only [Offset.mk.injEq] using h

theorem Offset.eq_utc_of_kept {o p : Offset} (h : o.kept.micros = p.micros)
    (hsmall : o.micros.natAbs < 1000000) : p = .utc := by
  rw [kept, if_pos hsmall] at h
  cases p
  simpa only [utc, Offset.mk.injEq] using h.symm

/-- The text of a moment is not smaller than that of the instant that is read from it. -/
theorem Moment.not_toText_lt {m bound : Moment} (hsome : m.offset.isSome = bound.offset.isSome)
    (hlocal : m.localMicros = bound.localMicros) (hinstant : m.kept.instant = bound.instant) :
    ¬ m.toText < bound.toText := by
  intro hlt
  cases ho : m.offset with
  | none =>
    have hb : bound.offset = none := by
      rw [ho] at hsome
      exact Option.isNone_iff_eq_none.1 (by simpa using hsome.symm)
    rw [toText_eq hlocal (ho.trans hb.symm)] at hlt
    exact String.lt_irrefl _ hlt
  | some o =>
    obtain ⟨p, hb⟩ : ∃ p, bound.offset = some p := by
      rw [ho] at hsome
      exact Option.isSome_iff_exists.1 hsome.symm
    have hmicros : o.kept.micros = p.micros := by
      have hm : m.kept.instant = m.localMicros - o.kept.micros := by
        simp only [instant, kept, ho, Option.map_some, Option.getD_some]
        rfl
      have hp : bound.instant = bound.localMicros - p.micros := by
        simp only [instant, hb, Option.map_some, Option.getD_some]
      omega
    by_cases hsmall : o.micros.natAbs < 1000000
    · -- the offset is lost, and what is read is universal time
      obtain ⟨hd, hc⟩ := date_and_clock_of_localMicros_eq hlocal
      rw [String.lt_iff, toList_toText, toList_toText, hd, hc] at hlt
      have htail := (List.cons_lt_cons_iff.1 (lt_of_append_lt hlt)).resolve_left (by decide)
      have hoffset := lt_of_append_lt htail.2
      rw [offsetText, offsetText, ho, hb, Offset.eq_utc_of_kept hmicros hsmall] at hoffset
      exact Offset.not_toText_lt_utc hsmall hoffset
    · rw [toText_eq hlocal (by rw [ho, hb, Offset.eq_of_kept hmicros hsmall])] at hlt
      exact String.lt_irrefl _ hlt

/-- The text of a moment is compared with a bound as the instant that is read from it, if the clocks
agree and both have an offset or both have none. -/
theorem Moment.toText_lt_iff {m bound : Moment} (hsome : m.offset.isSome = bound.offset.isSome)
    (h : m.kept.ClocksAgree bound) : m.toText < bound.toText ↔ m.kept.instant < bound.instant := by
  obtain ⟨hbefore, hafter⟩ := h
  rw [localMicros_kept] at hbefore hafter
  constructor
  · intro hlt
    rcases Int.lt_trichotomy m.kept.instant bound.instant with hi | hi | hi
    · exact hi
    · exact absurd hlt (not_toText_lt hsome (by omega) hi)
    · exact absurd (toText_lt (hafter.2 hi)) (String.lt_asymm hlt)
  · intro hi
    exact toText_lt (hbefore.2 hi)

/-- Without offsets the texts of moments are in the order of the moments. -/
theorem Moment.toText_lt_iff_of_offset_none {m bound : Moment} (hm : m.kept.offset = none)
    (hb : bound.offset = none) : m.toText < bound.toText ↔ m.kept.instant < bound.instant := by
  have hnone : m.offset = none := by
    rw [kept_of_offset_none hm] at hm
    exact hm
  have hsome : m.offset.isSome = bound.offset.isSome := by rw [hnone, hb]
  exact toText_lt_iff hsome (clocksAgree_of_offset_eq (hm.trans hb.symm))

end Bookkeeping.Calendar
