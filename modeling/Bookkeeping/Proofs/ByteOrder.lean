import Bookkeeping.Proofs.Chronology

/-! # The order of bytes

The store compares texts byte by byte in their encoding. A character with a larger code point has a
larger encoding, whatever follows it, so this is the order of texts by their characters. In it the
texts of moments on one clock are in the order of time, although they differ in length.
-/

namespace Bookkeeping.Text

/-! ## Encodings -/

/-- Of two characters the smaller one has the smaller encoding, whatever follows. -/
theorem charBytes_append_lt {c d : Char} (h : c < d) (as bs : List Nat) :
    charBytes c ++ as < charBytes d ++ bs := by
  have hlt : c.toNat < d.toNat := h
  simp only [charBytes]
  generalize c.toNat = m, d.toNat = n at hlt
  -- a longer encoding has the larger first byte; among those as long, the larger bytes come first
  split_ifs <;> simp only [List.cons_append, List.nil_append, List.cons_lt_cons_iff] <;> omega

theorem nil_lt_charBytes_append (c : Char) (bs : List Nat) : [] < charBytes c ++ bs := by
  simp only [charBytes]
  split_ifs <;> exact List.nil_lt_cons _ _

theorem flatMap_charBytes_lt {cs ds : List Char} (h : cs < ds) :
    cs.flatMap charBytes < ds.flatMap charBytes := by
  induction cs generalizing ds with
  | nil =>
    cases ds with
    | nil => exact absurd h (List.not_lt_nil _)
    | cons d ds => exact nil_lt_charBytes_append d _
  | cons c cs ih =>
    cases ds with
    | nil => exact absurd h (List.not_lt_nil _)
    | cons d ds =>
      rw [List.flatMap_cons, List.flatMap_cons]
      rcases List.cons_lt_cons_iff.1 h with hlt | ⟨rfl, hlt⟩
      · exact charBytes_append_lt hlt _ _
      · exact List.append_left_lt (ih hlt)

theorem lt_or_eq_or_gt (s t : String) : s < t ∨ s = t ∨ t < s := by
  by_cases hst : s < t
  · exact .inl hst
  · by_cases hts : t < s
    · exact .inr (.inr hts)
    · exact .inr (.inl (String.le_antisymm (String.not_lt.1 hts) (String.not_lt.1 hst)))

/-- Texts are in the order of their encodings. -/
theorem bytes_lt_iff {s t : String} : bytes s < bytes t ↔ s < t := by
  have hmono {s t : String} (h : s < t) : bytes s < bytes t :=
    flatMap_charBytes_lt (String.lt_iff.1 h)
  refine ⟨fun h => ?_, hmono⟩
  rcases lt_or_eq_or_gt s t with hlt | rfl | hgt
  · exact hlt
  · exact absurd h (List.lt_irrefl _)
  · exact absurd h (List.lt_asymm (hmono hgt))

/-- Different texts have different encodings. -/
theorem bytes_inj {s t : String} : bytes s = bytes t ↔ s = t := by
  refine ⟨fun h => ?_, congrArg bytes⟩
  rcases lt_or_eq_or_gt s t with hlt | heq | hgt
  · have hbytes := bytes_lt_iff.2 hlt
    rw [h] at hbytes
    exact absurd hbytes (List.lt_irrefl _)
  · exact heq
  · have hbytes := bytes_lt_iff.2 hgt
    rw [h] at hbytes
    exact absurd hbytes (List.lt_irrefl _)

end Bookkeeping.Text

namespace Bookkeeping.Calendar

/-! ## Moments on one clock -/

theorem Clock.Before.micros_lt {a b : Clock} (h : a.Before b) : a.micros < b.micros := by
  have := a.minute_lt
  have := a.second_lt
  have := a.micro_lt
  have := b.minute_lt
  have := b.second_lt
  have := b.micro_lt
  unfold Clock.Before at h
  unfold micros
  omega

namespace Moment

variable {a b : Moment}

/-- Whether the calendar and the clock show an earlier moment: an earlier date, or an earlier time on
the same date. -/
def Before (a b : Moment) : Prop := a.date.Before b.date ∨ a.date = b.date ∧ a.clock.Before b.clock

/-- The calendar and the clock show moments in the order of the microseconds that have gone by. -/
theorem before_iff : a.Before b ↔ a.localMicros < b.localMicros := by
  constructor
  · rintro (hdate | ⟨hdate, hclock⟩)
    · exact localMicros_lt_of_before hdate
    · have := hclock.micros_lt
      rw [localMicros_eq, localMicros_eq, hdate]
      omega
  · intro h
    rcases a.date.before_or_eq_or_after b.date with hdate | hdate | hdate
    · exact .inl hdate
    · refine .inr ⟨hdate, Clock.before_of_micros_lt ?_⟩
      rw [localMicros_eq, localMicros_eq, hdate] at h
      omega
    · have := localMicros_lt_of_before hdate
      omega

theorem toText_lt_iff_localMicros_lt (h : a.offset = b.offset) :
    a.toText < b.toText ↔ a.localMicros < b.localMicros := by
  refine ⟨fun hlt => ?_, toText_lt⟩
  rcases Int.lt_trichotomy a.localMicros b.localMicros with hmicros | hmicros | hmicros
  · exact hmicros
  · rw [toText_eq hmicros h] at hlt
    exact absurd hlt (String.lt_irrefl _)
  · exact absurd hlt (String.lt_asymm (toText_lt hmicros))

theorem toText_inj (h : a.offset = b.offset) : a.toText = b.toText ↔ a = b := by
  refine ⟨fun htext => ?_, congrArg toText⟩
  have hnot : ¬ a.toText < b.toText ∧ ¬ b.toText < a.toText := by
    rw [htext]
    exact ⟨String.lt_irrefl _, String.lt_irrefl _⟩
  rw [toText_lt_iff_localMicros_lt h, toText_lt_iff_localMicros_lt h.symm] at hnot
  obtain ⟨hdate, hclock⟩ := date_and_clock_of_localMicros_eq (a := a) (b := b) (by omega)
  obtain ⟨date, clock, offset⟩ := a
  obtain rfl : date = b.date := hdate
  obtain rfl : clock = b.clock := hclock
  obtain rfl : offset = b.offset := h
  rfl

/-- The texts of two moments without an offset, or with the same one, are byte by byte in the order in
which the calendar and the clock show the moments, which is the order of their instants; and equal
bytes are those of one moment. -/
theorem bytes_in_order (h : a.offset = b.offset) :
    (Text.bytes a.toText < Text.bytes b.toText ↔ a.Before b) ∧
    (Text.bytes a.toText < Text.bytes b.toText ↔ a.instant < b.instant) ∧
    (Text.bytes a.toText = Text.bytes b.toText ↔ a = b) := by
  have hlt : Text.bytes a.toText < Text.bytes b.toText ↔ a.localMicros < b.localMicros :=
    Text.bytes_lt_iff.trans (toText_lt_iff_localMicros_lt h)
  refine ⟨hlt.trans before_iff.symm, hlt.trans ?_, Text.bytes_inj.trans (toText_inj h)⟩
  rw [instant, instant, h]
  omega

/-- The text of noon is a start of the text a microsecond later, and so comes before it. -/
theorem noon_in_order :
    let noon : Moment := ⟨⟨2024, 1, 25, by decide⟩,
      ⟨12, 0, 0, 0, by decide, by decide, by decide, by decide⟩, none⟩
    let later : Moment := ⟨noon.date, ⟨12, 0, 0, 1, by decide, by decide, by decide, by decide⟩, none⟩
    noon.offset = later.offset ∧ noon.Before later ∧
      Text.bytes noon.toText < Text.bytes later.toText ∧ noon.instant < later.instant ∧
      Text.bytes noon.toText ≠ Text.bytes later.toText := by
  intro noon later
  have hbefore : noon.Before later := .inr ⟨rfl, .inr ⟨rfl, .inr ⟨rfl, .inr ⟨rfl, Nat.one_pos⟩⟩⟩⟩
  obtain ⟨hshown, hinstant, hsame⟩ := bytes_in_order (a := noon) (b := later) rfl
  have hlt := hshown.2 hbefore
  refine ⟨rfl, hbefore, hlt, hinstant.1 hlt, fun heq => ?_⟩
  exact Nat.zero_ne_one (congrArg (fun m : Moment => m.clock.micro) (hsame.1 heq))

end Moment

end Bookkeeping.Calendar
