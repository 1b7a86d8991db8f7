import Bookkeeping.Calendar.Stamp
import Bookkeeping.Proofs.IsoTexts
import Bookkeeping.Proofs.Requests
import Bookkeeping.Text.Blank

/-! # Texts that two readers take

A text may be read as a time stamp or in any form of ISO 8601. The stamps that are no counts are
written with hyphens and colons; of what the other reader takes of these, it makes the same moment.
-/

namespace Bookkeeping.Calendar

open Text

/-! ## Digits -/

/-- Two digits at the head of some characters, and what they are worth. -/
theorem twoDigits?_eq_some {cs rest : List Char} {n : Nat} (h : twoDigits? cs = some (n, rest)) :
    ∃ a b, cs = a :: b :: rest ∧ a.isDigit = true ∧ b.isDigit = true ∧
      n = (a.toNat - 48) * 10 + (b.toNat - 48) := by
  match cs with
  | [] | [_] => cases h
  | a :: b :: cs =>
    rw [twoDigits?] at h
    split at h
    · rename_i hd
      rw [Bool.and_eq_true] at hd
      cases h
      exact ⟨a, b, rfl, hd.1, hd.2, rfl⟩
    · cases h

/-- The same two digits are read from their bytes. -/
theorem fixedDigits?_two {a b : Char} (ha : a.isDigit = true) (hb : b.isDigit = true) {n : Nat}
    (hn : n = (a.toNat - 48) * 10 + (b.toNat - 48)) (tail : List Nat) :
    fixedDigits? 2 (a.toNat :: b.toNat :: tail) 0 = some (n, tail) := by
  simp [fixedDigits?, isDigitByte_toNat ha, isDigitByte_toNat hb, hn, Nat.mul_comm]

/-- The bytes that make up a number of fixed length, and those that follow. -/
theorem fixedDigits?_eq_some {n acc v : Nat} {bs rest : List Nat}
    (h : fixedDigits? n bs acc = some (v, rest)) :
    ∃ ds, bs = ds ++ rest ∧ ds.length = n ∧ ∀ b ∈ ds, isDigitByte b = true := by
  induction n generalizing bs acc with
  | zero =>
    cases h
    exact ⟨[], rfl, rfl, by simp⟩
  | succ n ih =>
    cases bs with
    | nil => cases h
    | cons b bs =>
      rw [fixedDigits?] at h
      split at h
      · rename_i hb
        obtain ⟨ds, rfl, hlen, hds⟩ := ih h
        exact ⟨b :: ds, rfl, by simp [hlen], by simpa [hb] using hds⟩
      · cases h

/-! ## Dates -/

theorem isBlank_of_isDigit {c : Char} (h : c.isDigit = true) : isBlank c = false := by
  have hd := isDigitByte_toNat h
  simp only [isDigitByte, Bool.and_eq_true, decide_eq_true_eq] at hd
  simp only [isBlank, isWhite, Bool.or_eq_false_iff, Bool.and_eq_false_iff, decide_eq_false_iff_not,
    beq_eq_false_iff_ne]
  omega

/-- The same four digits are read from their bytes. -/
theorem fixedDigits?_four {a b c d : Char} (ha : a.isDigit = true) (hb : b.isDigit = true)
    (hc : c.isDigit = true) (hd : d.isDigit = true) {century years : Nat}
    (hcentury : century = (a.toNat - 48) * 10 + (b.toNat - 48))
    (hyears : years = (c.toNat - 48) * 10 + (d.toNat - 48)) (tail : List Nat) :
    fixedDigits? 4 (a.toNat :: b.toNat :: c.toNat :: d.toNat :: tail) 0
      = some (century * 100 + years, tail) := by
  simp only [fixedDigits?, isDigitByte_toNat ha, isDigitByte_toNat hb, isDigitByte_toNat hc,
    isDigitByte_toNat hd, if_true, Option.some.injEq, Prod.mk.injEq, and_true]
  omega

/-- A date that is spelled with hyphens, and its numbers. -/
inductive Hyphenated : List Char → Nat → Nat → Nat → Prop where
  | mk {a b c d e f i j : Char} {century years month day : Nat} (ha : a.isDigit = true)
      (hb : b.isDigit = true) (hcentury : century = (a.toNat - 48) * 10 + (b.toNat - 48))
      (hc : c.isDigit = true) (hd : d.isDigit = true)
      (hyears : years = (c.toNat - 48) * 10 + (d.toNat - 48)) (he : e.isDigit = true)
      (hf : f.isDigit = true) (hmonth : month = (e.toNat - 48) * 10 + (f.toNat - 48))
      (hi : i.isDigit = true) (hj : j.isDigit = true)
      (hday : day = (i.toNat - 48) * 10 + (j.toNat - 48)) :
      Hyphenated [a, b, c, d, '-', e, f, '-', i, j] (century * 100 + years) month day

/-- What is read as a hyphenated date is one that is spelled so. -/
theorem hyphenated?_eq_some {cs rest : List Char} {d : Option Date}
    (h : hyphenated? cs = some (d, rest)) :
    ∃ ds year month day, cs = ds ++ rest ∧ Hyphenated ds year month day ∧
      dateOrYearZero? year month day = some d := by
  unfold hyphenated? at h
  obtain ⟨⟨century, cs₁⟩, h₁, h⟩ := Option.bind_eq_some_iff.1 h
  obtain ⟨⟨years, cs₂⟩, h₂, h⟩ := Option.bind_eq_some_iff.1 h
  dsimp only at h
  split at h
  · rename_i cs₃ hcs₂
    obtain ⟨⟨month, cs₄⟩, h₄, h⟩ := Option.bind_eq_some_iff.1 h
    dsimp only at h
    split at h
    · rename_i cs₅ hcs₄
      obtain ⟨⟨day, cs₆⟩, h₆, h⟩ := Option.bind_eq_some_iff.1 h
      obtain ⟨d', hdate, h⟩ := Option.bind_eq_some_iff.1 h
      cases h
      obtain ⟨a, b, rfl, ha, hb, hcentury⟩ := twoDigits?_eq_some h₁
      obtain ⟨c, d, rfl, hc, hd, hyears⟩ := twoDigits?_eq_some h₂
      obtain ⟨e, f, rfl, he, hf, hmonth⟩ := twoDigits?_eq_some h₄
      obtain ⟨i, j, rfl, hi, hj, hday⟩ := twoDigits?_eq_some h₆
      exact ⟨_, _, _, _, by simp, .mk ha hb hcentury hc hd hyears he hf hmonth hi hj hday, hdate⟩
    · cases h
  · cases h

namespace Hyphenated

variable {ds : List Char} {year month day : Nat}

theorem length (h : Hyphenated ds year month day) : ds.length = 10 := by
  cases h
  rfl

theorem isBlank (h : Hyphenated ds year month day) : ∀ c ∈ ds, isBlank c = false := by
  have hhyphen : Text.isBlank '-' = false := rfl
  cases h
  simp only [List.mem_cons, List.not_mem_nil, or_false, forall_eq_or_imp, forall_eq,
    isBlank_of_isDigit, true_and, *]

/-- The bytes of the date, of which the sixth opens no week. -/
theorem bytes (h : Hyphenated ds year month day) : ∃ a b c d e f i j,
    ds.flatMap charBytes = [a, b, c, d, 45, e, f, 45, i, j] ∧ e ≠ 87 ∧
      (∀ tail, fixedDigits? 4 (a :: b :: c :: d :: tail) 0 = some (year, tail)) ∧
      (∀ tail, fixedDigits? 2 (e :: f :: tail) 0 = some (month, tail)) ∧
      ∀ tail, fixedDigits? 2 (i :: j :: tail) 0 = some (day, tail) := by
  obtain ⟨ha, hb, hcentury, hc, hd, hyears, he, hf, hmonth, hi, hj, hday⟩ := h
  refine ⟨_, _, _, _, _, _, _, _, ?_, ?_, fixedDigits?_four ha hb hc hd hcentury hyears,
    fixedDigits?_two he hf hmonth, fixedDigits?_two hi hj hday⟩
  · simp only [List.flatMap_cons, List.flatMap_nil, charBytes_of_isDigit, ha, hb, hc, hd, he, hf,
      hi, hj]
    rfl
  · have hbyte := isDigitByte_toNat he
    simp only [isDigitByte, Bool.and_eq_true, decide_eq_true_eq] at hbyte
    omega

theorem length_bytes (h : Hyphenated ds year month day) : (ds.flatMap charBytes).length = 10 := by
  obtain ⟨a, b, c, d, e, f, i, j, hbytes, -⟩ := h.bytes
  rw [hbytes]
  rfl

theorem dateNumbers?_eq (h : Hyphenated ds year month day) :
    dateNumbers? (ds.flatMap charBytes) = some (year, month, day) := by
  obtain ⟨a, b, c, d, e, f, i, j, hbytes, hweek, hyear, hmonth, hday⟩ := h.bytes
  rw [hbytes, dateNumbers?]
  simp only [hyear, hyphen?, bind, Option.bind, List.head?_cons, beq_self_eq_true, if_true,
    List.tail_cons]
  split
  · rename_i hopens
    exact absurd (List.cons.inj hopens).1 hweek
  · simp [hmonth, hday]

/-- The date ends where its last digit is. -/
theorem dateLength?_eq (h : Hyphenated ds year month day) (time : List Nat) :
    dateLength? (ds.flatMap charBytes ++ time) = some 10 := by
  obtain ⟨a, b, c, d, e, f, i, j, hbytes, hweek, -⟩ := h.bytes
  rw [hbytes]
  simp [dateLength?, byteAt, hweek]

end Hyphenated

/-! ## Times -/

/-- What may stand between the minutes and the offset of a stamp: nothing, or seconds with an optional
fraction. -/
inductive Seconds : List Char → Nat → Nat → Prop where
  | missing : Seconds [] 0 0
  | whole {a b : Char} {n : Nat} (ha : a.isDigit = true) (hb : b.isDigit = true)
      (hn : n = (a.toNat - 48) * 10 + (b.toNat - 48)) : Seconds [':', a, b] n 0
  | fraction {a b mark : Char} {n : Nat} {ds : List Char} (ha : a.isDigit = true)
      (hb : b.isDigit = true) (hn : n = (a.toNat - 48) * 10 + (b.toNat - 48))
      (hmark : mark = '.' ∨ mark = ',') (hds : ∀ c ∈ ds, c.isDigit = true) (hne : ds ≠ []) :
      Seconds (':' :: a :: b :: mark :: ds) n (fractionDigits (ds.filterMap asciiDigit?))

/-- What the stamp reader takes for the seconds, and what it leaves. -/
theorem seconds?_eq_some {cs rest : List Char} {second micro : Nat}
    (h : seconds? cs = some ((second, micro), rest)) :
    ∃ sc, cs = sc ++ rest ∧ Seconds sc second micro := by
  unfold seconds? at h
  split at h
  · obtain ⟨⟨n, cs₁⟩, h₁, hk⟩ := Option.bind_eq_some_iff.1 h
    obtain ⟨a, b, rfl, ha, hb, hn⟩ := twoDigits?_eq_some h₁
    dsimp only at hk
    split at hk
    · rename_i mark cs₂
      split at hk
      · rename_i hmark
        by_cases hempty : (Number.takeDigits cs₂).1.isEmpty = true
        · rw [if_pos hempty] at hk
          cases hk
        · rw [if_neg hempty] at hk
          cases hk
          refine ⟨':' :: a :: b :: mark :: cs₂.takeWhile Char.isDigit, ?_,
            .fraction ha hb hn (by simpa using hmark) (fun c hc => List.mem_takeWhile_imp hc) ?_⟩
          · simp [Number.takeDigits]
          · rintro hnil
            simp [Number.takeDigits, hnil] at hempty
      · cases hk
        exact ⟨[':', a, b], rfl, .whole ha hb hn⟩
    · cases hk
      exact ⟨[':', a, b], rfl, .whole ha hb hn⟩
  · cases h
    exact ⟨[], rfl, .missing⟩

/-- Digits have a value each, and as many bytes. -/
theorem filterMap_asciiDigit? {ds : List Char} (hds : ∀ c ∈ ds, c.isDigit = true) :
    ds.filterMap asciiDigit? = ds.map fun c => c.toNat - 48 := by
  induction ds with
  | nil => rfl
  | cons c ds ih =>
    have hc : asciiDigit? c = some (c.toNat - 48) := if_pos (hds c List.mem_cons_self)
    rw [List.filterMap_cons_some hc, List.map_cons, ih fun x hx => hds x (List.mem_cons_of_mem c hx)]

theorem flatMap_charBytes {ds : List Char} (hds : ∀ c ∈ ds, c.isDigit = true) :
    ds.flatMap charBytes = ds.map Char.toNat := by
  induction ds with
  | nil => rfl
  | cons c ds ih =>
    rw [List.flatMap_cons, charBytes_of_isDigit (hds c List.mem_cons_self), List.map_cons,
      ih fun x hx => hds x (List.mem_cons_of_mem c hx), List.singleton_append]

/-- Both ways to work out a number from its digits agree. -/
theorem ofDigits_map (ds : List Char) :
    ofDigits (ds.map fun c => c.toNat - 48) = Nat.ofDigitChars 10 ds 0 := by
  rw [ofDigits, List.foldl_map, Nat.ofDigitChars]
  rfl

/-- The digits of a fraction, read to their end: the first six count. -/
theorem fraction?_digits {ds : List Char} (hds : ∀ c ∈ ds, c.isDigit = true) (after : Nat) :
    fraction? (ds.flatMap charBytes) after
      = some (fractionDigits (ds.filterMap asciiDigit?), after != 0) := by
  have hread := fixedDigits?_digits (ds.take 6) (fun c hc => hds c (List.mem_of_mem_take hc))
    ((ds.drop 6).flatMap charBytes) 0
  rw [← List.flatMap_append, List.take_append_drop, List.length_take] at hread
  have hrest : ((ds.drop 6).flatMap charBytes).dropWhile isDigitByte = [] := by
    rw [flatMap_charBytes fun c hc => hds c (List.mem_of_mem_drop hc), List.dropWhile_eq_nil_iff]
    simp only [List.mem_map, forall_exists_index, and_imp, forall_apply_eq_imp_iff₂]
    exact fun c hc => isDigitByte_toNat (hds c (List.mem_of_mem_drop hc))
  have hlen : (ds.flatMap charBytes).length = ds.length := by
    rw [flatMap_charBytes hds, List.length_map]
  have hvalue : ofDigits ((ds.filterMap asciiDigit?).take 6) = Nat.ofDigitChars 10 (ds.take 6) 0 := by
    rw [filterMap_asciiDigit? hds, ← List.map_take, ofDigits_map]
  rw [fraction?, hlen, hread, fractionDigits]
  simp only [hvalue]
  simp [hrest, filterMap_asciiDigit? hds]

/-- A byte that is neither a digit nor part of a time of day. -/
def Strange (b : Nat) : Prop := isDigitByte b = false ∧ b ≠ 58 ∧ b ≠ 46 ∧ b ≠ 44 ∧ b ≠ 0

/-- What stands behind the digits of a fraction is left over. -/
theorem fraction?_strange {ds : List Char} (hds : ∀ c ∈ ds, c.isDigit = true) {b : Nat}
    (hb : Strange b) (bs : List Nat) {after micro : Nat} {left : Bool}
    (h : fraction? (ds.flatMap charBytes ++ b :: bs) after = some (micro, left)) : left = true := by
  rw [flatMap_charBytes hds, fraction?] at h
  obtain ⟨⟨value, rest⟩, hread, h⟩ := Option.map_eq_some_iff.1 h
  obtain ⟨read, hbytes, -, hdigits⟩ := fixedDigits?_eq_some hread
  -- the digits that were read stand before the strange byte, and those behind them are skipped
  have hrest : ∃ more, rest = more ++ b :: bs ∧ ∀ x ∈ more, isDigitByte x = true := by
    rcases List.append_eq_append_iff.1 hbytes with ⟨more, rfl, hmore⟩ | ⟨more, heq, rfl⟩
    · cases more with
      | nil => exact ⟨[], by simpa using hmore.symm, by simp⟩
      | cons x more =>
        obtain ⟨rfl, -⟩ := List.cons.inj hmore
        have := hdigits b (by simp)
        rw [hb.1] at this
        cases this
    · refine ⟨more, rfl, fun x hx => ?_⟩
      obtain ⟨c, hc, rfl⟩ := List.mem_map.1 (heq ▸ List.mem_append_right read hx)
      exact isDigitByte_toNat (hds c hc)
  obtain ⟨more, rfl, hmore⟩ := hrest
  dsimp only at h
  rw [List.dropWhile_append_of_pos hmore, List.dropWhile_cons_of_neg (by simp [hb.1])] at h
  cases h
  simpa using hb.2.2.2.2

theorem bytes_whole {c d : Char} (hc : c.isDigit = true) (hd : d.isDigit = true) :
    [':', c, d].flatMap charBytes = [58, c.toNat, d.toNat] := by
  simp only [List.flatMap_cons, List.flatMap_nil, charBytes_of_isDigit, hc, hd]
  rfl

theorem bytes_fraction {c d mark : Char} {ds : List Char} (hc : c.isDigit = true)
    (hd : d.isDigit = true) (hmark : mark = '.' ∨ mark = ',') :
    (':' :: c :: d :: mark :: ds).flatMap charBytes
      = 58 :: c.toNat :: d.toNat :: mark.toNat :: ds.flatMap charBytes := by
  simp only [List.flatMap_cons, charBytes_of_isDigit, hc, hd]
  rcases hmark with rfl | rfl <;> rfl

/-- The time separator aside, no byte of a time of day may follow a pair of its digits. -/
theorem groups?_strange {n value a b x after micro : Nat} {xs vs : List Nat} {left : Bool}
    (hread : ∀ rest, fixedDigits? 2 (a :: b :: rest) 0 = some (value, rest)) (hx : Strange x)
    (h : groups? (n + 1) (some true) (a :: b :: x :: xs) after = some (vs, micro, left)) :
    left = true := by
  cases xs with
  | nil =>
    simp only [groups?, hread, bind, Option.bind, Option.some.injEq, Prod.mk.injEq] at h
    rw [← h.2.2]
    simpa using hx.2.2.2.2
  | cons y ys => simp [groups?, hread, hx.2.1, hx.2.2.1, hx.2.2.2.1] at h

section

variable {a b minute second micro : Nat} {sc : List Char}
  (hread : ∀ rest, fixedDigits? 2 (a :: b :: rest) 0 = some (minute, rest))

include hread

/-- Minutes and seconds are read to their end. -/
theorem groups?_seconds (hsc : Seconds sc second micro) (after : Nat) :
    ∃ vs, groups? 2 (some true) (a :: b :: sc.flatMap charBytes) after
        = some (minute :: vs, micro, after != 0) ∧ vs[0]?.getD 0 = second := by
  cases hsc with
  | missing => exact ⟨[], by simp [groups?, hread], rfl⟩
  | @whole c d _ hc hd hn =>
    have hsecond := fixedDigits?_two hc hd hn
    refine ⟨[second], ?_, rfl⟩
    rw [bytes_whole hc hd, groups?_colon rfl hread (by simp)]
    simp [groups?, hsecond]
  | @fraction c d mark _ ds hc hd hn hmark hds hne =>
    have hsecond := fixedDigits?_two hc hd hn
    have hfraction := fraction?_digits hds after
    refine ⟨[second], ?_, rfl⟩
    rw [bytes_fraction hc hd hmark, groups?_colon rfl hread (by simp)]
    cases hmore : ds.flatMap charBytes with
    | nil =>
      rw [flatMap_charBytes hds, List.map_eq_nil_iff] at hmore
      exact absurd hmore hne
    | cons y ys =>
      rw [hmore] at hfraction
      rcases hmark with rfl | rfl <;> simp [groups?, hsecond, hfraction]

/-- A strange byte behind minutes and seconds is left over, if they are read at all. -/
theorem groups?_seconds_strange (hsc : Seconds sc second micro) {x : Nat} (hx : Strange x)
    (xs : List Nat) {after r : Nat} {vs : List Nat} {left : Bool}
    (h : groups? 2 (some true) (a :: b :: (sc.flatMap charBytes ++ x :: xs)) after
      = some (vs, r, left)) : left = true := by
  cases hsc with
  | missing => exact groups?_strange hread hx h
  | @whole c d _ hc hd hn =>
    rw [bytes_whole hc hd, List.cons_append, groups?_colon rfl hread (by simp)] at h
    obtain ⟨⟨vs', r', left'⟩, h, heq⟩ := Option.map_eq_some_iff.1 h
    cases heq
    exact groups?_strange (fixedDigits?_two hc hd hn) hx h
  | @fraction c d mark _ ds hc hd hn hmark hds hne =>
    have hsecond := fixedDigits?_two hc hd hn
    rw [bytes_fraction hc hd hmark, List.cons_append, groups?_colon rfl hread (by simp)] at h
    obtain ⟨⟨vs', r', left'⟩, h, heq⟩ := Option.map_eq_some_iff.1 h
    cases heq
    have hmore : ds.flatMap charBytes ++ x :: xs ≠ [] := by simp
    cases htail : ds.flatMap charBytes ++ x :: xs with
    | nil => exact absurd htail hmore
    | cons y ys =>
      have hmark' : groups? 1 (some true) (c.toNat :: d.toNat :: mark.toNat :: y :: ys) after
          = (fraction? (y :: ys) after).map fun p => ([second], p.1, p.2) := by
        rcases hmark with rfl | rfl <;> simp [groups?, hsecond]
      simp only [List.cons_append, htail] at h
      rw [hmark'] at h
      obtain ⟨⟨r', left'⟩, hfraction, heq⟩ := Option.map_eq_some_iff.1 h
      cases heq
      exact fraction?_strange hds hx xs (htail ▸ hfraction)

end

/-- No part of the seconds opens an offset. -/
theorem Seconds.opensOffset {sc : List Char} {second micro : Nat} (hsc : Seconds sc second micro) :
    ∀ x ∈ sc.flatMap charBytes, opensOffset x = false := by
  have hdigit {c : Char} (hc : c.isDigit = true) : Calendar.opensOffset c.toNat = false :=
    opensOffset_of_isDigitByte (isDigitByte_toNat hc)
  cases hsc with
  | missing => simp
  | @whole c d _ hc hd hn =>
    have hcolon : Calendar.opensOffset 58 = false := rfl
    simp [bytes_whole hc hd, hdigit hc, hdigit hd, hcolon]
  | @fraction c d mark _ ds hc hd hn hmark hds hne =>
    rw [bytes_fraction hc hd hmark, flatMap_charBytes hds]
    have hm : Calendar.opensOffset mark.toNat = false := by rcases hmark with rfl | rfl <;> rfl
    simp only [List.mem_cons, List.mem_map, forall_eq_or_imp, hdigit hc, hdigit hd, hm, true_and,
      forall_exists_index, and_imp, forall_apply_eq_imp_iff₂]
    exact ⟨rfl, fun x hx => hdigit (hds x hx)⟩

/-! ## Offsets -/

/-- How the offset of a stamp reads byte by byte: it is missing, the letter Z, a sign with a time, or
in a spelling that the other reader has no name for. -/
inductive Zone : List Nat → Option Offset → Prop where
  | absent : Zone [] none
  | zulu : Zone [90] (some .utc)
  | foreign {x : Nat} {xs : List Nat} (o : Offset) (hx : Strange x)
      (hopens : ∀ y ∈ x :: xs, opensOffset y = false) : Zone (x :: xs) (some o)
  | signed {negative : Bool} {hour minute : Nat} {xs : List Nat} {o : Offset}
      (hread : clockNumbers? xs 0 = some { hour, minute })
      (ho : o.micros = if negative then -(((hour * 60 + minute : Nat) : Int) * 60000000)
        else ((hour * 60 + minute : Nat) : Int) * 60000000) :
      Zone ((if negative then 45 else 43) :: xs) (some o)

theorem Offset.micros_of? {n : Int} {o : Offset} (h : Offset.of? n = some o) : o.micros = n := by
  unfold Offset.of? at h
  split at h
  · cases h
    rfl
  · cases h

/-- Hours and minutes of an offset, with a colon between them or not. -/
theorem clockNumbers?_pairs {a b c d hour minute : Nat}
    (hhour : ∀ rest, fixedDigits? 2 (a :: b :: rest) 0 = some (hour, rest))
    (hminute : ∀ rest, fixedDigits? 2 (c :: d :: rest) 0 = some (minute, rest))
    (hc : isDigitByte c = true) :
    clockNumbers? [a, b, 58, c, d] 0 = some { hour, minute } ∧
      clockNumbers? [a, b, c, d] 0 = some { hour, minute } := by
  simp only [isDigitByte, Bool.and_eq_true, decide_eq_true_eq] at hc
  have hc₁ : c ≠ 58 := by omega
  have hc₂ : c ≠ 46 := by omega
  have hc₃ : c ≠ 44 := by omega
  constructor
  · simp [clockNumbers?, groups?, hhour, hminute]
  · simp [clockNumbers?, groups?, hhour, hminute, hc₁, hc₂, hc₃]

section

variable {sign : Char} {negative : Bool}
  (hsign : sign = '+' ∧ negative = false ∨ (sign = '-' ∨ sign = '\u2212') ∧ negative = true)

include hsign

/-- A sign with a time behind it. The minus of mathematics takes three bytes, and none of them opens
an offset. -/
theorem Zone.of_sign {rest : List Char} {hour minute : Nat} {o : Offset}
    (hread : clockNumbers? (rest.flatMap charBytes) 0 = some { hour, minute })
    (hrest : ∀ x ∈ rest.flatMap charBytes, opensOffset x = false)
    (ho : o.micros = if negative then -(((hour * 60 + minute : Nat) : Int) * 60000000)
      else ((hour * 60 + minute : Nat) : Int) * 60000000) :
    Zone ((sign :: rest).flatMap charBytes) (some o) := by
  rcases hsign with ⟨rfl, rfl⟩ | ⟨rfl | rfl, rfl⟩
  · exact .signed hread ho
  · exact .signed hread ho
  · refine .foreign (x := 226) o ⟨rfl, by decide, by decide, by decide, by decide⟩ ?_
    have hminus : ∀ y ∈ [226, 136, 146], opensOffset y = false := by decide
    intro y hy
    rcases List.mem_append.1 (show y ∈ [226, 136, 146] ++ rest.flatMap charBytes from hy) with hy | hy
    · exact hminus y hy
    · exact hrest y hy

/-- Behind the sign of an offset stand two pairs of digits. -/
theorem Zone.of_pairs {cs : List Char} {offset : Option Offset}
    (h : (do
      let (hour, cs) ← twoDigits? cs
      let cs := match cs with
        | ':' :: cs => cs
        | _ => cs
      let (minute, cs) ← twoDigits? cs
      if cs.isEmpty && minute < 60 then
        let size : Int := ((hour * 60 + minute : Nat) : Int) * 60000000
        (Offset.of? (if negative then -size else size)).map some
      else none) = some offset) :
    Zone ((sign :: cs).flatMap charBytes) offset ∧ ∀ c ∈ sign :: cs, isBlank c = false := by
  obtain ⟨⟨hour, cs₁⟩, h₁, hrest⟩ := Option.bind_eq_some_iff.1 h
  obtain ⟨⟨minute, cs₂⟩, h₂, hoffset⟩ := Option.bind_eq_some_iff.1 hrest
  obtain ⟨a, b, rfl, ha, hb, hhour⟩ := twoDigits?_eq_some h₁
  obtain ⟨c, d, hcs₁, hc, hd, hminute⟩ := twoDigits?_eq_some h₂
  by_cases hend : (cs₂.isEmpty && decide (minute < 60)) = true
  · simp only [hend, if_true] at hoffset
    obtain ⟨o, ho, rfl⟩ := Option.map_eq_some_iff.1 hoffset
    simp only [Bool.and_eq_true, List.isEmpty_iff, decide_eq_true_eq] at hend
    obtain ⟨rfl, -⟩ := hend
    have hmicros := Offset.micros_of? ho
    obtain ⟨hcolon, hnone⟩ := clockNumbers?_pairs (fixedDigits?_two ha hb hhour)
      (fixedDigits?_two hc hd hminute) (isDigitByte_toNat hc)
    have hopens {x : Char} (hx : x.isDigit = true) : opensOffset x.toNat = false :=
      opensOffset_of_isDigitByte (isDigitByte_toNat hx)
    have hblank : isBlank sign = false := by
      rcases hsign with ⟨rfl, -⟩ | ⟨rfl | rfl, -⟩ <;> rfl
    split at hcs₁
    · subst hcs₁
      have hbytes : [a, b, ':', c, d].flatMap charBytes
          = [a.toNat, b.toNat, 58, c.toNat, d.toNat] := by
        simp only [List.flatMap_cons, List.flatMap_nil, charBytes_of_isDigit, ha, hb, hc, hd]
        rfl
      have hmark : opensOffset 58 = false := rfl
      refine ⟨Zone.of_sign hsign (hbytes ▸ hcolon) ?_ hmicros, ?_⟩
      · rw [hbytes]
        simp [hopens ha, hopens hb, hopens hc, hopens hd, hmark]
      · have hcolon : isBlank ':' = false := rfl
        simp [hblank, isBlank_of_isDigit ha, isBlank_of_isDigit hb, isBlank_of_isDigit hc,
          isBlank_of_isDigit hd, hcolon]
    · subst hcs₁
      have hbytes : [a, b, c, d].flatMap charBytes = [a.toNat, b.toNat, c.toNat, d.toNat] := by
        simp only [List.flatMap_cons, List.flatMap_nil, charBytes_of_isDigit, ha, hb, hc, hd]
        rfl
      refine ⟨Zone.of_sign hsign (hbytes ▸ hnone) ?_ hmicros, ?_⟩
      · rw [hbytes]
        simp [hopens ha, hopens hb, hopens hc, hopens hd]
      · simp [hblank, isBlank_of_isDigit ha, isBlank_of_isDigit hb, isBlank_of_isDigit hc,
          isBlank_of_isDigit hd]
  · simp only [hend] at hoffset
    cases hoffset

end

/-- What is read as an offset reads as one of the four forms. -/
theorem zone?_eq_some {cs : List Char} {offset : Option Offset} (h : zone? cs = some offset) :
    Zone (cs.flatMap charBytes) offset ∧ ∀ c ∈ cs, isBlank c = false := by
  unfold zone? at h
  split at h
  · cases h
    exact ⟨.absent, by simp⟩
  · cases h
    exact ⟨.zulu, fun c hc => by rw [List.mem_singleton.1 hc]; rfl⟩
  · cases h
    exact ⟨.foreign (x := 122) _ ⟨rfl, by decide, by decide, by decide, by decide⟩ (by decide),
      fun c hc => by rw [List.mem_singleton.1 hc]; rfl⟩
  · dsimp only at h
    split at h
    · rename_i hplus
      exact Zone.of_pairs (.inl ⟨by simpa using hplus, rfl⟩) h
    · split at h
      · rename_i hminus
        exact Zone.of_pairs (.inr ⟨by simpa using hminus, rfl⟩) h
      · cases h

/-! ## Moments -/

/-- A time of whole minutes as it is counted in an offset. -/
theorem micros_of_minutes (n : Nat) : (if n * 60 + 0 == 0 then (0 : Int)
    else (n * 60 + 0 : Nat) * 1000000 + (0 : Nat)) = (n : Int) * 60000000 := by
  by_cases hzero : n = 0
  · rw [hzero]
    rfl
  · rw [if_neg (by simp only [beq_iff_eq]; omega)]
    omega

section

variable {a b c d : Char} {hour minute second micro : Nat} {sc : List Char}
  (ha : a.isDigit = true) (hb : b.isDigit = true)
  (hhour : hour = (a.toNat - 48) * 10 + (b.toNat - 48)) (hc : c.isDigit = true)
  (hd : d.isDigit = true) (hminute : minute = (c.toNat - 48) * 10 + (d.toNat - 48))
  (hsc : Seconds sc second micro)

include ha hb hhour hc hd hminute hsc

/-- The time of day of a stamp is read to its end. -/
theorem clockNumbers?_stamp (after : Nat) :
    clockNumbers? (a.toNat :: b.toNat :: 58 :: c.toNat :: d.toNat :: sc.flatMap charBytes) after
      = some { hour, minute, second, micro, leftOver := after != 0 } := by
  obtain ⟨vs, hvs, hsecond⟩ := groups?_seconds (fixedDigits?_two hc hd hminute) hsc after
  rw [clockNumbers?, groups?_colon rfl (fixedDigits?_two ha hb hhour) (by simp), hvs]
  simp [hsecond]

/-- A strange byte behind the time of day of a stamp is left over. -/
theorem clockNumbers?_stamp_strange {x : Nat} (hx : Strange x) (xs : List Nat) {after : Nat}
    {r : ClockNumbers} (h : clockNumbers?
      (a.toNat :: b.toNat :: 58 :: c.toNat :: d.toNat :: (sc.flatMap charBytes ++ x :: xs)) after
        = some r) : r.leftOver = true := by
  rw [clockNumbers?, groups?_colon rfl (fixedDigits?_two ha hb hhour) (by simp), Option.map_map] at h
  obtain ⟨⟨vs, r', left⟩, hgroups, rfl⟩ := Option.map_eq_some_iff.1 h
  exact groups?_seconds_strange (fixedDigits?_two hc hd hminute) hsc hx xs hgroups

/-- If a stamp's time of day and offset are read at all, byte by byte, they are read the same. -/
theorem timeNumbers?_stamp {zs : List Nat} {offset : Option Offset} (hz : Zone zs offset)
    {r : ClockNumbers} {micros : Option Int} (h : timeNumbers?
      (a.toNat :: b.toNat :: 58 :: c.toNat :: d.toNat :: sc.flatMap charBytes ++ zs)
        = some (r, micros)) :
    (r.hour = hour ∧ r.minute = minute ∧ r.second = second ∧ r.micro = micro) ∧
      micros = offset.map Offset.micros := by
  have hclock := clockNumbers?_stamp ha hb hhour hc hd hminute hsc
  have hdigit {x : Char} (hx : x.isDigit = true) : opensOffset x.toNat = false :=
    opensOffset_of_isDigitByte (isDigitByte_toNat hx)
  have hbefore : ∀ x ∈ a.toNat :: b.toNat :: 58 :: c.toNat :: d.toNat :: sc.flatMap charBytes,
      (!opensOffset x) = true := by
    have hcolon : opensOffset 58 = false := rfl
    simp only [List.mem_cons, forall_eq_or_imp, hdigit ha, hdigit hb, hcolon, hdigit hc, hdigit hd,
      Bool.not_false, true_and]
    exact fun x hx => by rw [hsc.opensOffset x hx]; rfl
  unfold timeNumbers? at h
  rw [List.takeWhile_append_of_pos hbefore, List.dropWhile_append_of_pos hbefore] at h
  cases hz with
  | absent =>
    simp only [List.takeWhile_nil, List.append_nil, List.dropWhile_nil, hclock] at h
    cases h
    exact ⟨⟨rfl, rfl, rfl, rfl⟩, rfl⟩
  | zulu =>
    simp [opensOffset, hclock] at h
    obtain ⟨rfl, rfl⟩ := h
    exact ⟨⟨rfl, rfl, rfl, rfl⟩, rfl⟩
  | @foreign x xs o hx hopens =>
    have hall : ∀ y ∈ x :: xs, (!opensOffset y) = true := fun y hy => by rw [hopens y hy]; rfl
    rw [List.takeWhile_eq_self_iff.2 hall, List.dropWhile_eq_nil_iff.2 hall] at h
    obtain ⟨r', hr, h⟩ := Option.bind_eq_some_iff.1 h
    rw [clockNumbers?_stamp_strange ha hb hhour hc hd hminute hsc hx xs hr] at h
    cases h
  | @signed negative oh om xs o hread ho =>
    generalize hmark : (if negative then 45 else 43) = mark at h
    have hcut : (mark :: xs).takeWhile (fun y => !opensOffset y) = [] ∧
        (mark :: xs).dropWhile (fun y => !opensOffset y) = mark :: xs := by
      subst hmark
      cases negative <;> exact ⟨rfl, rfl⟩
    rw [hcut.1, hcut.2, List.append_nil] at h
    obtain ⟨r', hr, h⟩ := Option.bind_eq_some_iff.1 h
    cases (hclock _).symm.trans hr
    rw [if_neg (by subst hmark; cases negative <;> decide)] at h
    obtain ⟨r', hr, h⟩ := Option.bind_eq_some_iff.1 h
    cases hread.symm.trans hr
    rw [if_neg Bool.false_ne_true] at h
    cases h
    refine ⟨⟨rfl, rfl, rfl, rfl⟩, ?_⟩
    rw [Option.map_some, ho, ← micros_of_minutes]
    subst hmark
    cases negative <;> rfl

end

/-- A text with a hyphenated date at its head: what stands behind the date is read as a time. -/
theorem momentNumbers?_hyphenated {s : String} {cs : List Char} {d : Option Date}
    (h : hyphenated? s.toList = some (d, cs)) :
    ∃ year month day, dateOrYearZero? year month day = some d ∧
      momentNumbers? s = (if (cs.flatMap charBytes).isEmpty then some ({}, none)
        else timeNumbers? (dropChar (cs.flatMap charBytes))).map
          fun (c, offset) => ((year, month, day), c, offset) := by
  obtain ⟨ds, year, month, day, hs, hspelled, hdate⟩ := hyphenated?_eq_some h
  refine ⟨year, month, day, hdate, ?_⟩
  have hall : bytes s = ds.flatMap charBytes ++ cs.flatMap charBytes := by
    rw [bytes, hs, List.flatMap_append]
  have hlong : ¬ s.length < 7 := by
    rw [← String.length_toList, hs, List.length_append, hspelled.length]
    omega
  have hnumbers := hspelled.dateNumbers?_eq
  have hsize := hspelled.dateLength?_eq (cs.flatMap charBytes)
  have hbytes := hspelled.length_bytes
  generalize ds.flatMap charBytes = date at hall hbytes hsize hnumbers
  generalize cs.flatMap charBytes = time at hall hsize ⊢
  have htake : (date ++ time).take 10 = date := by
    rw [← hbytes, List.take_left]
  have hdrop : (date ++ time).drop 10 = time := by
    rw [← hbytes, List.drop_left]
  unfold momentNumbers?
  simp only [hlong, if_false, hall, hsize, bind, Option.bind, htake, hnumbers, hdrop]
  cases time with
  | nil => simp [hbytes]
  | cons x xs =>
    have hmore : ¬ (date ++ x :: xs).length ≤ 10 := by
      rw [List.length_append, List.length_cons]
      omega
    rw [if_neg hmore, List.isEmpty_cons, if_neg Bool.false_ne_true]
    cases timeNumbers? (dropChar (x :: xs)) <;> rfl

theorem mapError_eq_ok {ε φ α : Type} {x : Except ε α} {f : ε → φ} {a : α}
    (h : x.mapError f = .ok a) : x = .ok a := by
  cases x with
  | error e => cases h
  | ok b =>
    cases h
    rfl

/-- A moment that is read has the parts that its numbers make. -/
theorem Moment.ofIso_eq_ok {s : String} {m : Moment} (h : Moment.ofIso s = .ok m) :
    ∃ year month day c, momentNumbers? s
        = some ((year, month, day), c, m.offset.map Offset.micros) ∧
      Date.of year month day = .ok m.date ∧
      Clock.of c.hour c.minute c.second c.micro = .ok m.clock := by
  unfold Moment.ofIso at h
  split at h
  · cases h
  · rename_i year month day c offset hnumbers
    -- the date and the time of day are made alike, whatever the offset is
    have hparts (o : Option Offset)
        (h : ((Date.of year month day).mapError IsoFault.date >>= fun date =>
          (Clock.of c.hour c.minute c.second c.micro).mapError IsoFault.clock >>= fun clock =>
            .ok ⟨date, clock, o⟩) = .ok m) :
        m.offset = o ∧ Date.of year month day = .ok m.date ∧
          Clock.of c.hour c.minute c.second c.micro = .ok m.clock := by
      obtain ⟨date, hdate, hrest⟩ := Service.except_bind_ok_iff.1 h
      obtain ⟨clock, hclock, hm⟩ := Service.except_bind_ok_iff.1 hrest
      cases hm
      exact ⟨rfl, mapError_eq_ok hdate, mapError_eq_ok hclock⟩
    refine ⟨year, month, day, c, ?_⟩
    rw [hnumbers]
    cases offset with
    | none =>
      obtain ⟨ho, hdate⟩ := hparts none h
      exact ⟨by rw [ho]; rfl, hdate⟩
    | some micros =>
      cases hread : Offset.of? micros with
      | none =>
        simp only [hread] at h
        cases h
      | some o =>
        simp only [hread] at h
        obtain ⟨ho, hdate⟩ := hparts (some o) h
        exact ⟨by rw [ho, Option.map_some, Offset.micros_of? hread], hdate⟩

/-- A date of the calendar comes of its numbers in one way. -/
theorem dateOrYearZero?_eq_some {year month day : Nat} {d : Date}
    (h : dateOrYearZero? year month day = some (some d)) : Date.of year month day = .ok d := by
  unfold dateOrYearZero? at h
  split at h
  · rename_i hd
    cases h
    exact hd
  · split at h <;> cases h

/-- What stands between the minutes of a stamp and its offset holds no blank. -/
theorem Seconds.isBlank {sc : List Char} {second micro : Nat} (hsc : Seconds sc second micro) :
    ∀ c ∈ sc, isBlank c = false := by
  have hcolon : Text.isBlank ':' = false := rfl
  cases hsc with
  | missing => simp
  | whole ha hb => simp [hcolon, isBlank_of_isDigit ha, isBlank_of_isDigit hb]
  | @fraction a b mark _ ds ha hb _ hmark hds =>
    have hm : Text.isBlank mark = false := by rcases hmark with rfl | rfl <;> rfl
    simp only [List.mem_cons, forall_eq_or_imp, hcolon, isBlank_of_isDigit ha,
      isBlank_of_isDigit hb, hm, true_and]
    exact fun c hc => isBlank_of_isDigit (hds c hc)

/-- A text with a hyphenated date at its head starts with a digit, and ends with one unless more
follows. -/
theorem strip_of_hyphenated? {s : String} {cs : List Char} {d : Option Date}
    (h : hyphenated? s.toList = some (d, cs)) (hcs : ∀ c ∈ cs.getLast?, isBlank c = false) :
    strip s = s := by
  obtain ⟨ds, year, month, day, hs, hspelled, -⟩ := hyphenated?_eq_some h
  refine strip_eq_self (fun c hc => ?_) fun c hc => ?_
  · cases ds with
    | nil => cases hspelled
    | cons x ds =>
      rw [hs] at hc
      cases hc
      exact hspelled.isBlank c List.mem_cons_self
  · rw [hs, List.getLast?_append] at hc
    rcases Option.or_eq_some_iff.1 hc with hc | ⟨-, hc⟩
    · exact hcs c hc
    · exact hspelled.isBlank c (List.mem_of_getLast? hc)

/-- What ISO 8601 makes of a text with a hyphenated date at its head: the same date, and the time that
stands behind it. -/
theorem Moment.ofIso_hyphenated {s : String} {cs : List Char} {d : Date} {m : Moment}
    (h : hyphenated? s.toList = some (some d, cs)) (hcs : ∀ c ∈ cs.getLast?, isBlank c = false)
    (hm : Moment.ofIso (strip s) = .ok m) :
    m.date = d ∧ ∃ c, (if (cs.flatMap charBytes).isEmpty then some ({}, none)
        else timeNumbers? (dropChar (cs.flatMap charBytes)))
          = some (c, m.offset.map Offset.micros) ∧
      Clock.of c.hour c.minute c.second c.micro = .ok m.clock := by
  obtain ⟨year, month, day, hd, hnumbers⟩ := momentNumbers?_hyphenated h
  rw [strip_of_hyphenated? h hcs] at hm
  obtain ⟨year', month', day', c, hread, hdate, hclock⟩ := Moment.ofIso_eq_ok hm
  obtain ⟨⟨c', offset⟩, htime, heq⟩ := Option.map_eq_some_iff.1 (hnumbers.symm.trans hread)
  cases heq
  refine ⟨?_, _, htime, hclock⟩
  exact Except.ok.inj (hdate.symm.trans (dateOrYearZero?_eq_some hd))

theorem Moment.eq_of_parts {m m' : Moment} (hdate : m.date = m'.date) (hclock : m.clock = m'.clock)
    (hoffset : m.offset.map Offset.micros = m'.offset.map Offset.micros) : m = m' := by
  have hinj : Function.Injective Offset.micros := fun ⟨_, _⟩ ⟨_, _⟩ h => by cases h; rfl
  cases m
  cases m'
  cases hdate
  cases hclock
  cases Option.map_injective hinj hoffset
  rfl

/-- What follows the date of an internet date-time: a separator, the time of day and the offset. -/
inductive Spelled : List Char → Clock → Option Offset → Prop where
  | mk {mark a b c d : Char} {hour minute second micro : Nat} {sc zs : List Char} {clock : Clock}
      {offset : Option Offset} (hmark : mark = 'T' ∨ mark = 't' ∨ mark = ' ' ∨ mark = '_')
      (ha : a.isDigit = true) (hb : b.isDigit = true)
      (hhour : hour = (a.toNat - 48) * 10 + (b.toNat - 48)) (hc : c.isDigit = true)
      (hd : d.isDigit = true) (hminute : minute = (c.toNat - 48) * 10 + (d.toNat - 48))
      (hsc : Seconds sc second micro) (hzone : zone? zs = some offset)
      (hclock : Clock.of hour minute second micro = .ok clock) :
      Spelled (mark :: a :: b :: ':' :: c :: d :: (sc ++ zs)) clock offset

/-- A moment that is read from an internet date-time is spelled by it. -/
theorem Stamp.ofInternet?_eq_some {s : String} {m : Moment}
    (h : Stamp.ofInternet? s = some (.moment m)) :
    ∃ cs, hyphenated? s.toList = some (some m.date, cs) ∧ Spelled cs m.clock m.offset := by
  unfold Stamp.ofInternet? at h
  obtain ⟨⟨date, cs⟩, hdate, h⟩ := Option.bind_eq_some_iff.1 h
  dsimp only at h
  split at h
  · rename_i mark cs₁
    split at h
    · rename_i hmark
      obtain ⟨⟨hour, cs₂⟩, h₂, h⟩ := Option.bind_eq_some_iff.1 h
      dsimp only at h
      split at h
      · obtain ⟨⟨minute, cs₄⟩, h₄, h⟩ := Option.bind_eq_some_iff.1 h
        obtain ⟨⟨⟨second, micro⟩, cs₅⟩, h₅, h⟩ := Option.bind_eq_some_iff.1 h
        obtain ⟨offset, hoffset, h⟩ := Option.bind_eq_some_iff.1 h
        obtain ⟨clock, hclock, hstamp⟩ := Option.bind_eq_some_iff.1 h
        obtain ⟨a, b, rfl, ha, hb, hhour⟩ := twoDigits?_eq_some h₂
        obtain ⟨c, d, rfl, hc, hd, hminute⟩ := twoDigits?_eq_some h₄
        obtain ⟨sc, rfl, hsc⟩ := seconds?_eq_some h₅
        cases hread : Clock.of hour minute second micro with
        | error fault =>
          rw [hread] at hclock
          cases hclock
        | ok clock' =>
          rw [hread] at hclock
          cases hclock
          cases date with
          | none => cases hstamp
          | some date =>
            cases hstamp
            exact ⟨_, hdate,
              .mk (by simpa [or_assoc] using hmark) ha hb hhour hc hd hminute hsc hoffset hread⟩
      · cases h
    · cases h
  · cases h

theorem Spelled.isBlank {cs : List Char} {clock : Clock} {offset : Option Offset}
    (h : Spelled cs clock offset) : ∀ c ∈ cs.getLast?, isBlank c = false := by
  cases h with
  | mk _ ha hb _ hc hd _ hsc hzone =>
    intro x hx
    have hcolon : Text.isBlank ':' = false := rfl
    rw [List.getLast?_cons_cons] at hx
    have hmem := List.mem_of_getLast? hx
    simp only [List.mem_cons, List.mem_append] at hmem
    rcases hmem with rfl | rfl | rfl | rfl | rfl | hmem | hmem
    exacts [isBlank_of_isDigit ha, isBlank_of_isDigit hb, hcolon, isBlank_of_isDigit hc,
      isBlank_of_isDigit hd, hsc.isBlank x hmem, (zone?_eq_some hzone).2 x hmem]

/-- If what follows the date of an internet date-time is read as a time, it is read the same. -/
theorem Spelled.timeNumbers? {cs : List Char} {clock clock' : Clock} {offset : Option Offset}
    (h : Spelled cs clock offset) {r : ClockNumbers} {micros : Option Int}
    (hr : (if (cs.flatMap charBytes).isEmpty then some ({}, none)
      else Calendar.timeNumbers? (dropChar (cs.flatMap charBytes))) = some (r, micros))
    (hclock : Clock.of r.hour r.minute r.second r.micro = .ok clock') :
    clock' = clock ∧ micros = offset.map Offset.micros := by
  cases h with
  | @mk mark a b c d hour minute second micro sc zs clock _ hmark ha hb hhour hc hd hminute hsc hzone
      hread =>
    have hbytes : dropChar ((mark :: a :: b :: ':' :: c :: d :: (sc ++ zs)).flatMap charBytes)
        = a.toNat :: b.toNat :: 58 :: c.toNat :: d.toNat :: sc.flatMap charBytes
          ++ zs.flatMap charBytes := by
      simp only [List.flatMap_cons, List.flatMap_append, charBytes_of_isDigit, ha, hb, hc, hd]
      rcases hmark with rfl | rfl | rfl | rfl <;> rfl
    generalize (mark :: a :: b :: ':' :: c :: d :: (sc ++ zs)).flatMap charBytes = bs at hbytes hr
    cases bs with
    | nil => cases hbytes
    | cons x bs =>
      rw [List.isEmpty_cons, if_neg Bool.false_ne_true, hbytes] at hr
      obtain ⟨⟨rfl, rfl, rfl, rfl⟩, hoffset⟩ :=
        timeNumbers?_stamp ha hb hhour hc hd hminute hsc (zone?_eq_some hzone).1 hr
      exact ⟨Except.ok.inj (hclock.symm.trans hread), hoffset⟩

/-- A moment that a text spells as an internet date-time is the one that the other reader makes of it,
if it makes any. -/
theorem Stamp.ofInternet?_agrees {s : String} {m m' : Moment}
    (h : Stamp.ofInternet? s = some (.moment m)) (h' : Moment.ofIso (strip s) = .ok m') :
    m' = m := by
  obtain ⟨cs, hdate, hspelled⟩ := Stamp.ofInternet?_eq_some h
  obtain ⟨hdate', r, hr, hclock⟩ := Moment.ofIso_hyphenated hdate hspelled.isBlank h'
  obtain ⟨hclock', hoffset⟩ := hspelled.timeNumbers? hr hclock
  exact Moment.eq_of_parts hdate' hclock' hoffset

/-- The same of a bare date. -/
theorem Stamp.ofHyphenated?_agrees {s : String} {m m' : Moment}
    (h : Stamp.ofHyphenated? s = some (.moment m)) (h' : Moment.ofIso (strip s) = .ok m') :
    m' = m := by
  unfold Stamp.ofHyphenated? at h
  split at h
  · rename_i date hdate
    cases h
    obtain ⟨hdate', c, hc, hclock⟩ := Moment.ofIso_hyphenated hdate (by simp) h'
    obtain ⟨rfl, hoffset⟩ := Prod.mk.inj (Option.some.inj hc)
    exact Moment.eq_of_parts hdate' (Except.ok.inj hclock).symm hoffset.symm
  · cases h
  · cases h

/-- A text that is no count spells at most one moment. -/
theorem Stamp.ofText?_agrees {s : String} {m m' : Moment} (hcount : Stamp.ofCountText? s = none)
    (h : Stamp.ofText? s = some (.moment m)) (h' : Moment.ofIso (strip s) = .ok m') : m' = m := by
  unfold Stamp.ofText? at h
  split at h
  · rename_i stamp hstamp
    cases h
    exact Stamp.ofInternet?_agrees hstamp h'
  · rw [hcount] at h
    exact Stamp.ofHyphenated?_agrees h h'

end Bookkeeping.Calendar
