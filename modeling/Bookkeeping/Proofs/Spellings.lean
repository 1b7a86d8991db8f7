import Bookkeeping.Proofs.Alike
import Bookkeeping.Proofs.Figures
import Bookkeeping.Proofs.Stamps
import Bookkeeping.Proofs.WholeDoubles

/-! # Spellings of integers

An integer may be given as such or as a text, with commas anywhere between its digits and blanks at its
ends. One way to a double goes through the digits of a decimal number, the other does not; both come to
the same, however many digits there are.
-/

namespace Bookkeeping

namespace Text

/-- The second list of characters is the first one with commas put in anywhere. -/
inductive Separated : List Char → List Char → Prop
  | nil : Separated [] []
  | comma {cs ds : List Char} (h : Separated cs ds) : Separated cs (',' :: ds)
  | char {cs ds : List Char} (c : Char) (h : Separated cs ds) : Separated (c :: cs) (c :: ds)

theorem Separated.filter {cs ds : List Char} (h : Separated cs ds) :
    ds.filter (· != ',') = cs.filter (· != ',') := by
  induction h with
  | nil => rfl
  | comma h ih => rw [List.filter_cons_of_neg (by simp), ih]
  | char c h ih => rw [List.filter_cons, List.filter_cons, ih]

theorem ne_comma_of_isBlank {c : Char} (h : isBlank c = true) : c ≠ ',' := by
  rintro rfl
  exact absurd h (by decide)

end Text

namespace Number

open Text

variable {ds : List Char} {n : Int}

/-! ## Digits -/

theorem digitChar_toNat_sub {c : Char} (h : c.isDigit = true) : Nat.digitChar (c.toNat - 48) = c := by
  have hrange : 48 ≤ c.toNat ∧ c.toNat ≤ 57 := Char.isDigit_iff_toNat.1 h
  apply Char.toNat_inj.mp
  rw [Nat.toNat_digitChar_of_lt_ten (by omega)]
  omega

/-- A numeral of ASCII digits is as plain as it can be. -/
theorem plain_digits (h : ∀ c ∈ ds, c.isDigit = true) : Decimal.plain ds = ds := by
  have hlines : ds.filter (· != '_') = ds := by
    refine List.filter_eq_self.2 fun c hc => bne_iff_ne.2 ?_
    rintro rfl
    exact absurd (h _ hc) (by decide)
  rw [Decimal.plain, hlines]
  refine (List.map_congr_left fun c hc => ?_).trans ds.map_id
  have hvalue : digit? c = some (c.toNat - 48) := if_pos (h c hc)
  rw [hvalue]
  exact digitChar_toNat_sub (h c hc)

theorem takeDigits_digits (h : ∀ c ∈ ds, c.isDigit = true) :
    takeDigits ds = (ds.map fun c => c.toNat - 48, []) := by
  have hall : ds.takeWhile Char.isDigit = ds := List.takeWhile_eq_self_iff.2 h
  have hnone : ds.dropWhile Char.isDigit = [] := List.dropWhile_eq_nil_iff.2 h
  rw [takeDigits, hall, hnone, Calendar.filterMap_asciiDigit? h]

theorem takeSign_digits (h : ∀ c ∈ ds, c.isDigit = true) : takeSign ds = (false, ds) := by
  unfold takeSign
  split
  · exact absurd (h _ List.mem_cons_self) (by decide)
  · exact absurd (h _ List.mem_cons_self) (by decide)
  · rfl

/-! ## Texts of integers -/

/-- The characters of an integer. -/
def spelling (n : Int) : List Char := (if n < 0 then ['-'] else []) ++ Nat.toDigits 10 n.natAbs

theorem toList_toString (n : Int) : (toString n).toList = spelling n := by
  cases n with
  | ofNat m =>
    have hpos : ¬ Int.ofNat m < 0 := (Int.natCast_nonneg m).not_gt
    rw [spelling, if_neg hpos]
    exact Nat.toList_repr
  | negSucc m =>
    rw [spelling, if_pos (Int.negSucc_lt_zero m)]
    show ("-" ++ (m + 1).repr).toList = _
    rw [String.toList_append, Nat.toList_repr]
    rfl

theorem isDigit_natAbs (n : Int) : ∀ c ∈ Nat.toDigits 10 n.natAbs, c.isDigit = true := fun _ hc =>
  Nat.isDigit_of_mem_toDigits (by decide) (by decide) hc

/-- No character of an integer is a blank or a comma. -/
theorem eq_hyphen_or_isDigit {c : Char} (h : c ∈ spelling n) : c = '-' ∨ c.isDigit = true := by
  rw [spelling, List.mem_append] at h
  obtain h | h := h
  · split at h
    · exact .inl (List.mem_singleton.1 h)
    · cases h
  · exact .inr (isDigit_natAbs n c h)

theorem plain_spelling (n : Int) : Decimal.plain (spelling n) = spelling n := by
  have hdigits := plain_digits (isDigit_natAbs n)
  rw [Decimal.plain] at hdigits ⊢
  rw [spelling, List.filter_append, List.map_append, hdigits]
  split <;> rfl

theorem takeSign_spelling (n : Int) :
    takeSign (spelling n) = (decide (n < 0), Nat.toDigits 10 n.natAbs) := by
  unfold spelling
  split
  · rename_i hn
    rw [decide_eq_true hn]
    rfl
  · rename_i hn
    rw [decide_eq_false hn]
    exact takeSign_digits (isDigit_natAbs n)

theorem numeral?_spelling (n : Int) : numeral? (spelling n)
    = some ⟨decide (n < 0), (Nat.toDigits 10 n.natAbs).map fun c => c.toNat - 48, 0⟩ := by
  have hne : ((Nat.toDigits 10 n.natAbs).map fun c => c.toNat - 48) ≠ [] := by
    simp [Nat.toDigits_ne_nil]
  unfold numeral?
  rw [takeSign_spelling]
  simp [takeDigits_digits (isDigit_natAbs n)]

theorem length_toString_le {m k : Nat} (hk : 0 < k) (h : m ≤ 2 ^ k) : (toString m).length ≤ k := by
  rw [Nat.toString_eq_repr, ← String.length_toList, Nat.toList_repr,
    Nat.length_toDigits_le_iff (by decide) hk]
  exact h.trans_lt (Nat.pow_lt_pow_left (by decide) hk.ne')

/-- The exponent of an integer is in range, since it has no more than `10 ^ 18` digits. -/
theorem bounded?_spelling (hn : n.natAbs ≤ 2 ^ 1023) :
    Decimal.bounded? ⟨decide (n < 0), (Nat.toDigits 10 n.natAbs).map fun c => c.toNat - 48, 0⟩
      = some (.finite (decide (n < 0)) n.natAbs 0) := by
  have hvalue : ofDigits ((Nat.toDigits 10 n.natAbs).map fun c => c.toNat - 48) = n.natAbs := by
    rw [Calendar.ofDigits_map, Nat.ofDigitChars_ten_toDigits]
  have hlength := length_toString_le (by decide) hn
  have htop : ¬ Decimal.maxExponent < (if (n.natAbs == 0) = true then 0
      else (0 : Int) + (toString n.natAbs).length - 1) := by
    unfold Decimal.maxExponent
    split <;> omega
  unfold Decimal.bounded?
  dsimp only
  rw [hvalue, decide_eq_false htop]
  rfl

/-! ## Texts that spell integers -/

/-- A text that spells an integer: its digits and its sign, with blanks at the ends and commas
anywhere. -/
def Spells (n : Int) (s : String) : Prop :=
  ∃ front back : List Char, (∀ c ∈ front, isBlank c = true) ∧ (∀ c ∈ back, isBlank c = true) ∧
    Separated (front ++ (toString n).toList ++ back) s.toList

/-- What is left of a text that spells an integer when its commas are left out. -/
theorem Spells.withoutCommas {s : String} (h : Spells n s) : ∃ front back : List Char,
    (∀ c ∈ front, isBlank c = true) ∧ (∀ c ∈ back, isBlank c = true) ∧
      (Check.withoutCommas s).toList = front ++ spelling n ++ back := by
  obtain ⟨front, back, hfront, hback, hs⟩ := h
  have hblank {cs : List Char} (hcs : ∀ c ∈ cs, isBlank c = true) :
      cs.filter (· != ',') = cs :=
    List.filter_eq_self.2 fun c hc => bne_iff_ne.2 (ne_comma_of_isBlank (hcs c hc))
  have hspelling : (spelling n).filter (· != ',') = spelling n := by
    refine List.filter_eq_self.2 fun c hc => bne_iff_ne.2 ?_
    rintro rfl
    exact absurd (eq_hyphen_or_isDigit hc) (by decide)
  refine ⟨front, back, hfront, hback, ?_⟩
  rw [Check.withoutCommas, String.toList_ofList, hs.filter, toList_toString, List.filter_append,
    List.filter_append, hblank hfront, hblank hback, hspelling]

/-- No blank is cut off the digits of an integer. -/
theorem cutEnds_spelling (n : Int) : cutEnds isBlank (spelling n) = spelling n := by
  have hnone {c : Char} (hc : c ∈ spelling n) : isBlank c = false := by
    obtain rfl | hdigit := eq_hyphen_or_isDigit hc
    · decide
    · exact Calendar.isBlank_of_isDigit hdigit
  rw [cutEnds, dropWhile_eq_self fun c hc => hnone (List.mem_of_mem_head? hc),
    dropWhile_eq_self fun c hc => hnone (List.mem_reverse.1 (List.mem_of_mem_head? hc)),
    List.reverse_reverse]

/-- A text that spells an integer is read as the decimal with its digits. -/
theorem ofText?_spells {s : String} (hn : n.natAbs ≤ 2 ^ 1023) (h : Spells n s) :
    Decimal.ofText? (Check.withoutCommas s) = some (.finite (decide (n < 0)) n.natAbs 0) := by
  obtain ⟨front, back, hfront, hback, hs⟩ := h.withoutCommas
  unfold Decimal.ofText?
  rw [hs, cutEnds_append hfront hback, cutEnds_spelling, plain_spelling]
  dsimp only
  rw [numeral?_spelling]
  exact bounded?_spelling hn

end Number

namespace Check

open Number Text

variable {n : Int} {s : String}

/-- An integer is the same double whether it is given as such or spelled. -/
theorem anyFloat_spelled (hn : n.natAbs ≤ 2 ^ 1023) (h : Spells n s) (field : String) {v : Value}
    (hv : v ∈ [.text s, .int n]) : anyFloat field v = .ok (ofInt n) := by
  have htext : floatOfText? s = some (ofInt n) := by
    rw [floatOfText?, ofText?_spells hn h]
    rfl
  have hfinite := (finite_ofInt hn).1
  simp only [List.mem_cons, List.not_mem_nil, or_false] at hv
  obtain rfl | rfl := hv
  · simp only [anyFloat, htext]
  · simp only [anyFloat, hfinite, if_true]

/-- So it is judged by its sign. -/
theorem amount_spelled (hn : n.natAbs ≤ 2 ^ 1023) (h : Spells n s) (field : String)
    (positive : Bool) {v : Value} (hv : v ∈ [.text s, .int n]) : amount field positive v =
      if positive = true ∧ n ≤ 0 then reject (.outside field "must be greater than zero" v)
      else .ok (ofInt n) := by
  obtain ⟨hfinite, hsign⟩ := finite_ofInt hn
  rw [amount_eq (anyFloat_spelled hn h field hv), if_neg (by simp [hfinite])]
  simp only [hsign]

/-- An integer that is spelled is checked as the integer itself: as an amount, whether it has to be
above zero or not, and as a rate, both come to its double, or both are rejected in their field. -/
theorem spelled_alike (hn : n.natAbs ≤ 2 ^ 1023) (h : Spells n s) (field : String) :
    (∀ positive, Alike Eq (amount field positive (.text s)) (amount field positive (.int n))) ∧
      Alike Eq (rate field (.text s)) (rate field (.int n)) ∧
      ∀ positive, amount field positive (.int n) =
        if positive = true ∧ n ≤ 0 then
          reject (.outside field "must be greater than zero" (.int n))
        else .ok (ofInt n) := by
  have halike (positive : Bool) :
      Alike Eq (amount field positive (.text s)) (amount field positive (.int n)) := by
    rw [amount_spelled hn h field positive (by simp), amount_spelled hn h field positive (by simp)]
    split
    · exact .reject rfl rfl
    · exact .refl _
  exact ⟨halike, halike true, fun positive => amount_spelled hn h field positive (by simp)⟩

theorem debt_alike : (-1250 : Int).natAbs ≤ 2 ^ 1023 ∧ Spells (-1250) " -1,25,,0\n" ∧
    Alike Eq (amount "delta" false (.text " -1,25,,0\n")) (amount "delta" false (.int (-1250))) ∧
      Alike Eq (rate "rate" (.text " -1,25,,0\n")) (rate "rate" (.int (-1250))) ∧
      amount "delta" false (.int (-1250)) = .ok (ofInt (-1250)) := by
  have hsmall (k : Nat) (hk : 11 ≤ k) : (-1250 : Int).natAbs ≤ 2 ^ k :=
    Nat.le_trans (by decide) (Nat.pow_le_pow_right (by decide) hk)
  have hn := hsmall 1023 (by decide)
  have hs : Spells (-1250) " -1,25,,0\n" :=
    ⟨[' '], ['\n'], by simp [isBlank, isWhite], by simp [isBlank, isWhite],
      .char ' ' <| .char '-' <| .char '1' <| .comma <| .char '2' <| .char '5' <| .comma <| .comma <|
        .char '0' <| .char '\n' .nil⟩
  have hdelta := spelled_alike hn hs "delta"
  exact ⟨hn, hs, hdelta.1 false, (spelled_alike hn hs "rate").2.1, hdelta.2.2 false⟩

end Check

end Bookkeeping
