import Bookkeeping.Proofs.Sums

/-! # Doubles of integers

An integer of at most `2 ^ 1023` either way has a finite double: rounding moves a number by one unit
of its last place at most, and the doubles go on nearly to `2 ^ 1024`. No integer but zero is rounded
to zero, so its double has its sign.
-/

namespace Bookkeeping.Number

open Float.Model UnpackedFloat

variable {s : Sign} {m : Nat} {e : Int} {x : Float}

/-! ## Packing what is rounded -/

/-- The fields of what fits and is not too large: the exponent field is zero or tells the exponent. -/
theorem exists_packComponents (h : Fits m e) (he : e ≤ 971) (s : Sign) :
    ∃ E M, UnpackedFloat.pack Format.binary64 (.finite s m e h.pos)
      = packComponents Format.binary64 s E M ∧ E.toNat < 2047 ∧
        (E.toNat ≠ 0 → (E.toNat : Int) = e + 1075) := by
  have hlow := h.le
  have hbias : (Format.binary64.exponentBias : Int) = 1023 := by decide
  unfold UnpackedFloat.pack
  dsimp only
  rw [hbias, if_neg (by omega)]
  split
  · refine ⟨_, _, rfl, ?_⟩
    rw [BitVec.toNat_ofNat, Nat.mod_eq_of_lt (by omega)]
    omega
  · exact ⟨_, _, rfl, by decide, fun hne => absurd rfl hne⟩

/-- Bits that are neither all zeros nor those of something beyond the finite numbers. -/
theorem exists_unpack {b : BitVec Format.binary64.numBits} (hlt : (unpackExponent b).toNat < 2047)
    (hne : (unpackExponent b).toNat ≠ 0 ∨ (unpackMantissa b).toNat ≠ 0) :
    ∃ m e h, UnpackedFloat.unpack Format.binary64 b
      = .finite (Sign.ofBitVec (unpackSign b)) m e h ∧
        e = max (((unpackExponent b).toNat : Int) - 1075) (-1074) := by
  have hbias : (Format.binary64.exponentBias : Int) = 1023 := by decide
  have hlast : unpackExponent b ≠ -1#_ := fun heq => by
    rw [heq] at hlt
    exact absurd hlt (by decide)
  unfold UnpackedFloat.unpack
  dsimp only
  rw [if_neg hlast, hbias]
  by_cases hzero : unpackExponent b = 0#_
  · have hmantissa : unpackMantissa b ≠ 0#_ := fun heq => by
      rw [heq, hzero] at hne
      exact hne.elim (absurd rfl) (absurd rfl)
    have hpos : 0 < (unpackMantissa b).toNat := by
      simpa [BitVec.toNat_pos, BitVec.pos_iff_ne_zero] using hmantissa
    rw [if_pos hzero, dif_neg hmantissa]
    refine ⟨_, _, hpos, rfl, ?_⟩
    rw [hzero]
    rfl
  · have hpos : (unpackExponent b).toNat ≠ 0 := fun heq => hzero (BitVec.eq_of_toNat_eq heq)
    have hwhole : 0 < (1#1 ++ unpackMantissa b).toNat := by
      rw [BitVec.toNat_append]
      exact Nat.pos_of_ne_zero (by simp)
    rw [if_neg hzero]
    exact ⟨_, _, hwhole, rfl, by omega⟩

/-- What fits and is not too large is packed to a finite double of the same sign. -/
theorem exists_unpack_pack (h : Fits m e) (he : e ≤ 971) (s : Sign) :
    ∃ m' e' h', (Float.ofModel (Float.Model.pack (.finite s m e h.pos))).toModel.unpack
      = .finite s m' e' h' ∧ e' ≤ e := by
  have hlow := h.le
  have hne := h.fields_ne s
  obtain ⟨E, M, hpack, hlt, hexponent⟩ := exists_packComponents h he s
  have hE : unpackExponent (UnpackedFloat.pack Format.binary64 (.finite s m e h.pos)) = E := by
    rw [hpack, unpackExponent_packComponents]
  have hs : Sign.ofBitVec (unpackSign (UnpackedFloat.pack Format.binary64 (.finite s m e h.pos)))
      = s := by
    rw [hpack, unpackSign_packComponents, Sign.ofBitVec_toBitVec]
  obtain ⟨m', e', h', hunpack, he'⟩ := exists_unpack (by rwa [hE]) hne
  rw [hs] at hunpack
  rw [hE] at he'
  exact ⟨m', e', h', hunpack, by omega⟩

/-- The exponent of a double is at most that of the largest one. -/
theorem exponent_unpack_le {h : 0 < m} (hx : x.toModel.unpack = .finite s m e h) : e ≤ 971 := by
  have hbias : (Format.binary64.exponentBias : Int) = 1023 := by decide
  have hfield : (@unpackExponent Format.binary64 x.toModel.toBits.toBitVec).toNat < 2 ^ 11 :=
    BitVec.isLt _
  unfold Float.Model.unpack UnpackedFloat.unpack at hx
  dsimp only at hx
  rw [hbias] at hx
  split at hx
  · split at hx <;> cases hx
  · rename_i hlast
    have hne : (@unpackExponent Format.binary64 x.toModel.toBits.toBitVec).toNat ≠ 2047 :=
      fun heq => hlast (BitVec.eq_of_toNat_eq heq)
    split at hx
    · rename_i hzero
      rw [hzero] at hx
      split at hx <;> cases hx
      decide
    · cases hx
      omega

/-! ## Doubles above zero -/

theorem finite_pos_pack (h : Fits m e) (he : e ≤ 971) :
    isFinite (Float.ofModel (Float.Model.pack (.finite .positive m e h.pos))) = true ∧
      0 < Float.ofModel (Float.Model.pack (.finite .positive m e h.pos)) := by
  obtain ⟨m', e', h', hunpack, -⟩ := exists_unpack_pack h he .positive
  rw [isFinite_iff, lt_iff, hunpack, unpack_zero]
  exact ⟨rfl, rfl⟩

theorem exists_unpack_of_pos (hx : isFinite x = true) (hpos : 0 < x) :
    ∃ m e h, x.toModel.unpack = .finite .positive m e h := by
  have hfinite := isFinite_iff.1 hx
  rw [lt_iff, unpack_zero] at hpos
  cases hu : x.toModel.unpack with
  | infinity s =>
    rw [hu] at hfinite
    cases hfinite
  | notANumber =>
    rw [hu] at hfinite
    cases hfinite
  | zero s =>
    rw [hu] at hpos
    cases hpos
  | finite s m e hm =>
    cases s with
    | positive => exact ⟨m, e, hm, rfl⟩
    | negative =>
      rw [hu] at hpos
      cases hpos

/-- Below zero there are the same doubles as above. -/
theorem finite_neg (hx : isFinite x = true) (hpos : 0 < x) :
    isFinite (-x) = true ∧ -x ≤ 0 := by
  obtain ⟨m, e, hm, hunpack⟩ := exists_unpack_of_pos hx hpos
  have hfits : Fits m e := by
    have hpackable := packable_unpack x
    rwa [hunpack] at hpackable
  have hneg : -x = Float.ofModel (Float.Model.pack (.finite .negative m e hm)) := by
    show Float.ofModel (Float.Model.pack x.toModel.unpack.neg) = _
    rw [hunpack]
    rfl
  obtain ⟨m', e', h', hunpack', -⟩ :=
    exists_unpack_pack hfits (exponent_unpack_le hunpack) .negative
  rw [hneg, isFinite_iff, le_iff, hunpack', unpack_zero]
  exact ⟨rfl, rfl⟩

/-- A rounded product of numbers above zero, if its exponent is fine enough and not too large. -/
theorem finite_pos_mul {m₁ m₂ n : Nat} {e₁ e₂ : Int} {h₁ : 0 < m₁} {h₂ : 0 < m₂}
    (hn : (m₁ * m₂).log2 = n) (hfine : 52 ≤ n) (hlow : -1074 ≤ n + (e₁ + e₂))
    (hhigh : n + (e₁ + e₂) ≤ 1022) {y : Float}
    (hy : y = Float.ofModel (Float.Model.pack (UnpackedFloat.mul Format.binary64
      (.finite .positive m₁ e₁ h₁) (.finite .positive m₂ e₂ h₂)))) :
    isFinite y = true ∧ 0 < y := by
  obtain ⟨m', e', h', hround, hfits, hle⟩ := exists_roundWithAccuracy (Nat.mul_pos h₁ h₂)
    (e := e₁ + e₂) (by omega) (by omega) .positive .exact
  have hmul : UnpackedFloat.mul Format.binary64 (.finite .positive m₁ e₁ h₁)
      (.finite .positive m₂ e₂ h₂) = .finite .positive m' e' h' := hround
  rw [hy, hmul]
  exact finite_pos_pack hfits (by omega)

/-! ## Natural numbers -/

/-- The double of a number that a word holds is finite, and its exponent is that of an integer or
little more. -/
theorem exists_unpack_ofWord {w : UInt64} (hpos : 0 < w.toNat) (hlt : w.toNat < 2 ^ 53) :
    ∃ m e h, w.toFloat.toModel.unpack = .finite .positive m e h ∧ Fits m e ∧ e ≤ 1 := by
  have hlog : w.toNat.log2 < 53 := (Nat.log2_lt hpos.ne').2 hlt
  obtain ⟨m, e, h, hround, hfits, hle⟩ := exists_round hpos (e := 0) (by decide) .positive
  have hdouble : w.toFloat = Float.ofModel (Float.Model.pack (.finite .positive m e h)) := by
    rw [← hround]
    have hnormal : UnpackedFloat.normalize Format.binary64 (w.toNat : Int) 0 .positive
        = UnpackedFloat.round Format.binary64 .positive w.toNat 0 := by
      have hcompare : compare (w.toNat : Int) 0 = .gt := by
        rw [Int.compare_eq_gt]
        omega
      unfold UnpackedFloat.normalize
      rw [hcompare]
      rfl
    exact congrArg (fun u => Float.ofModel (Float.Model.pack u)) hnormal
  obtain ⟨m', e', h', hunpack, hle'⟩ := exists_unpack_pack hfits (by omega) .positive
  rw [← hdouble] at hunpack
  have hpackable := packable_unpack w.toFloat
  rw [hunpack] at hpackable
  exact ⟨m', e', h', hunpack, hpackable, by omega⟩

/-- What is read exactly is multiplied by one. -/
theorem finite_pos_of_lt {n : Nat} (hpos : 0 < n) (hlt : n < 2 ^ 53) :
    isFinite (Float.ofScientific n false 0) = true ∧ 0 < Float.ofScientific n false 0 := by
  have hone : (Float.ofBits 0x3FF0000000000000).toModel.unpack
      = .finite .positive (2 ^ 52) (-52) (by decide) := by rfl
  have hword : n.toUInt64.toNat = n := Nat.mod_eq_of_lt (hlt.trans (by decide))
  -- the number itself is kept, but a bound on its exponent is enough
  obtain ⟨m, e, h, hunpack, hfits, he⟩ :=
    exists_unpack_ofWord (w := n.toUInt64) (by rwa [hword]) (by rwa [hword])
  have hlow := hfits.le
  have hlog := (Nat.log2_lt hfits.pos.ne').2 hfits.lt
  refine @finite_pos_mul m (2 ^ 52) (m.log2 + 52) e (-52) h (by decide) ?_ (by omega) (by omega)
    (by omega) _ ?_
  · rw [← Nat.shiftLeft_eq, log2_shiftLeft h]
  · unfold Float.ofScientific
    rw [dif_pos ⟨hlt, by decide⟩]
    show Float.ofModel (Float.Model.pack (UnpackedFloat.mul _ n.toUInt64.toFloat.toModel.unpack
      (Float.ofBits 0x3FF0000000000000).toModel.unpack)) = _
    rw [hunpack, hone]

/-- What is longer is rounded once. -/
theorem finite_pos_of_ge {n : Nat} (hge : 2 ^ 53 ≤ n) (hlt : n < 2 ^ 1023) :
    isFinite (Float.ofScientific n false 0) = true ∧ 0 < Float.ofScientific n false 0 := by
  have hpos : 0 < n := (Nat.two_pow_pos 53).trans_le hge
  have hlog := (Nat.log2_lt hpos.ne').2 hlt
  have hshift : 0 < n <<< 53 := by
    rw [Nat.shiftLeft_eq]
    exact Nat.mul_pos hpos (by decide)
  refine @finite_pos_mul (n <<< 53) (10 ^ 0) (n.log2 + 53) (-53) 0 hshift (by decide) ?_ (by omega)
    (by omega) (by omega) _ ?_
  · rw [Nat.pow_zero, Nat.mul_one, log2_shiftLeft hpos]
  · have hscale : ¬ (0 : Int) < -(2 ^ Format.binary64.exponentBits + n.log2) := by
      have hbits : ((2 : Int) ^ Format.binary64.exponentBits) = 2048 := by decide
      rw [hbits]
      omega
    unfold Float.ofScientific
    rw [dif_neg (by omega)]
    show Float.ofModel (Float.Model.pack (UnpackedFloat.ofScientific Format.binary64 n 0)) = _
    unfold UnpackedFloat.ofScientific
    rw [dif_neg hpos.ne', if_neg (by decide), if_neg hscale, if_pos (by decide)]
    rfl

/-- The bound itself is rounded as well, and its logarithm is one too large for the lemma above. -/
theorem finite_pos_bound : isFinite (Float.ofScientific (2 ^ 1023) false 0) = true ∧
    0 < Float.ofScientific (2 ^ 1023) false 0 := by
  decide +kernel

theorem finite_pos_ofScientific {n : Nat} (hpos : 0 < n) (hle : n ≤ 2 ^ 1023) :
    isFinite (Float.ofScientific n false 0) = true ∧ 0 < Float.ofScientific n false 0 := by
  obtain heq | hlt := hle.eq_or_lt
  · rw [heq]
    exact finite_pos_bound
  · obtain hshort | hlong := Nat.lt_or_ge n (2 ^ 53)
    · exact finite_pos_of_lt hpos hshort
    · exact finite_pos_of_ge hlong hlt

/-! ## Integers -/

/-- The double of an integer of at most `2 ^ 1023` either way is finite, and above zero if the integer
is. -/
theorem finite_ofInt {n : Int} (hn : n.natAbs ≤ 2 ^ 1023) :
    isFinite (ofInt n) = true ∧ (ofInt n ≤ 0 ↔ n ≤ 0) := by
  obtain hneg | rfl | hpos := Int.lt_trichotomy n 0
  · obtain ⟨hfinite, habove⟩ := finite_pos_ofScientific (n := n.natAbs) (by omega) hn
    have hdouble : ofInt n = -Float.ofScientific n.natAbs false 0 := by
      unfold ofInt ofDecimal
      rw [decide_eq_true hneg]
      rfl
    obtain ⟨hfinite', hbelow⟩ := finite_neg hfinite habove
    rw [hdouble]
    exact ⟨hfinite', iff_of_true hbelow hneg.le⟩
  · decide
  · obtain ⟨hfinite, habove⟩ := finite_pos_ofScientific (n := n.natAbs) (by omega) hn
    have hdouble : ofInt n = Float.ofScientific n.natAbs false 0 := by
      unfold ofInt ofDecimal
      rw [decide_eq_false hpos.not_gt]
      rfl
    rw [hdouble]
    exact ⟨hfinite, iff_of_false ((zero_lt_iff hfinite).1 habove) hpos.not_ge⟩

end Bookkeeping.Number
