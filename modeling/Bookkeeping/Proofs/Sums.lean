import Mathlib
import Bookkeeping.Proofs.Numbers

/-! # Sums of doubles

A sum is rounded, but never to zero: the least exponent of the summands is no smaller than that of the
smallest double, so a sum that is not zero is at least as large as that one. A zero with a sign is
therefore a sum of such zeros only, and a balance without one, shifted, is again without one.
-/

namespace Bookkeeping.Number

open Float.Model UnpackedFloat

/-! ## Numbers that a double has room for -/

/-- A mantissa and an exponent that fit into a double. -/
structure Fits (m : Nat) (e : Int) : Prop where
  pos : 0 < m
  lt : m < 2 ^ 53
  le : -1074 ≤ e

/-- A number whose mantissa and exponent fit, if it has any. -/
def Packable : UnpackedFloat → Prop
  | .finite _ m e _ => Fits m e
  | _ => True

/-- A number that fits and is not zero has bits of its own. -/
theorem Fits.fields_ne {m : Nat} {e : Int} (h : Fits m e) (s : Sign) :
    (unpackExponent (UnpackedFloat.pack Format.binary64 (.finite s m e h.pos))).toNat ≠ 0 ∨
      (unpackMantissa (UnpackedFloat.pack Format.binary64 (.finite s m e h.pos))).toNat ≠ 0 := by
  have hle := h.le
  unfold UnpackedFloat.pack
  dsimp only
  split
  · -- too large, so infinite
    exact .inl (by simp [packedInfinity])
  · rename_i hsmall
    have hbias : (Format.binary64.exponentBias : Int) = 1023 := by decide
    rw [hbias] at hsmall ⊢
    split
    · left
      rw [unpackExponent_packComponents, BitVec.toNat_ofNat]
      omega
    · rename_i hbits
      have hlog : m.log2 < 52 := by
        have hlt := (Nat.log2_lt h.pos.ne').2 h.lt
        have hmantissa : Format.binary64.mantissaBits = 53 := rfl
        omega
      right
      rw [unpackMantissa_packComponents, BitVec.toNat_ofNat,
        Nat.mod_eq_of_lt ((Nat.log2_lt h.pos.ne').1 hlog)]
      exact h.pos.ne'

/-- The bits of a zero are those of nothing else. -/
theorem eq_zero_of_pack {u : UnpackedFloat} {s : Sign} (hu : Packable u)
    (h : UnpackedFloat.pack Format.binary64 u = packedZero Format.binary64 s) : u = .zero s := by
  cases u with
  | notANumber =>
    have hexponent := congrArg unpackExponent h
    simp [UnpackedFloat.pack, packedNaN, packedZero] at hexponent
  | infinity t =>
    have hexponent := congrArg unpackExponent h
    simp [UnpackedFloat.pack, packedInfinity, packedZero] at hexponent
  | zero t =>
    have hsign := congrArg (fun b => Sign.ofBitVec (unpackSign b)) h
    simpa [UnpackedFloat.pack, packedZero] using hsign
  | finite t m e hm =>
    have hne := Fits.fields_ne hu t
    rw [h, packedZero, unpackExponent_packComponents, unpackMantissa_packComponents] at hne
    simp at hne

theorem packable_unpack (x : Float) : Packable x.toModel.unpack := by
  unfold Float.Model.unpack UnpackedFloat.unpack
  dsimp only
  split
  · split <;> trivial
  · have hbias : (Format.binary64.exponentBias : Int) = 1023 := by decide
    split
    · split
      · trivial
      · rename_i hm
        refine ⟨?_, ?_, ?_⟩
        · simpa [BitVec.toNat_pos, BitVec.pos_iff_ne_zero] using hm
        · exact (BitVec.isLt _).trans (by decide)
        · rw [hbias]
          omega
    · rename_i he
      have hpos : 0 < (@unpackExponent Format.binary64 x.toModel.toBits.toBitVec).toNat := by
        simpa [BitVec.toNat_pos, BitVec.pos_iff_ne_zero] using he
      refine ⟨?_, BitVec.isLt _, ?_⟩
      · rw [BitVec.toNat_append]
        exact Nat.pos_of_ne_zero (by simp)
      · rw [hbias]
        omega

/-! ## Rounding -/

theorem mantissa_shiftRight (em : ExtendedMantissa) (n : Nat) :
    (em >>> n).mantissa = em.mantissa / 2 ^ n := by
  induction n with
  | zero => exact (Nat.div_one _).symm
  | succ n ih =>
    show (em >>> n).mantissa / 2 = _
    rw [ih, Nat.div_div_eq_div_mul, Nat.pow_succ]

theorem mantissa_ofAccuracy (m : Nat) (a : Accuracy) :
    (ExtendedMantissa.ofMantissaAndAccuracy m a).mantissa = m := by
  rcases a with _ | ⟨_ | _ | _⟩ <;> rfl

theorem le_roundedMantissa (em : ExtendedMantissa) : em.mantissa ≤ em.roundedMantissa := by
  obtain ⟨m, round, sticky⟩ := em
  cases round <;> cases sticky <;>
    simp [ExtendedMantissa.roundedMantissa, ExtendedMantissa.accuracy, Accuracy.roundToNearestEven]

theorem roundedMantissa_le (em : ExtendedMantissa) : em.roundedMantissa ≤ em.mantissa + 1 := by
  obtain ⟨m, round, sticky⟩ := em
  cases round <;> cases sticky <;>
    simp [ExtendedMantissa.roundedMantissa, ExtendedMantissa.accuracy, Accuracy.roundToNearestEven]
  omega

theorem targetExponent_eq (m : Nat) (e : Int) :
    Format.binary64.targetExponent (totalExponent m e) = max (m.log2 + 1 + e - 53) (-1074) := rfl

theorem exponent_shift (m : Nat) (e : Int) (a : Accuracy) :
    (shiftToTargetExponent Format.binary64 m e a).2 = max e (max (m.log2 + 1 + e - 53) (-1074)) := by
  unfold shiftToTargetExponent shiftToExponent
  dsimp only
  rw [targetExponent_eq]
  omega

/-- A mantissa is shifted so far that it fits, and never so far that nothing is left. -/
theorem fits_shift {m : Nat} {e : Int} (hm : 0 < m) (he : -1074 ≤ m.log2 + e) (a : Accuracy) :
    Fits (shiftToTargetExponent Format.binary64 m e a).1.mantissa
      (shiftToTargetExponent Format.binary64 m e a).2 := by
  have hlow : 2 ^ m.log2 ≤ m := Nat.log2_self_le hm.ne'
  have hhigh : m < 2 ^ (m.log2 + 1) := Nat.lt_log2_self
  unfold shiftToTargetExponent shiftToExponent
  dsimp only
  rw [mantissa_shiftRight, mantissa_ofAccuracy, targetExponent_eq]
  generalize hn : (max ((m.log2 : Int) + 1 + e - 53) (-1074) - e).toNat = n
  have hkeeps : n ≤ m.log2 := by omega
  have hdrops : m.log2 + 1 ≤ 53 + n := by omega
  refine ⟨?_, ?_, by omega⟩
  · exact Nat.div_pos ((Nat.pow_le_pow_right (by decide) hkeeps).trans hlow) (Nat.two_pow_pos n)
  · rw [Nat.div_lt_iff_lt_mul (Nat.two_pow_pos n), ← Nat.pow_add]
    exact hhigh.trans_le (Nat.pow_le_pow_right (by decide) hdrops)

/-- Rounding what is at least the smallest double, with an exponent that is fine enough, gives a
number that fits, whose exponent is that of the place that is rounded to or the next one. -/
theorem exists_roundWithAccuracy {m : Nat} {e : Int} (hm : 0 < m) (hlow : -1074 ≤ m.log2 + e)
    (hfine : e ≤ max (m.log2 + 1 + e - 53) (-1074)) (s : Sign) (a : Accuracy) :
    ∃ m' e' h, roundWithAccuracy Format.binary64 s m e a = .finite s m' e' h ∧ Fits m' e' ∧
      e' ≤ max (m.log2 + e - 51) (-1073) := by
  have hfirst := fits_shift hm hlow a
  have hexponent := exponent_shift m e a
  rw [max_eq_right hfine] at hexponent
  unfold roundWithAccuracy
  generalize shiftToTargetExponent Format.binary64 m e a = first at hfirst hexponent ⊢
  obtain ⟨em, e₁⟩ := first
  dsimp only at hfirst hexponent ⊢
  have hpos : 0 < em.roundedMantissa := hfirst.pos.trans_le (le_roundedMantissa em)
  have hle : em.roundedMantissa ≤ 2 ^ 53 := (roundedMantissa_le em).trans hfirst.lt
  have hsecond := fits_shift hpos (e := e₁) (by have := hfirst.le; omega) .exact
  have hlast := exponent_shift em.roundedMantissa e₁ .exact
  -- rounding up may give one digit more
  have hlog : em.roundedMantissa.log2 < 54 :=
    (Nat.log2_lt hpos.ne').2 (hle.trans_lt (by decide))
  rw [dif_neg hsecond.pos.ne']
  exact ⟨_, _, _, rfl, hsecond, by omega⟩

theorem log2_shiftLeft {m : Nat} (hm : 0 < m) (n : Nat) : (m <<< n).log2 = m.log2 + n := by
  have hpow : (m <<< n) = m * 2 ^ n := Nat.shiftLeft_eq m n
  rw [hpow, Nat.log2_eq_iff (Nat.mul_pos hm (Nat.two_pow_pos n)).ne', Nat.add_right_comm, Nat.pow_add,
    Nat.pow_add]
  exact ⟨Nat.mul_le_mul_right _ (Nat.log2_self_le hm.ne'),
    Nat.mul_lt_mul_of_pos_right Nat.lt_log2_self (Nat.two_pow_pos n)⟩

/-- Rounding what is not zero, with an exponent of doubles, gives a number that fits. -/
theorem exists_round {m : Nat} {e : Int} (hm : 0 < m) (he : -1074 ≤ e) (s : Sign) :
    ∃ m' e' h, UnpackedFloat.round Format.binary64 s m e = .finite s m' e' h ∧ Fits m' e' ∧
      e' ≤ max (m.log2 + e - 51) (-1073) := by
  unfold UnpackedFloat.round decreaseExponent
  dsimp only
  rw [targetExponent_eq]
  generalize hn : (e - max ((m.log2 : Int) + 1 + e - 53) (-1074)).toNat = n
  have hfine : 0 < m <<< n := by
    rw [Nat.shiftLeft_eq]
    exact Nat.mul_pos hm (Nat.two_pow_pos n)
  have hlog := log2_shiftLeft hm n
  obtain ⟨m', e', h, hround, hfits, hle⟩ :=
    exists_roundWithAccuracy hfine (e := e - n) (by omega) (by omega) s .exact
  exact ⟨m', e', h, hround, hfits, by omega⟩

/-- An exact sum is rounded to a number that fits, and is the zero without a sign if it is none. -/
theorem packable_normalize {m e : Int} (he : -1074 ≤ e) :
    Packable (UnpackedFloat.normalize Format.binary64 m e .positive) ∧
      UnpackedFloat.normalize Format.binary64 m e .positive ≠ .zero .negative := by
  unfold UnpackedFloat.normalize
  split
  · rename_i hm
    have hpos : 0 < (-m).toNat := by
      rw [Int.compare_eq_lt] at hm
      omega
    obtain ⟨m', e', h, hround, hfits, -⟩ := exists_round hpos he .negative
    rw [hround]
    exact ⟨hfits, nofun⟩
  · exact ⟨trivial, nofun⟩
  · rename_i hm
    have hpos : 0 < m.toNat := by
      rw [Int.compare_eq_gt] at hm
      omega
    obtain ⟨m', e', h, hround, hfits, -⟩ := exists_round hpos he .positive
    rw [hround]
    exact ⟨hfits, nofun⟩

/-! ## Adding -/

/-- A sum fits, and is a zero with a sign only if the first summand is. -/
theorem packable_add {a b : UnpackedFloat} (ha : Packable a) (hb : Packable b) :
    Packable (UnpackedFloat.add Format.binary64 a b) ∧
      (UnpackedFloat.add Format.binary64 a b = .zero .negative → a = .zero .negative) := by
  cases a with
  | notANumber => cases b <;> exact ⟨trivial, nofun⟩
  | infinity s =>
    cases b with
    | infinity t => cases s <;> cases t <;> exact ⟨trivial, nofun⟩
    | _ => exact ⟨trivial, nofun⟩
  | zero s =>
    cases b with
    | zero t =>
      cases s with
      | positive => cases t <;> exact ⟨trivial, nofun⟩
      | negative => cases t <;> exact ⟨trivial, fun _ => rfl⟩
    | finite t m e hm => exact ⟨hb, nofun⟩
    | _ => exact ⟨trivial, nofun⟩
  | finite s m e hm =>
    cases b with
    | zero t => exact ⟨ha, nofun⟩
    | finite t n f hn =>
      obtain ⟨hfits, hne⟩ := packable_normalize (le_min (Fits.le ha) (Fits.le hb))
      exact ⟨hfits, fun h => absurd h hne⟩
    | _ => exact ⟨trivial, nofun⟩

/-- A sum is the zero with a sign only if the first summand is. -/
theorem add_ne_neg_zero {x : Float} (hx : x ≠ -0) (y : Float) : x + y ≠ -0 := by
  intro hsum
  obtain ⟨hfits, hzero⟩ := packable_add (packable_unpack x) (packable_unpack y)
  have hbits := congrArg (fun z : Float => z.toBits.toBitVec) hsum
  have hunpack : x.toModel.unpack = .zero .negative := hzero (eq_zero_of_pack hfits hbits)
  refine hx (Float.toBits_inj.1 (UInt64.toBitVec_inj.1 ?_))
  have hpack := congrArg (UnpackedFloat.pack Format.binary64) hunpack
  exact (pack_unpack_of_valid x.toModel.valid).symm.trans hpack

end Bookkeeping.Number

namespace Bookkeeping.Store

open Number

theorem unsigned_unsigned (x : Float) : unsigned (unsigned x) = unsigned x := by
  by_cases h : (x == 0) = true
  · rw [unsigned, unsigned, if_pos h]
    rfl
  · rw [unsigned, unsigned, if_neg h, if_neg h]

/-- A sum is as a column of doubles holds it if the first summand is. -/
theorem unsigned_add {x : Float} (hx : unsigned x = x) (y : Float) :
    unsigned (x + y) = x + y := by
  have hne : x ≠ -0 := by
    rintro rfl
    exact absurd hx (by decide)
  unfold unsigned
  split
  · rename_i hzero
    obtain ⟨-, -, h | ⟨-, h⟩ | ⟨h, -⟩⟩ := Float.beq_iff_ne_nan_and_eq.1 hzero
    · exact h.symm
    · exact absurd h (by decide)
    · exact absurd h (add_ne_neg_zero hne y)
  · rfl

end Bookkeeping.Store
