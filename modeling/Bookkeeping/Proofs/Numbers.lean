import Mathlib.Tactic.Ring
import Bookkeeping.Store.Cell

/-! # Facts about numbers

The bits of a double tell what kind of number it is. A sum with the not-a-number is no number, and
of the finite doubles each is either above zero or not. Integers are the same if their exact forms
are.
-/

namespace Bookkeeping.Number

open Float.Model

variable {x y : Float}

theorem isNaN_of_isFinite (h : isFinite x = true) : isNaN x = false := by
  simp only [isFinite, bne_iff_ne, ne_eq] at h
  simp [isNaN, h]

theorem bits_eq (x : Float) : Binary.bits x = x.toModel.toBits.toBitVec.toNat := rfl

theorem unpackExponent_toNat (x : Float) :
    (@UnpackedFloat.unpackExponent Format.binary64 x.toModel.toBits.toBitVec).toNat
      = Binary.exponentField x := by
  simp [UnpackedFloat.unpackExponent, Binary.exponentField, bits_eq, Nat.shiftRight_eq_div_pow]

theorem unpackMantissa_toNat (x : Float) :
    (@UnpackedFloat.unpackMantissa Format.binary64 x.toModel.toBits.toBitVec).toNat
      = Binary.fractionField x := by
  simp [UnpackedFloat.unpackMantissa, Binary.fractionField, bits_eq]

theorem unpackExponent_eq_last (x : Float) :
    @UnpackedFloat.unpackExponent Format.binary64 x.toModel.toBits.toBitVec = -1#_ ↔
      Binary.exponentField x = 2047 := by
  rw [← unpackExponent_toNat, ← BitVec.toNat_inj]
  rfl

theorem unpackMantissa_eq_zero (x : Float) :
    @UnpackedFloat.unpackMantissa Format.binary64 x.toModel.toBits.toBitVec = 0#_ ↔
      Binary.fractionField x = 0 := by
  rw [← unpackMantissa_toNat, ← BitVec.toNat_inj]
  rfl

/-- The fields of a double and the kind of its model agree. -/
theorem isFinite_iff : isFinite x = true ↔ x.toModel.unpack.isFinite = true := by
  unfold unpack UnpackedFloat.unpack
  by_cases he : Binary.exponentField x = 2047
  · rw [isFinite, if_pos ((unpackExponent_eq_last x).2 he), he]
    split <;> exact iff_of_false nofun nofun
  · have hfinite : (Binary.exponentField x != 2047) = true := bne_iff_ne.2 he
    rw [isFinite, if_neg (mt (unpackExponent_eq_last x).1 he)]
    refine iff_of_true hfinite ?_
    -- zeros and subnormal numbers have the exponent field zero
    by_cases h₀ : @UnpackedFloat.unpackExponent Format.binary64 x.toModel.toBits.toBitVec = 0#_
    · rw [if_pos h₀]
      by_cases hm : @UnpackedFloat.unpackMantissa Format.binary64 x.toModel.toBits.toBitVec = 0#_
      · rw [dif_pos hm]
        rfl
      · rw [dif_neg hm]
        rfl
    · rw [if_neg h₀]
      rfl

theorem unpack_of_isNaN (h : isNaN x = true) : x.toModel.unpack = .notANumber := by
  simp only [isNaN, Bool.and_eq_true, beq_iff_eq, bne_iff_ne, ne_eq] at h
  unfold unpack UnpackedFloat.unpack
  rw [if_pos ((unpackExponent_eq_last x).2 h.1), if_neg (mt (unpackMantissa_eq_zero x).1 h.2)]

/-- A sum with the not-a-number is no finite number. -/
theorem isFinite_add_of_isNaN (x : Float) (h : isNaN y = true) : isFinite (x + y) = false := by
  have hadd (a : UnpackedFloat) : UnpackedFloat.add Format.binary64 a .notANumber = .notANumber := by
    cases a <;> rfl
  have hsum : (x + y) = .ofModel (pack .notANumber) := by
    show Float.ofModel (pack (UnpackedFloat.add _ x.toModel.unpack y.toModel.unpack)) = _
    rw [unpack_of_isNaN h, hadd]
  rw [hsum]
  decide

theorem lt_iff : x < y ↔ x.toModel.unpack.lt y.toModel.unpack = true := decide_eq_true_iff

theorem le_iff : x ≤ y ↔ x.toModel.unpack.le y.toModel.unpack = true := decide_eq_true_iff

theorem unpack_zero : (0 : Float).toModel.unpack = .zero .positive := by rfl

/-- A finite double is above zero unless it is at most zero. -/
theorem zero_lt_iff (h : isFinite x = true) : 0 < x ↔ ¬ x ≤ 0 := by
  have hx := isFinite_iff.1 h
  rw [lt_iff, le_iff, unpack_zero]
  cases hu : x.toModel.unpack with
  | infinity s =>
    rw [hu] at hx
    cases hx
  | notANumber =>
    rw [hu] at hx
    cases hx
  | zero s => exact iff_of_false Bool.false_ne_true (not_not_intro rfl)
  | finite s m e hm =>
    cases s with
    | positive => exact iff_of_true rfl Bool.false_ne_true
    | negative => exact iff_of_false Bool.false_ne_true (not_not_intro rfl)

/-- A double above zero is not one of the zeros. -/
theorem ne_zero_of_pos (h : 0 < x) : (x == 0) = false := by
  rw [lt_iff, unpack_zero] at h
  show UnpackedFloat.beq x.toModel.unpack (0 : Float).toModel.unpack = false
  rw [unpack_zero]
  cases hu : x.toModel.unpack with
  | infinity s => cases s <;> rfl
  | notANumber => rfl
  | zero s =>
    rw [hu] at h
    cases h
  | finite s m e hm => cases s <;> rfl

/-! ## Exact forms -/

namespace Exact

theorem divideOut_eq (p fuel n k : Nat) :
    (divideOut p fuel n k).1 * p ^ (divideOut p fuel n k).2 = n * p ^ k := by
  induction fuel generalizing n k with
  | zero => rfl
  | succ fuel ih =>
    rw [divideOut]
    split
    · rename_i h
      have hdvd : n / p * p = n := by
        simp only [Bool.and_eq_true, beq_iff_eq] at h
        exact Nat.div_mul_cancel (Nat.dvd_of_mod_eq_zero h.1)
      rw [ih, Nat.pow_succ, Nat.mul_comm (p ^ k), ← Nat.mul_assoc, hdvd]
    · rfl

/-- An integer is its core times the powers that were divided out. -/
theorem value_ofInt (n : Int) :
    (ofInt n).core * 2 ^ (ofInt n).twos.toNat * 5 ^ (ofInt n).fives.toNat = n := by
  unfold ofInt of
  by_cases h : n = 0
  · subst h
    rfl
  · have h₂ := divideOut_eq 2 (n.natAbs.log2 + 1) n.natAbs 0
    have h₅ := divideOut_eq 5 ((divideOut 2 (n.natAbs.log2 + 1) n.natAbs 0).1.log2 + 1)
      (divideOut 2 (n.natAbs.log2 + 1) n.natAbs 0).1 0
    simp only [Nat.pow_zero, Nat.mul_one] at h₂ h₅
    rw [if_neg (by simpa using h)]
    simp only [Int.zero_add, Int.toNat_natCast]
    generalize divideOut 2 (n.natAbs.log2 + 1) n.natAbs 0 = x at h₂ h₅ ⊢
    generalize divideOut 5 (x.1.log2 + 1) x.1 0 = y at h₅ ⊢
    have hn : (n.natAbs : Int) = y.1 * 2 ^ x.2 * 5 ^ y.2 := by
      rw [← h₂, ← h₅]
      push_cast
      ring
    split
    · rename_i hneg
      have : n = -(n.natAbs : Int) := by
        have : n < 0 := by simpa using hneg
        omega
      rw [this, hn]
      ring
    · rename_i hneg
      have : n = (n.natAbs : Int) := by
        have : ¬ n < 0 := by simpa using hneg
        omega
      rw [← hn, ← this]

theorem ofInt_injective {m n : Int} (h : ofInt m = ofInt n) : m = n := by
  rw [← value_ofInt m, ← value_ofInt n, h]

end Exact

end Bookkeeping.Number
