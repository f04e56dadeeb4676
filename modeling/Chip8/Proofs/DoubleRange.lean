import Chip8.Proofs.DoubleOrder

/-!
# The range of doubles

Rounding leaves a mantissa of at most 53 bits and an exponent that makes up for the bits it
dropped.  Packing overflows when that exponent is above 971.  The product that bounds the pending
time keeps well below this as long as the number of periods has at most a thousand bits.
-/

namespace Chip8

open Float.Model

/-- A finite unpacked double with a mantissa of at most 53 bits and an exponent of at most
`bound`. -/
def Within (bound : Int) : UnpackedFloat → Prop
  | .notANumber | .infinity _ => False
  | .zero _ => True
  | .finite _ mantissa exponent _ => mantissa < 2 ^ 53 ∧ exponent ≤ bound

section

variable {x y : UnpackedFloat} {bound bound' : Int}

theorem Within.mono (h : Within bound x) (hle : bound ≤ bound') : Within bound' x := by
  cases x with
  | notANumber | infinity => exact h.elim
  | zero => trivial
  | finite => exact ⟨h.1, h.2.trans hle⟩

theorem Within.isFinite (h : Within bound x) : x.isFinite = true := by
  cases x with
  | notANumber | infinity => exact h.elim
  | zero | finite => rfl

/-! ## Rounding -/

theorem mantissa_shiftRight (em : UnpackedFloat.ExtendedMantissa) (amount : Nat) :
    (em >>> amount).mantissa = em.mantissa / 2 ^ amount := by
  change (amount.repeat UnpackedFloat.ExtendedMantissa.shiftRightOne em).mantissa = _
  induction amount with
  | zero => simp [Nat.repeat]
  | succ amount ih =>
      rw [Nat.repeat, UnpackedFloat.ExtendedMantissa.shiftRightOne, ih, Nat.div_div_eq_div_mul,
        Nat.pow_succ]

theorem roundedMantissa_le (em : UnpackedFloat.ExtendedMantissa) :
    em.roundedMantissa ≤ em.mantissa + 1 := by
  obtain ⟨mantissa, roundBit, stickyBit⟩ := em
  cases roundBit <;> cases stickyBit <;>
    simp only [UnpackedFloat.ExtendedMantissa.roundedMantissa,
      UnpackedFloat.ExtendedMantissa.accuracy, UnpackedFloat.Accuracy.roundToNearestEven] <;>
    omega

theorem mantissa_ofMantissaAndAccuracy (mantissa : Nat) (accuracy : UnpackedFloat.Accuracy) :
    (UnpackedFloat.ExtendedMantissa.ofMantissaAndAccuracy mantissa accuracy).mantissa =
      mantissa := by
  cases accuracy with
  | exact => rfl
  | inexact order => cases order <;> rfl

/-- The exponent that leaves 53 bits, or that of the subnormal doubles. -/
theorem targetExponent_binary64 (total : Int) :
    Format.binary64.targetExponent total = max (total - 53) (-1074) :=
  rfl

theorem exponent_shift (mantissa : Nat) (exponent : Int) (accuracy : UnpackedFloat.Accuracy) :
    (UnpackedFloat.shiftToTargetExponent .binary64 mantissa exponent accuracy).2 =
      max exponent (max ((mantissa.log2 : Int) + 1 + exponent - 53) (-1074)) := by
  simp only [UnpackedFloat.shiftToTargetExponent, UnpackedFloat.shiftToExponent,
    targetExponent_binary64, totalExponent]
  omega

theorem mantissa_shift_lt (mantissa : Nat) (exponent : Int) (accuracy : UnpackedFloat.Accuracy) :
    (UnpackedFloat.shiftToTargetExponent .binary64 mantissa exponent accuracy).1.mantissa <
      2 ^ 53 := by
  simp only [UnpackedFloat.shiftToTargetExponent, UnpackedFloat.shiftToExponent,
    mantissa_shiftRight, mantissa_ofMantissaAndAccuracy, targetExponent_binary64, totalExponent]
  set amount := (max ((mantissa.log2 : Int) + 1 + exponent - 53) (-1074) - exponent).toNat
  have hamount : mantissa.log2 + 1 ≤ amount + 53 := by omega
  apply Nat.div_lt_of_lt_mul
  calc
    mantissa < 2 ^ (mantissa.log2 + 1) := Nat.lt_log2_self
    _ ≤ 2 ^ (amount + 53) := Nat.pow_le_pow_right (by decide) hamount
    _ = 2 ^ amount * 2 ^ 53 := Nat.pow_add 2 amount 53

theorem log2_lt_of_lt {n bits : Nat} (h : n < 2 ^ bits) (hbits : 0 < bits) : n.log2 < bits := by
  by_cases hzero : n = 0
  · rw [hzero]
    exact hbits
  · exact (Nat.log2_lt hzero).mpr h

/-- Rounding drops the bits of a mantissa that are too many, and may carry into one more. -/
theorem within_roundWithAccuracy
    (bits : Nat) {sign : UnpackedFloat.Sign} {mantissa : Nat} {exponent : Int}
    {accuracy : UnpackedFloat.Accuracy} (hmantissa : mantissa < 2 ^ bits) (hbits : 53 ≤ bits)
    (hexponent : exponent + bits < bound + 53) (hbound : -1074 < bound) :
    Within bound (.roundWithAccuracy .binary64 sign mantissa exponent accuracy) := by
  unfold UnpackedFloat.roundWithAccuracy
  dsimp only
  split
  · trivial
  · refine ⟨mantissa_shift_lt _ _ _, ?_⟩
    have hlog := log2_lt_of_lt hmantissa (by omega)
    have hfirst := exponent_shift mantissa exponent accuracy
    set first := UnpackedFloat.shiftToTargetExponent .binary64 mantissa exponent accuracy
    have hrounded : first.1.roundedMantissa < 2 ^ 54 := by
      have hshifted : first.1.mantissa < 2 ^ 53 := mantissa_shift_lt _ _ _
      have hle := roundedMantissa_le first.1
      omega
    have hlog' := log2_lt_of_lt hrounded (by decide)
    rw [exponent_shift]
    omega

/-! ## Packing -/

theorem within_unpack_packComponents
    {sign : UnpackedFloat.Sign} {biased : Nat} (hbiased : biased + 1 < 2 ^ 11)
    (mantissa : BitVec 52) (hexponent : (biased : Int) ≤ bound + 1075) (hbound : -1074 ≤ bound) :
    Within bound (.unpack .binary64
      (UnpackedFloat.packComponents .binary64 sign (BitVec.ofNat 11 biased) mantissa)) := by
  have hfield : (BitVec.ofNat 11 biased).toNat = biased := by
    rw [BitVec.toNat_ofNat]
    exact Nat.mod_eq_of_lt (by omega)
  have hbias : Format.binary64.exponentBias = 1023 := rfl
  unfold UnpackedFloat.unpack
  dsimp only
  rw [UnpackedFloat.unpackExponent_packComponents, if_neg (ofNat_ne_neg_one hbiased), hfield, hbias]
  split
  next hsubnormal =>
    have hzero : biased = 0 := by
      rw [← hfield, hsubnormal]
      rfl
    split
    · trivial
    · refine ⟨?_, ?_⟩
      · have hlt := (@UnpackedFloat.unpackMantissa .binary64
          (UnpackedFloat.packComponents .binary64 sign (BitVec.ofNat 11 biased) mantissa)).isLt
        exact hlt.trans (by decide)
      · rw [hzero]
        exact hbound
  · refine ⟨BitVec.isLt _, ?_⟩
    push_cast
    omega

/-- Packing a double that is not too large loses at most what it rounds off. -/
theorem Within.unpack_pack (h : Within bound x) (hlow : -1074 ≤ bound) (hhigh : bound ≤ 971) :
    Within bound (.unpack .binary64 (UnpackedFloat.pack .binary64 x)) := by
  cases x with
  | notANumber | infinity => exact h.elim
  | zero sign =>
      rw [UnpackedFloat.pack.eq_def, unpack_packedZero]
      trivial
  | finite sign mantissa exponent hpos =>
      obtain ⟨-, hexponent⟩ := h
      have hbias : Format.binary64.exponentBias = 1023 := rfl
      unfold UnpackedFloat.pack
      dsimp only
      rw [hbias]
      split
      next hoverflows => omega
      · split
        · exact within_unpack_packComponents (by omega) _ (by omega) hlow
        · exact within_unpack_packComponents (by omega) _ (by omega) hlow

theorem Within.mul
    (hx : Within bound x) (hy : Within bound' y) (hbound : -1127 ≤ bound + bound') :
    Within (bound + bound' + 54) (.mul .binary64 x y) := by
  cases x with
  | notANumber | infinity => exact hx.elim
  | zero =>
      cases y with
      | notANumber | infinity => exact hy.elim
      | zero | finite => trivial
  | finite sign mantissa exponent =>
      cases y with
      | notANumber | infinity => exact hy.elim
      | zero => trivial
      | finite sign' mantissa' exponent' =>
          obtain ⟨hmantissa, hexponent⟩ := hx
          obtain ⟨hmantissa', hexponent'⟩ := hy
          have hproduct : mantissa * mantissa' < 2 ^ 106 := by
            calc
              mantissa * mantissa' < 2 ^ 53 * 2 ^ 53 := Nat.mul_lt_mul'' hmantissa hmantissa'
              _ = 2 ^ 106 := by rw [← Nat.pow_add]
          have hround : exponent + exponent' + (106 : Nat) < bound + bound' + 54 + 53 := by omega
          exact within_roundWithAccuracy 106 hproduct (by decide) hround (by omega)

/-! ## Natural numbers -/

theorem within_ofNat {n : Nat} (h : n < 2 ^ 64) : Within 12 (.ofNat .binary64 n) := by
  unfold UnpackedFloat.ofNat UnpackedFloat.ofInt UnpackedFloat.normalize
  split
  case h_1 hneg => exact absurd (Int.compare_eq_lt.mp hneg) (by omega)
  case h_2 => trivial
  case h_3 =>
    unfold UnpackedFloat.round UnpackedFloat.decreaseExponent
    dsimp only
    rw [Int.toNat_natCast, Nat.shiftLeft_eq]
    set amount := (0 - Format.binary64.targetExponent (totalExponent n 0)).toNat
    have hshifted : n * 2 ^ amount < 2 ^ (64 + amount) := by
      rw [Nat.pow_add]
      exact Nat.mul_lt_mul_of_pos_right h (Nat.two_pow_pos amount)
    exact within_roundWithAccuracy (64 + amount) hshifted (by omega) (by omega) (by decide)

/-- A natural number of any length, as the general conversion rounds it. -/
theorem within_ofScientific {n bits : Nat} (h : n < 2 ^ bits) (hbits : bits < bound + 53)
    (hbound : 0 ≤ bound) : Within bound (.ofScientific .binary64 n 0) := by
  unfold UnpackedFloat.ofScientific
  split
  · trivial
  split
  next hhuge => exact absurd hhuge (by decide)
  split
  next htiny => omega
  rw [if_pos le_rfl]
  have hwidth : Format.binary64.mantissaBits = 53 := rfl
  have hshifted : n <<< Format.binary64.mantissaBits * 10 ^ (0 : Int).toNat < 2 ^ (bits + 53) := by
    rw [hwidth, Nat.shiftLeft_eq, Int.toNat_zero, Nat.pow_zero, Nat.mul_one, Nat.pow_add]
    exact Nat.mul_lt_mul_of_pos_right h (Nat.two_pow_pos 53)
  unfold UnpackedFloat.mul
  dsimp only
  refine within_roundWithAccuracy (bits + 53) ?_ ?_ ?_ ?_
  · exact hshifted
  · omega
  · rw [hwidth]
    omega
  · omega

/-- A natural number of not too many bits, as a double. -/
theorem within_natural {n bits : Nat} (h : n < Nat.pow 2 bits) (hbits : bits < bound + 53)
    (hlow : 14 ≤ bound) (hhigh : bound ≤ 971) :
    Within bound (Float.ofScientific n false 0).toModel.unpack := by
  unfold Float.ofScientific
  split
  next hsmall =>
    have hone : Within (-52) Float.exactlyRepresentablePowersOfTen[0].toModel.unpack := by
      exact ⟨by decide, by decide⟩
    have hword := within_ofNat (n := n.toUInt64.toNat) n.toUInt64.toNat_lt
    have hproduct := (hword.unpack_pack (by decide) (by decide)).mul hone (by decide)
    exact (hproduct.unpack_pack (by decide) (by decide)).mono hlow
  next => exact (within_ofScientific h hbits (by omega)).unpack_pack (by omega) hhigh

end

/-! ## Periods -/

theorem isFinite_period : (1.0 / 60.0 : Float).isFinite = true := by rfl

/-- Up to a thousand bits of periods last a finite time, which is not below zero. -/
theorem periods_range {count : Nat} (h : count < Nat.pow 2 1000) :
    (1.0 / 60.0 * Float.ofScientific count false 0).isFinite = true ∧
      0.0 ≤ 1.0 / 60.0 * Float.ofScientific count false 0 := by
  have hperiod : Within (-58) (1.0 / 60.0 : Float).toModel.unpack := by
    exact ⟨by decide, by decide⟩
  have hcount : Within 948 (Float.ofScientific count false 0).toModel.unpack :=
    within_natural h (by decide) (by decide) (by decide)
  have hproduct := (hperiod.mul hcount (by decide)).unpack_pack (by decide) (by decide)
  have hsign : Unsigned (1.0 / 60.0 * Float.ofScientific count false 0).toModel.unpack := by
    have hpositive : Unsigned (1.0 / 60.0 : Float).toModel.unpack := by rfl
    exact (hpositive.mul (unsigned_natural count)).unpack_pack
  have hfinite := hproduct.isFinite
  exact ⟨hfinite, zero_le_iff.mpr (hsign.nonNegative (isNaN_of_isFinite hfinite))⟩

end Chip8
