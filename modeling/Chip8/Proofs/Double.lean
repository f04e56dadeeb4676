import Chip8.Number.WholePart
import Chip8.TimeScale
import Mathlib

/-!
# Doubles without a minus sign

The time that the cycle driver keeps is cut at a product of doubles.  None of the operations that
make up this product brings in a minus sign, so the product is never below zero.  Nor is a double
that is at least zero, and a finite one has a whole part.
-/

namespace Chip8

open Float.Model

/-- An unpacked double that is no number or has a plus sign. -/
def Unsigned : UnpackedFloat → Prop
  | .notANumber => True
  | .infinity sign | .zero sign | .finite sign _ _ _ => sign = .positive

section

variable {spec : Format} {x y : UnpackedFloat}

/-! ## Operations that bring in no minus sign -/

theorem unsigned_roundWithAccuracy (mantissa : Nat) (exponent : Int)
    (accuracy : UnpackedFloat.Accuracy) :
    Unsigned (.roundWithAccuracy spec .positive mantissa exponent accuracy) := by
  unfold UnpackedFloat.roundWithAccuracy
  dsimp only
  split
  · rfl
  · rfl

theorem unsigned_ofNat (n : Nat) : Unsigned (.ofNat spec n) := by
  unfold UnpackedFloat.ofNat UnpackedFloat.ofInt UnpackedFloat.normalize
  split
  case h_1 hneg => exact absurd (Int.compare_eq_lt.mp hneg) (by omega)
  case h_2 => rfl
  case h_3 => exact unsigned_roundWithAccuracy _ _ _

theorem Unsigned.mul (hx : Unsigned x) (hy : Unsigned y) : Unsigned (.mul spec x y) := by
  cases x with
  | notANumber => trivial
  | infinity sign =>
      cases hx
      cases y with
      | notANumber | zero => trivial
      | infinity | finite =>
          cases hy
          rfl
  | zero sign =>
      cases hx
      cases y with
      | notANumber | infinity => trivial
      | zero | finite =>
          cases hy
          rfl
  | finite sign mantissa exponent hpos =>
      cases hx
      cases y with
      | notANumber => trivial
      | infinity | zero =>
          cases hy
          rfl
      | finite =>
          cases hy
          exact unsigned_roundWithAccuracy _ _ _

theorem unsigned_ofScientific (m e : Nat) : Unsigned (.ofScientific spec m e) := by
  unfold UnpackedFloat.ofScientific
  split
  · rfl
  split
  · rfl
  split
  · rfl
  rw [if_pos (Int.natCast_nonneg e)]
  exact Unsigned.mul rfl rfl

/-! ## Packing -/

theorem unsigned_unpack {b : BitVec spec.numBits}
    (h : UnpackedFloat.Sign.ofBitVec (UnpackedFloat.unpackSign b) = .positive) :
    Unsigned (.unpack spec b) := by
  unfold UnpackedFloat.unpack
  dsimp only
  split
  · split
    · exact h
    · trivial
  · split
    · split
      · exact h
      · exact h
    · exact h

theorem Unsigned.unpack_pack (h : Unsigned x) :
    Unsigned (.unpack spec (UnpackedFloat.pack spec x)) := by
  have hcomponents (e : BitVec spec.exponentBits) (m : BitVec spec.mantissaBitsWithoutImplicit) :
      Unsigned (.unpack spec (UnpackedFloat.packComponents spec .positive e m)) := by
    apply unsigned_unpack
    rw [UnpackedFloat.unpackSign_packComponents, UnpackedFloat.Sign.ofBitVec_toBitVec]
  cases x with
  | notANumber =>
      rw [UnpackedFloat.pack.eq_def, UnpackedFloat.unpack_packedNaN]
      trivial
  | infinity sign =>
      cases h
      exact hcomponents _ _
  | zero sign =>
      cases h
      exact hcomponents _ _
  | finite sign mantissa exponent hpos =>
      cases h
      unfold UnpackedFloat.pack
      dsimp only
      split
      · exact hcomponents _ _
      · split
        · exact hcomponents _ _
        · exact hcomponents _ _

end

/-! ## Comparison with zero -/

theorem float_lt_iff {x y : Float} :
    x < y ↔ x.toModel.unpack.compare y.toModel.unpack = some .lt := by
  change x.lt y = true ↔ _
  rw [Float.lt, decide_eq_true_iff]
  exact beq_iff_eq

theorem float_le_iff {x y : Float} :
    x ≤ y ↔ (x.toModel.unpack.compare y.toModel.unpack).any (·.isLE) = true := by
  change x.le y = true ↔ _
  rw [Float.le, decide_eq_true_iff]
  rfl

theorem unpack_zero : (0.0 : Float).toModel.unpack = .zero .positive := rfl

theorem not_lt_zero_of_unsigned {x : Float} (h : Unsigned x.toModel.unpack) : ¬ x < 0.0 := by
  rw [float_lt_iff, unpack_zero]
  cases hx : x.toModel.unpack with
  | notANumber => simp [UnpackedFloat.compare]
  | infinity | zero | finite =>
      rw [hx] at h
      cases h
      simp [UnpackedFloat.compare]

theorem not_lt_zero_of_le {x : Float} (h : 0.0 ≤ x) : ¬ x < 0.0 := by
  rw [float_le_iff, unpack_zero] at h
  rw [float_lt_iff, unpack_zero]
  cases hx : x.toModel.unpack with
  | notANumber => simp [UnpackedFloat.compare]
  | infinity sign | zero sign | finite sign =>
      rw [hx] at h
      cases sign <;> simp_all [UnpackedFloat.compare]

/-! ## Results -/

open TimeScale

theorem unsigned_natural (n : Nat) : Unsigned (Float.ofScientific n false 0).toModel.unpack := by
  unfold Float.ofScientific
  split
  · have hone : Unsigned Float.exactlyRepresentablePowersOfTen[0].toModel.unpack := by rfl
    exact ((unsigned_ofNat _).unpack_pack.mul hone).unpack_pack
  · exact (unsigned_ofScientific n 0).unpack_pack

theorem periods_not_below {count : Nat} {most : Float} (h : periods count = some most) :
    below most zero = false := by
  have hperiod : Unsigned (1.0 / 60.0 : Float).toModel.unpack := by rfl
  have hproduct : Unsigned (1.0 / 60.0 * Float.ofScientific count false 0).toModel.unpack :=
    (hperiod.mul (unsigned_natural count)).unpack_pack
  change (if leastUnboundedCount ≤ count then none
    else some (1.0 / 60.0 * Float.ofScientific count false 0)) = some most at h
  split at h
  · cases h
  · cases h
    exact decide_eq_false (not_lt_zero_of_unsigned hproduct)

/-! ## Whole parts -/

section

variable {x : Float}

theorem unpackExponent_eq_iff :
    @UnpackedFloat.unpackExponent .binary64 x.toModel.toBits.toBitVec = -1#11 ↔
      x.toBits.toNat / Nat.pow 2 52 % Nat.pow 2 11 = 2047 := by
  rw [← BitVec.toNat_inj, UnpackedFloat.unpackExponent_def, BitVec.extractLsb'_toNat,
    Nat.shiftRight_eq_div_pow]
  exact Iff.rfl

theorem unpackMantissa_eq_iff :
    @UnpackedFloat.unpackMantissa .binary64 x.toModel.toBits.toBitVec = 0#52 ↔
      x.toBits.toNat % Nat.pow 2 52 = 0 := by
  rw [← BitVec.toNat_inj, UnpackedFloat.unpackMantissa_def, BitVec.extractLsb'_toNat,
    Nat.shiftRight_zero]
  exact Iff.rfl

/-- The whole part is read off the same fields as the kind of a double. -/
theorem wholePart_cases :
    (x.isNaN = true → wholePart x = .error .notANumber) ∧
      (x.isInf = true → wholePart x = .error .infinite) ∧
      (x.isFinite = true → ∃ n, wholePart x = .ok n) := by
  have hunpack : x.toModel.unpack =
      UnpackedFloat.unpack .binary64 x.toModel.toBits.toBitVec := rfl
  have hkind : x.isNaN = x.toModel.unpack.isNaN ∧ x.isInf = x.toModel.unpack.isInf ∧
      x.isFinite = x.toModel.unpack.isFinite := ⟨rfl, rfl, rfl⟩
  obtain ⟨hnan, hinf, hfinite⟩ := hkind
  rw [hnan, hinf, hfinite, hunpack, UnpackedFloat.unpack, wholePart]
  dsimp only
  by_cases hfull : @UnpackedFloat.unpackExponent .binary64 x.toModel.toBits.toBitVec = -1#11
  · rw [if_pos hfull, if_pos (unpackExponent_eq_iff.mp hfull)]
    by_cases hzero : @UnpackedFloat.unpackMantissa .binary64 x.toModel.toBits.toBitVec = 0#52
    · rw [if_pos hzero, if_pos (unpackMantissa_eq_iff.mp hzero)]
      exact ⟨nofun, fun _ => rfl, nofun⟩
    · rw [if_neg hzero, if_neg (mt unpackMantissa_eq_iff.mpr hzero)]
      exact ⟨fun _ => rfl, nofun, nofun⟩
  · rw [if_neg hfull, if_neg (mt unpackExponent_eq_iff.mpr hfull)]
    refine ⟨?_, ?_, fun _ => ⟨_, rfl⟩⟩
    · split
      · split <;> exact nofun
      · exact nofun
    · split
      · split <;> exact nofun
      · exact nofun

/-- A finite double has a whole part. -/
theorem exists_wholePart (h : x.isFinite = true) : ∃ n, wholePart x = .ok n := by
  obtain ⟨-, -, hfinite⟩ := wholePart_cases (x := x)
  exact hfinite h

end

end Chip8
