import Chip8.Proofs.Double

/-!
# Sums, differences and the order of doubles

A double that is not a number passes through sums, differences and bounds.  Between all others
the order is total, and what is at least zero stays so when it is added up.  Both are facts of
the unpacked doubles that packing does not disturb.
-/

namespace Chip8

open Float.Model

section

variable {spec : Format} {x y : UnpackedFloat}

/-! ## Packing -/

/-- Only the largest exponent field stands for something that is not finite. -/
theorem isFinite_unpack_packComponents
    {sign : UnpackedFloat.Sign} {exponent : BitVec spec.exponentBits}
    {mantissa : BitVec spec.mantissaBitsWithoutImplicit} (hexponent : exponent ≠ -1#_) :
    (UnpackedFloat.unpack spec
      (UnpackedFloat.packComponents spec sign exponent mantissa)).isFinite = true := by
  unfold UnpackedFloat.unpack
  dsimp only
  rw [UnpackedFloat.unpackExponent_packComponents, if_neg hexponent]
  split
  · split <;> rfl
  · rfl

theorem ofNat_ne_neg_one {bits n : Nat} (h : n + 1 < 2 ^ bits) :
    BitVec.ofNat bits n ≠ -1#_ := by
  intro heq
  have hfields := congrArg BitVec.toNat heq
  rw [BitVec.toNat_ofNat, Nat.mod_eq_of_lt (by omega), BitVec.neg_one_eq_allOnes,
    BitVec.toNat_allOnes] at hfields
  omega

theorem zero_ne_neg_one : (0#_ : BitVec spec.exponentBits) ≠ -1#_ := by
  have hpos : 1 < 2 ^ spec.exponentBits := Nat.one_lt_two_pow (Nat.ne_of_gt spec.he)
  exact ofNat_ne_neg_one hpos

theorem unpack_packedInfinity (sign : UnpackedFloat.Sign) :
    UnpackedFloat.unpack spec (UnpackedFloat.packedInfinity spec sign) = .infinity sign := by
  unfold UnpackedFloat.unpack UnpackedFloat.packedInfinity
  dsimp only [BitVec.ofNat_eq_ofNat]
  rw [UnpackedFloat.unpackExponent_packComponents, if_pos rfl,
    UnpackedFloat.unpackMantissa_packComponents, if_pos rfl,
    UnpackedFloat.unpackSign_packComponents, UnpackedFloat.Sign.ofBitVec_toBitVec]

theorem unpack_packedZero (sign : UnpackedFloat.Sign) :
    UnpackedFloat.unpack spec (UnpackedFloat.packedZero spec sign) = .zero sign := by
  unfold UnpackedFloat.unpack UnpackedFloat.packedZero
  dsimp only [BitVec.ofNat_eq_ofNat]
  rw [UnpackedFloat.unpackExponent_packComponents, if_neg zero_ne_neg_one, if_pos rfl,
    dif_pos UnpackedFloat.unpackMantissa_packComponents,
    UnpackedFloat.unpackSign_packComponents, UnpackedFloat.Sign.ofBitVec_toBitVec]

theorem isNaN_of_isFinite (h : x.isFinite = true) : x.isNaN = false := by
  cases x with
  | notANumber => cases h
  | infinity | zero | finite => rfl

/-- Packing makes no number of what is none, and loses no number. -/
theorem isNaN_unpack_pack :
    (UnpackedFloat.unpack spec (UnpackedFloat.pack spec x)).isNaN = x.isNaN := by
  cases x with
  | notANumber => rw [UnpackedFloat.pack.eq_def, UnpackedFloat.unpack_packedNaN]
  | infinity sign => rw [UnpackedFloat.pack.eq_def, unpack_packedInfinity]
  | zero sign => rw [UnpackedFloat.pack.eq_def, unpack_packedZero]
  | finite sign mantissa exponent hpos =>
      unfold UnpackedFloat.pack
      dsimp only
      split
      · rw [unpack_packedInfinity]
        rfl
      next hfits =>
        split
        · exact isNaN_of_isFinite
            (isFinite_unpack_packComponents (ofNat_ne_neg_one (Nat.not_le.mp hfits)))
        · exact isNaN_of_isFinite (isFinite_unpack_packComponents zero_ne_neg_one)

/-! ## At least zero -/

/-- An unpacked double that is at least zero, as both zeros are. -/
def NonNegative : UnpackedFloat → Prop
  | .notANumber => False
  | .zero _ => True
  | .infinity sign | .finite sign _ _ _ => sign = .positive

theorem NonNegative.isNaN (h : NonNegative x) : x.isNaN = false := by
  cases x with
  | notANumber => exact h.elim
  | infinity | zero | finite => rfl

theorem Unsigned.nonNegative (h : Unsigned x) (hnumber : x.isNaN = false) : NonNegative x := by
  cases x with
  | notANumber => cases hnumber
  | zero => trivial
  | infinity | finite => exact h

theorem NonNegative.unpack_pack (h : NonNegative x) :
    NonNegative (.unpack spec (UnpackedFloat.pack spec x)) := by
  have hnumber : (UnpackedFloat.unpack spec (UnpackedFloat.pack spec x)).isNaN = false :=
    isNaN_unpack_pack.trans h.isNaN
  cases x with
  | notANumber => exact h.elim
  | zero sign =>
      rw [UnpackedFloat.pack.eq_def, unpack_packedZero]
      trivial
  | infinity sign =>
      have hunsigned : Unsigned (.infinity sign) := h
      exact hunsigned.unpack_pack.nonNegative hnumber
  | finite sign mantissa exponent hpos =>
      have hunsigned : Unsigned (.finite sign mantissa exponent hpos) := h
      exact hunsigned.unpack_pack.nonNegative hnumber

/-! ## Sums and differences -/

/-- Rounding ends in a zero or in a finite double. -/
theorem isFinite_roundWithAccuracy (sign : UnpackedFloat.Sign) (mantissa : Nat) (exponent : Int)
    (accuracy : UnpackedFloat.Accuracy) :
    (UnpackedFloat.roundWithAccuracy spec sign mantissa exponent accuracy).isFinite = true := by
  unfold UnpackedFloat.roundWithAccuracy
  dsimp only
  split <;> rfl

theorem isFinite_normalize (mantissa exponent : Int) (sign : UnpackedFloat.Sign) :
    (UnpackedFloat.normalize spec mantissa exponent sign).isFinite = true := by
  unfold UnpackedFloat.normalize
  split
  · exact isFinite_roundWithAccuracy _ _ _ _
  · rfl
  · exact isFinite_roundWithAccuracy _ _ _ _

theorem nonNegative_normalize {mantissa exponent : Int} (h : 0 ≤ mantissa) :
    NonNegative (.normalize spec mantissa exponent .positive) := by
  unfold UnpackedFloat.normalize
  split
  case h_1 hneg => exact absurd (Int.compare_eq_lt.mp hneg) (by omega)
  case h_2 => trivial
  case h_3 =>
    exact (unsigned_roundWithAccuracy _ _ _).nonNegative
      (isNaN_of_isFinite (isFinite_roundWithAccuracy _ _ _ _))

theorem isNaN_add_of_left (h : x.isNaN = true) : (UnpackedFloat.add spec x y).isNaN = true := by
  cases x with
  | notANumber => rfl
  | infinity | zero | finite => cases h

theorem isNaN_add_of_right (h : y.isNaN = true) : (UnpackedFloat.add spec x y).isNaN = true := by
  cases y with
  | notANumber => cases x <;> rfl
  | infinity | zero | finite => cases h

theorem NonNegative.add (hx : NonNegative x) (hy : NonNegative y) :
    NonNegative (.add spec x y) := by
  cases x with
  | notANumber => exact hx.elim
  | infinity sign =>
      cases hx
      cases y with
      | notANumber => exact hy.elim
      | infinity =>
          cases hy
          rfl
      | zero | finite => rfl
  | zero sign =>
      cases y with
      | notANumber => exact hy.elim
      | zero sign' => cases sign <;> cases sign' <;> trivial
      | infinity | finite => exact hy
  | finite sign mantissa exponent hpos =>
      cases hx
      cases y with
      | notANumber => exact hy.elim
      | infinity => exact hy
      | zero => rfl
      | finite =>
          cases hy
          exact nonNegative_normalize (Int.natCast_nonneg _)

theorem isNaN_sub_of_left (h : x.isNaN = true) : (UnpackedFloat.sub spec x y).isNaN = true := by
  cases x with
  | notANumber => rfl
  | infinity | zero | finite => cases h

theorem isNaN_sub (hx : x.isNaN = false) (hy : y.isFinite = true) :
    (UnpackedFloat.sub spec x y).isNaN = false := by
  cases x with
  | notANumber => cases hx
  | infinity =>
      cases y with
      | notANumber | infinity => cases hy
      | zero | finite => rfl
  | zero sign =>
      cases y with
      | notANumber | infinity => cases hy
      | zero sign' => cases sign <;> cases sign' <;> rfl
      | finite => rfl
  | finite =>
      cases y with
      | notANumber | infinity => cases hy
      | zero => rfl
      | finite => exact isNaN_of_isFinite (isFinite_normalize _ _ _)

/-! ## The order -/

theorem compare_swap : y.compare x = (x.compare y).map Ordering.swap := by
  have hmagnitudes (e e' : Int) (m m' : Nat) :
      (compare e' e).then (compare m' m) = ((compare e e').then (compare m m')).swap := by
    rw [Ordering.swap_then, ← Std.OrientedOrd.eq_swap, ← Std.OrientedOrd.eq_swap]
  cases x with
  | notANumber => cases y <;> rfl
  | infinity sign =>
      cases y with
      | notANumber => cases sign <;> rfl
      | infinity sign' | zero sign' | finite sign' => cases sign <;> cases sign' <;> rfl
  | zero sign =>
      cases y with
      | notANumber | zero => rfl
      | infinity sign' | finite sign' => cases sign' <;> rfl
  | finite sign mantissa exponent =>
      cases y with
      | notANumber => cases sign <;> rfl
      | infinity sign' => cases sign <;> cases sign' <;> rfl
      | zero => cases sign <;> rfl
      | finite sign' =>
          cases sign <;> cases sign' <;>
            simp only [UnpackedFloat.compare, Option.map_some, hmagnitudes exponent,
              Ordering.swap]

theorem compare_eq_none_iff :
    x.compare y = none ↔ x.isNaN = true ∨ y.isNaN = true := by
  cases x with
  | notANumber => simp [UnpackedFloat.compare, UnpackedFloat.isNaN]
  | infinity sign | zero sign | finite sign =>
      cases y with
      | notANumber => cases sign <;> simp [UnpackedFloat.compare, UnpackedFloat.isNaN]
      | infinity sign' | zero sign' | finite sign' =>
          cases sign <;> cases sign' <;> simp [UnpackedFloat.compare, UnpackedFloat.isNaN]

end

section

variable {a b : Float}

theorem float_not_lt_of_isNaN (h : a.isNaN = true ∨ b.isNaN = true) : ¬ a < b := by
  rw [float_lt_iff, compare_eq_none_iff.mpr h]
  exact nofun

/-- The order of numbers is total. -/
theorem float_le_of_not_lt
    (ha : a.isNaN = false) (hb : b.isNaN = false) (h : ¬ b < a) : a ≤ b := by
  rw [float_lt_iff, compare_swap] at h
  rw [float_le_iff]
  cases hcompare : a.toModel.unpack.compare b.toModel.unpack with
  | none =>
      rcases compare_eq_none_iff.mp hcompare with hnan | hnan
      · exact absurd (hnan.symm.trans ha) (by decide)
      · exact absurd (hnan.symm.trans hb) (by decide)
  | some order =>
      rw [hcompare] at h
      cases order with
      | lt | eq => rfl
      | gt => exact absurd rfl h

theorem float_le_self (h : a.isNaN = false) : a ≤ a := by
  refine float_le_of_not_lt h h fun hless => ?_
  rw [float_lt_iff] at hless
  have hturned := compare_swap (x := a.toModel.unpack) (y := a.toModel.unpack)
  rw [hless] at hturned
  cases hturned

theorem zero_le_iff : 0.0 ≤ a ↔ NonNegative a.toModel.unpack := by
  rw [float_le_iff, unpack_zero]
  cases a.toModel.unpack with
  | notANumber => simp [UnpackedFloat.compare, NonNegative]
  | zero => simp [UnpackedFloat.compare, NonNegative]
  | infinity sign | finite sign =>
      cases sign <;> simp [UnpackedFloat.compare, NonNegative]

theorem isFinite_of_le (hzero : 0.0 ≤ a) (h : a ≤ b) (hb : b.isFinite = true) :
    a.isFinite = true := by
  rw [zero_le_iff] at hzero
  rw [float_le_iff] at h
  change b.toModel.unpack.isFinite = true at hb
  change a.toModel.unpack.isFinite = true
  generalize a.toModel.unpack = x at *
  generalize b.toModel.unpack = y at *
  cases x with
  | notANumber => exact hzero.elim
  | zero | finite => rfl
  | infinity sign =>
      cases hzero
      cases y with
      | notANumber | infinity => cases hb
      | zero | finite => cases h

theorem isNaN_of_zero_le (h : 0.0 ≤ a) : a.isNaN = false :=
  (zero_le_iff.mp h).isNaN

/-! ## Times in doubles -/

theorem isNaN_add (h : a.isNaN = true ∨ b.isNaN = true) : (a + b).isNaN = true := by
  change (UnpackedFloat.unpack .binary64 (UnpackedFloat.pack .binary64
    (.add .binary64 a.toModel.unpack b.toModel.unpack))).isNaN = true
  rw [isNaN_unpack_pack]
  rcases h with h | h
  · exact isNaN_add_of_left h
  · exact isNaN_add_of_right h

theorem zero_le_add (ha : 0.0 ≤ a) (hb : 0.0 ≤ b) : 0.0 ≤ a + b := by
  rw [zero_le_iff] at *
  exact (ha.add hb).unpack_pack

/-- Taking a finite double off keeps a number a number, and nothing else. -/
theorem isNaN_sub_eq (hb : b.isFinite = true) : (a - b).isNaN = a.isNaN := by
  change (UnpackedFloat.unpack .binary64 (UnpackedFloat.pack .binary64
    (.sub .binary64 a.toModel.unpack b.toModel.unpack))).isNaN = a.toModel.unpack.isNaN
  rw [isNaN_unpack_pack]
  cases ha : a.toModel.unpack.isNaN with
  | true => exact isNaN_sub_of_left ha
  | false => exact isNaN_sub ha hb

open TimeScale

theorem below_float : below a b = true ↔ a < b := decide_eq_true_iff

/-- A lower bound does not reach what is no number. -/
theorem isNaN_atLeast (hb : b.isNaN = false) : (atLeast a b).isNaN = a.isNaN := by
  by_cases hless : a < b
  · have ha : a.isNaN = false := by
      by_contra hnan
      exact float_not_lt_of_isNaN (Or.inl (by simpa using hnan)) hless
    rw [atLeast, if_pos (below_float.mpr hless), hb, ha]
  · rw [atLeast, if_neg (below_float.not.mpr hless)]

theorem zero_le_atLeast (ha : a.isNaN = false) : 0.0 ≤ atLeast a 0.0 := by
  by_cases hless : a < 0.0
  · rw [atLeast, if_pos (below_float.mpr hless)]
    exact zero_le_iff.mpr trivial
  · rw [atLeast, if_neg (below_float.not.mpr hless)]
    exact float_le_of_not_lt rfl ha hless

/-- An upper bound does not reach what is no number either. -/
theorem atMost_of_isNaN (ha : a.isNaN = true) : atMost a b = a := by
  have hnot : ¬ b < a := float_not_lt_of_isNaN (Or.inr ha)
  rw [atMost, if_neg (below_float.not.mpr hnot)]

theorem atMost_range (ha : 0.0 ≤ a) (hb : 0.0 ≤ b) : 0.0 ≤ atMost a b ∧ atMost a b ≤ b := by
  by_cases hless : b < a
  · rw [atMost, if_pos (below_float.mpr hless)]
    exact ⟨hb, float_le_self (isNaN_of_zero_le hb)⟩
  · rw [atMost, if_neg (below_float.not.mpr hless)]
    exact ⟨ha, float_le_of_not_lt (isNaN_of_zero_le ha) (isNaN_of_zero_le hb) hless⟩

end

end Chip8
