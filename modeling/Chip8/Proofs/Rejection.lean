import Chip8.Proofs.Twister
import Mathlib.Algebra.Field.ZMod
import Mathlib.Algebra.Module.ZMod
import Mathlib.Data.FinEnum
import Mathlib.Data.Nat.Bitwise
import Mathlib.Data.Nat.Count
import Mathlib.LinearAlgebra.Eigenspace.Charpoly

/-!
# Rejection of outputs

A random byte is drawn from the first output whose top bit is clear.  The tails of the sequences
behind the generator form a vector space over the field of two elements, with at most 2 ^ 19937
elements, and leaving out the first word of a tail is a linear map of it that moves every tail but
the zero.  So by the theorem of Cayley and Hamilton the top bit cannot stay set in 19938 outputs.
This is how many are tried, so the trials always suffice.
-/

/-- Under a linear map that moves every vector but zero, a functional cannot be one at more
consecutive iterates than there are dimensions. -/
theorem Module.End.exists_apply_pow_ne_one
    {K V : Type*} [Field K] [AddCommGroup V] [Module K V] [Module.Finite K V]
    {f : Module.End K V} (hf : ∀ v, f v = v → v = 0) (ℓ : V →ₗ[K] K) (v : V) :
    ∃ n ≤ Module.finrank K V, ℓ ((f ^ n) v) ≠ 1 := by
  by_contra! hall
  have hsum : ∑ n ∈ Finset.range (f.charpoly.natDegree + 1), f.charpoly.coeff n = 0 := by
    have hzero : ℓ (Polynomial.aeval f f.charpoly v) = 0 := by
      rw [LinearMap.aeval_self_charpoly, LinearMap.zero_apply, map_zero]
    rw [Polynomial.aeval_eq_sum_range, LinearMap.sum_apply, map_sum] at hzero
    rw [← hzero]
    apply Finset.sum_congr rfl
    intro n hn
    have hle : n ≤ Module.finrank K V := by
      rw [← f.charpoly_natDegree]
      exact Nat.lt_succ_iff.mp (Finset.mem_range.mp hn)
    rw [LinearMap.smul_apply, map_smul, hall n hle, smul_eq_mul, mul_one]
  have hroot : f.charpoly.IsRoot 1 := by
    rw [Polynomial.IsRoot, Polynomial.eval_eq_sum_range]
    simpa using hsum
  obtain ⟨w, hw⟩ := (f.hasEigenvalue_iff_isRoot_charpoly 1).mpr hroot |>.exists_hasEigenvector
  have hfixed : f w = w := by rw [hw.apply_eq_smul, one_smul]
  exact hw.2 (hf w hfixed)

namespace Chip8

namespace RandomSource

/-! ## Exclusive or -/

theorem xor_and (a b mask : UInt32) : (a ^^^ b) &&& mask = (a &&& mask) ^^^ (b &&& mask) := by
  apply UInt32.toBitVec_inj.mp
  ext i
  simp [Bool.and_xor_distrib_right]

/-- A function of words that respects the exclusive or. -/
def Additive (f : UInt32 → UInt32) : Prop :=
  ∀ a b, f (a ^^^ b) = f a ^^^ f b

namespace Additive

variable {f g : UInt32 → UInt32}

theorem comp (hf : Additive f) (hg : Additive g) : Additive fun a => f (g a) := by
  intro a b
  dsimp only
  rw [hg, hf]

theorem mix (hf : Additive f) : Additive fun a => a ^^^ f a := by
  intro a b
  dsimp only
  rw [hf]
  ac_rfl

theorem shiftRight (count : UInt32) : Additive fun a => a >>> count :=
  fun _ _ => UInt32.shiftRight_xor

theorem shiftLeft (count : UInt32) : Additive fun a => a <<< count :=
  fun _ _ => UInt32.shiftLeft_xor

theorem and (mask : UInt32) : Additive fun a => a &&& mask :=
  fun a b => xor_and a b mask

end Additive

theorem additive_temper : Additive temper :=
  (Additive.shiftRight 18).mix.comp <|
    ((Additive.and 0xEFC60000).comp (Additive.shiftLeft 15)).mix.comp <|
      ((Additive.and 0x9D2C5680).comp (Additive.shiftLeft 7)).mix.comp <|
        (Additive.shiftRight 11).mix

/-- Words without a common bit are joined by the exclusive or. -/
theorem or_eq_xor {a b : UInt32} (h : a &&& b = 0) : a ||| b = a ^^^ b := by
  apply UInt32.toBitVec_inj.mp
  apply BitVec.eq_of_getLsbD_eq
  intro i hi
  have hbit : (a &&& b).toBitVec.getLsbD i = (0 : UInt32).toBitVec.getLsbD i := by rw [h]
  rw [UInt32.toBitVec_or, UInt32.toBitVec_xor, BitVec.getLsbD_or, BitVec.getLsbD_xor]
  rw [UInt32.toBitVec_and, BitVec.getLsbD_and, UInt32.toBitVec_zero, BitVec.getLsbD_zero] at hbit
  revert hbit
  cases a.toBitVec.getLsbD i <;> cases b.toBitVec.getLsbD i <;> simp

/-- A mask of one bit leaves that bit or nothing. -/
theorem and_bit (a mask : UInt32) {i : Nat} (hmask : mask.toNat = 2 ^ i) :
    a &&& mask = 0 ∨ a &&& mask = mask := by
  have hbit : (a &&& mask).toNat = (a.toNat.testBit i).toNat * mask.toNat := by
    rw [UInt32.toNat_and, hmask, Nat.and_two_pow]
  cases htest : a.toNat.testBit i with
  | false =>
      left
      apply UInt32.toNat_inj.mp
      rw [hbit, htest, Bool.toNat_false, Nat.zero_mul]
      rfl
  | true =>
      right
      apply UInt32.toNat_inj.mp
      rw [hbit, htest, Bool.toNat_true, Nat.one_mul]

theorem and_one (a : UInt32) : a &&& 1 = 0 ∨ a &&& 1 = 1 :=
  and_bit a 1 (i := 0) rfl

/-- The top bit of one word with the others of another. -/
def joined (word next : UInt32) : UInt32 :=
  (word &&& 0x80000000) ||| (next &&& 0x7FFFFFFF)

theorem joined_eq_xor (word next : UInt32) :
    joined word next = (word &&& 0x80000000) ^^^ (next &&& 0x7FFFFFFF) := by
  apply or_eq_xor
  calc
    (word &&& 0x80000000) &&& (next &&& 0x7FFFFFFF) =
        (word &&& next) &&& (0x80000000 &&& 0x7FFFFFFF) := by ac_rfl
    _ = (word &&& next) &&& 0 := by rw [show (0x80000000 &&& 0x7FFFFFFF : UInt32) = 0 by decide]
    _ = 0 := UInt32.and_zero

theorem joined_xor (a b c d : UInt32) :
    joined (a ^^^ b) (c ^^^ d) = joined a c ^^^ joined b d := by
  rw [joined_eq_xor, joined_eq_xor, joined_eq_xor, xor_and a b, xor_and c d]
  ac_rfl

/-- The word that a lowest bit adds to the one shifted out of it. -/
def reduction (word : UInt32) : UInt32 :=
  if word &&& 1 = 0 then 0 else 0x9908B0DF

theorem additive_reduction : Additive reduction := by
  intro a b
  have hlow := xor_and a b 1
  rcases and_one a with ha | ha <;> rcases and_one b with hb | hb <;>
    simp [reduction, hlow, ha, hb]

theorem twisted_eq (word next : UInt32) :
    twisted word next = (joined word next >>> 1) ^^^ reduction (joined word next) := rfl

theorem twisted_xor (a b c d : UInt32) :
    twisted (a ^^^ b) (c ^^^ d) = twisted a c ^^^ twisted b d := by
  rw [twisted_eq, twisted_eq, twisted_eq, joined_xor, UInt32.shiftRight_xor, additive_reduction]
  ac_rfl

/-! ## Tails of sequences -/

theorem twists_zero : Twists fun _ => 0 := by
  intro n
  have hzero : (0 : UInt32) = 0 ^^^ twisted 0 0 := by decide
  exact hzero

theorem Twists.xor {x y : Nat → UInt32} (hx : Twists x) (hy : Twists y) :
    Twists fun n => x n ^^^ y n := by
  intro n
  dsimp only
  rw [hx, hy, twisted_xor]
  ac_rfl

/-- What a word that is not there would have to add to the last word of the first window. -/
def entry (x : Nat → UInt32) : UInt32 :=
  x (size - 1) ^^^ x (offset - 1) ^^^ twisted 0 (x 0)

theorem entry_xor (x y : Nat → UInt32) : entry (fun n => x n ^^^ y n) = entry x ^^^ entry y := by
  have htwisted := twisted_xor 0 0 (x 0) (y 0)
  rw [UInt32.xor_self] at htwisted
  simp only [entry, htwisted]
  ac_rfl

/-- Of the word before a tail only the top bit enters it. -/
theorem twisted_zero_right (word : UInt32) :
    twisted word 0 = 0 ∨ twisted word 0 = 0x40000000 := by
  have hjoined : joined word 0 = word &&& 0x80000000 := by
    rw [joined_eq_xor, UInt32.zero_and, UInt32.xor_zero]
  rw [twisted_eq, hjoined]
  rcases and_bit word 0x80000000 (i := 31) rfl with htop | htop
  · left
    rw [htop]
    decide
  · right
    rw [htop]
    decide

/-- A sequence that follows the recurrence, and did so with a word before its first. -/
@[ext] structure Tail where
  word : Nat → UInt32
  twists : Twists word
  entry_eq : entry word = 0 ∨ entry word = 0x40000000

namespace Tail

variable (s t : Tail)

/-- What follows a word of a sequence is a tail. -/
def ofTwists {x : Nat → UInt32} (hx : Twists x) (n : Nat) : Tail where
  word k := x (n + 1 + k)
  twists k := by
    have hk := hx (n + 1 + k)
    simpa only [Nat.add_assoc] using hk
  entry_eq := by
    have hlast : n + 1 + (size - 1) = n + size := by
      simp only [size]
    have hahead : n + 1 + (offset - 1) = n + offset := by
      simp only [offset]
    have htwisted := twisted_xor (x n) 0 0 (x (n + 1))
    rw [UInt32.xor_zero, UInt32.zero_xor] at htwisted
    have hbefore : entry (fun k => x (n + 1 + k)) = twisted (x n) 0 := by
      calc
        entry (fun k => x (n + 1 + k)) =
            x (n + size) ^^^ x (n + offset) ^^^ twisted 0 (x (n + 1)) := by
          rw [entry, hlast, hahead, Nat.add_zero]
        _ = (x (n + offset) ^^^ x (n + offset)) ^^^
              (twisted 0 (x (n + 1)) ^^^ twisted 0 (x (n + 1))) ^^^ twisted (x n) 0 := by
          rw [hx n, htwisted]
          ac_rfl
        _ = twisted (x n) 0 := by
          rw [UInt32.xor_self, UInt32.xor_self, UInt32.xor_zero, UInt32.zero_xor]
    rw [hbefore]
    exact twisted_zero_right _

instance : Zero Tail where
  zero :=
    { word := fun _ => 0
      twists := twists_zero
      entry_eq := Or.inl (by decide) }

instance : Add Tail where
  add s t :=
    { word := fun n => s.word n ^^^ t.word n
      twists := s.twists.xor t.twists
      entry_eq := by
        rw [entry_xor]
        rcases s.entry_eq with hs | hs <;> rcases t.entry_eq with ht | ht <;> rw [hs, ht] <;>
          decide }

instance : Neg Tail where
  neg t := t

@[simp] theorem word_zero (n : Nat) : (0 : Tail).word n = 0 := rfl

@[simp] theorem word_add (n : Nat) : (s + t).word n = s.word n ^^^ t.word n := rfl

theorem add_self : t + t = 0 := by
  ext n
  rw [word_add, UInt32.xor_self, word_zero]

instance : AddCommGroup Tail where
  add_assoc r s t := by
    ext n
    simp only [word_add, UInt32.xor_assoc]
  zero_add t := by
    ext n
    simp only [word_add, word_zero, UInt32.zero_xor]
  add_zero t := by
    ext n
    simp only [word_add, word_zero, UInt32.xor_zero]
  add_comm s t := by
    ext n
    simp only [word_add, UInt32.xor_comm]
  neg_add_cancel t := add_self t
  nsmul := nsmulRec
  zsmul := zsmulRec

/-- Tails form a vector space over the field of two elements. -/
instance : Module (ZMod 2) Tail :=
  AddCommGroup.zmodModule fun t => by rw [two_nsmul, add_self]

def shift : Tail →+ Tail where
  toFun t := .ofTwists t.twists 0
  map_zero' := by
    ext n
    rfl
  map_add' s t := by
    ext n
    rfl

theorem word_shift (n : Nat) : (shift t).word n = t.word (0 + 1 + n) := rfl

theorem word_iterate_shift (n k : Nat) : ((shift^[n]) t).word k = t.word (n + k) := by
  induction n generalizing t with
  | zero => rw [Function.iterate_zero, id, Nat.zero_add]
  | succ n ih =>
      rw [Function.iterate_succ_apply, ih, word_shift]
      congr 1
      omega

/-! ## No tail but zero stays the same -/

theorem joined_self (word : UInt32) : joined word word = word := by
  calc
    joined word word = (0x80000000 &&& word) ^^^ (0x7FFFFFFF &&& word) := by
      rw [joined_eq_xor, UInt32.and_comm word, UInt32.and_comm word]
    _ = (0x80000000 ^^^ 0x7FFFFFFF) &&& word := (xor_and _ _ _).symm
    _ = -1 &&& word := by rw [show (0x80000000 ^^^ 0x7FFFFFFF : UInt32) = -1 by decide]
    _ = word := UInt32.neg_one_and

/-- No word but zero replaces itself: shifted it would be zero or have its top bit set. -/
theorem eq_zero_of_twisted_self {word : UInt32} (h : twisted word word = 0) : word = 0 := by
  rw [twisted_eq, joined_self, UInt32.xor_eq_zero_iff] at h
  have hshifted : word.toNat / 2 = (reduction word).toNat := by
    rw [← h, UInt32.toNat_shiftRight]
    exact (Nat.shiftRight_one _).symm
  have hlow : (word &&& 1).toNat = word.toNat % 2 := by
    rw [UInt32.toNat_and]
    exact Nat.and_one_is_mod _
  have hlt := word.toNat_lt
  apply UInt32.toNat_inj.mp
  rcases and_one word with heven | hodd
  · have hnone : (reduction word).toNat = 0 := by
      rw [reduction, if_pos heven]
      rfl
    have hzero : word.toNat % 2 = 0 := by
      rw [← hlow, heven]
      rfl
    rw [UInt32.toNat_zero]
    omega
  · have hsome : (reduction word).toNat = 0x9908B0DF := by
      rw [reduction, hodd]
      rfl
    omega

theorem eq_zero_of_shift_eq {t : Tail} (h : shift t = t) : t = 0 := by
  have hsame (n : Nat) : t.word n = t.word 0 := by
    induction n with
    | zero => rfl
    | succ n ih =>
        calc
          t.word (n + 1) = (shift t).word n := by rw [word_shift, Nat.zero_add, Nat.add_comm]
          _ = t.word 0 := by rw [h, ih]
  have htwists := t.twists 0
  rw [hsame, hsame (0 + offset), hsame (0 + 1)] at htwists
  have hzero : t.word 0 = 0 := by
    apply eq_zero_of_twisted_self
    rw [← UInt32.xor_right_inj (t.word 0), ← htwists, UInt32.xor_zero]
  ext n
  rw [hsame, hzero, word_zero]

/-! ## The dimension -/

/-- The first words of a tail and its entry determine it. -/
theorem ext_of_entry
    {s t : Tail} (hfirst : ∀ n < size - 1, s.word n = t.word n)
    (hentry : entry s.word = entry t.word) : s = t := by
  have hlast : s.word (size - 1) = t.word (size - 1) := by
    rw [entry, entry, hfirst 0 (by decide), hfirst (offset - 1) (by decide),
      UInt32.xor_left_inj, UInt32.xor_left_inj] at hentry
    exact hentry
  apply Tail.ext
  funext n
  induction n using Nat.strong_induction_on with
  | _ n ih =>
      rcases Nat.lt_trichotomy n (size - 1) with hlt | rfl | hgt
      · exact hfirst n hlt
      · exact hlast
      · obtain ⟨m, rfl⟩ : ∃ m, n = m + size := by
          refine ⟨n - size, ?_⟩
          simp only [size] at hgt ⊢
          omega
        rw [s.twists, t.twists, ih m (by simp [size]), ih (m + 1) (by simp [size]),
          ih (m + offset) (by simp [size, offset])]

/-- The first words of a tail, and whether its entry is zero. -/
def code (t : Tail) : (Fin (size - 1) → UInt32) × Bool :=
  (fun n => t.word n, entry t.word = 0)

theorem code_injective : Function.Injective code := by
  intro s t hcode
  obtain ⟨hfirst, hentry⟩ := Prod.mk.inj hcode
  apply ext_of_entry
  · intro n hn
    exact congrFun hfirst ⟨n, hn⟩
  · have hiff : entry s.word = 0 ↔ entry t.word = 0 := decide_eq_decide.mp hentry
    rcases s.entry_eq with hs | hs <;> rcases t.entry_eq with ht | ht
    · rw [hs, ht]
    · exact hs.trans (hiff.mp hs).symm
    · exact (hiff.mpr ht).trans ht.symm
    · rw [hs, ht]

instance : Finite Tail :=
  Finite.of_injective code code_injective

/-- The number of bits that determine a tail. -/
def degree : Nat := 32 * (size - 1) + 1

theorem card_le : Nat.card Tail ≤ 2 ^ degree := by
  have hwords : Nat.card UInt32 = 2 ^ 32 := by
    rw [Nat.card_eq_fintype_card, ← FinEnum.card_eq_fintypeCard, FinEnum.card_UInt32]
  have hplaces : Nat.card (Fin (size - 1)) = size - 1 := Nat.card_fin _
  have hbits : Nat.card Bool = 2 := Nat.card_eq_fintype_card
  calc
    Nat.card Tail ≤ Nat.card ((Fin (size - 1) → UInt32) × Bool) :=
      Nat.card_le_card_of_injective code code_injective
    _ = (2 ^ 32) ^ (size - 1) * 2 := by
      rw [Nat.card_prod, Nat.card_fun, hwords, hplaces, hbits]
    _ = 2 ^ degree := by rw [← pow_mul, ← pow_succ, degree]

theorem finrank_le : Module.finrank (ZMod 2) Tail ≤ degree := by
  have hcard : Nat.card Tail = 2 ^ Module.finrank (ZMod 2) Tail := by
    rw [Module.natCard_eq_pow_finrank (K := ZMod 2), Nat.card_zmod]
  have hle := card_le
  rw [hcard] at hle
  exact (Nat.pow_le_pow_iff_right (by decide)).mp hle

end Tail

/-! ## Runs of set bits -/

def topBit (word : UInt32) : ZMod 2 :=
  if word &&& 0x80000000 = 0 then 0 else 1

theorem topBit_xor (a b : UInt32) : topBit (a ^^^ b) = topBit a + topBit b := by
  rcases and_bit a 0x80000000 (i := 31) rfl with ha | ha <;>
    rcases and_bit b 0x80000000 (i := 31) rfl with hb | hb <;>
      simp only [topBit, xor_and, ha, hb] <;>
        decide

/-- The top bit of the output that a tail begins with. -/
def Tail.topBit : Tail →+ ZMod 2 where
  toFun t := RandomSource.topBit (temper (t.word 0))
  map_zero' := by decide
  map_add' s t := by
    rw [Tail.word_add, additive_temper, topBit_xor]

/-- An output that a random byte is made from. -/
def Accepted (word : UInt32) : Prop :=
  word >>> 23 < 256

instance (word : UInt32) : Decidable (Accepted word) :=
  inferInstanceAs (Decidable (_ < _))

theorem accepted_of_topBit {word : UInt32} (h : topBit word ≠ 1) : Accepted word := by
  have hclear : word &&& 0x80000000 = 0 := by
    by_contra hset
    exact h (if_neg hset)
  have htest : word.toNat.testBit 31 = false := by
    have hbit := congrArg UInt32.toNat hclear
    rw [UInt32.toNat_and, show (0x80000000 : UInt32).toNat = 2 ^ 31 from rfl,
      Nat.and_two_pow] at hbit
    cases htest : word.toNat.testBit 31 with
    | false => rfl
    | true =>
        rw [htest] at hbit
        cases hbit
  have hlt := word.toNat_lt
  have hshift : (word >>> 23).toNat = word.toNat / 2 ^ 23 := by
    rw [UInt32.toNat_shiftRight]
    exact Nat.shiftRight_eq_div_pow _ _
  rw [Nat.testBit_eq_decide_div_mod_eq, decide_eq_false_iff_not] at htest
  rw [Accepted, UInt32.lt_iff_toNat_lt, hshift]
  change word.toNat / 2 ^ 23 < 256
  omega

/-- Of as many consecutive outputs as are tried for a byte, one is accepted. -/
theorem exists_accepted {x : Nat → UInt32} (hx : Twists x) {place : Nat} (hplace : 0 < place) :
    ∃ n < 19938, Accepted (temper (x (place + n))) := by
  obtain ⟨before, rfl⟩ := Nat.exists_eq_succ_of_ne_zero hplace.ne'
  obtain ⟨n, hn, htop⟩ := Module.End.exists_apply_pow_ne_one
    (f := Tail.shift.toZModLinearMap 2) (fun _ => Tail.eq_zero_of_shift_eq)
    (Tail.topBit.toZModLinearMap 2) (Tail.ofTwists hx before)
  refine ⟨n, ?_, ?_⟩
  · have hdegree : Tail.degree = 19937 := rfl
    have hle := hn.trans Tail.finrank_le
    omega
  · apply accepted_of_topBit
    have hword : ((Tail.shift.toZModLinearMap 2 ^ n) (Tail.ofTwists hx before)).word 0 =
        x (before + 1 + n) := by
      rw [Module.End.pow_apply]
      exact Tail.word_iterate_shift _ n 0
    rw [← hword]
    exact htop

/-! ## Random bytes -/

/-- The byte in the top bits of an output. -/
def topByte (word : UInt32) : UInt8 :=
  (word >>> 23).toUInt8

/-- Outputs are passed over until one is accepted. -/
theorem nextByteWithin_of_accepted
    {attempts n : Nat} {source : RandomSource} (hn : n < attempts)
    (hrejected : ∀ m < n, ¬ Accepted (source.output m)) (haccepted : Accepted (source.output n)) :
    nextByteWithin attempts source = (topByte (source.output n), source.skip (n + 1)) := by
  induction attempts generalizing n source with
  | zero => exact absurd hn (Nat.not_lt_zero n)
  | succ attempts ih =>
      have htries : nextByteWithin (attempts + 1) source =
          if Accepted (source.output 0) then (topByte (source.output 0), source.skip 1)
          else nextByteWithin attempts (source.skip 1) := rfl
      rw [htries]
      cases n with
      | zero => rw [if_pos haccepted]
      | succ n =>
          have hshift (m : Nat) : (source.skip 1).output m = source.output (m + 1) := by
            rw [output_skip, Nat.add_comm]
          rw [if_neg (hrejected 0 (Nat.succ_pos n)), ih (Nat.lt_of_succ_lt_succ hn), hshift,
            ← skip_add, Nat.add_comm 1]
          · intro m hm
            rw [hshift]
            exact hrejected (m + 1) (Nat.succ_lt_succ hm)
          · rwa [hshift]

/-- The number of outputs before a place that are accepted. -/
def acceptedBefore (source : RandomSource) (n : Nat) : Nat :=
  Nat.count (fun m => Accepted (source.output m)) n

/-- A byte is the one that is drawn after `n` others, as the rejection of outputs has it: it is
made from an accepted output that comes after `n` others. -/
def Draws (source : RandomSource) (n : Nat) (byte : UInt8) : Prop :=
  ∃ m, Accepted (source.output m) ∧ source.acceptedBefore m = n ∧
    byte = topByte (source.output m)

section

variable {x : Nat → UInt32} {place : Nat} {source : RandomSource} (hx : Twists x)
  (h : At x place source) (hplace : 0 < place)

include hx h hplace

/-- Drawing a byte uses the outputs up to the next one that is accepted. -/
theorem nextByte_skip (m : Nat) :
    ∃ n, (source.skip m).nextByte = (topByte (source.output n), source.skip (n + 1)) ∧
      Accepted (source.output n) ∧ source.acceptedBefore n = source.acceptedBefore m := by
  have hexists : ∃ k, Accepted ((source.skip m).output k) ∧ k < 19938 := by
    obtain ⟨k, hk, haccepted⟩ := exists_accepted hx (Nat.add_pos_left hplace m)
    refine ⟨k, ?_, hk⟩
    rwa [(h.skip hx m).output hx]
  let k := Nat.find hexists
  obtain ⟨haccepted, hk⟩ : Accepted ((source.skip m).output k) ∧ k < 19938 :=
    Nat.find_spec hexists
  have hrejected (j : Nat) (hj : j < k) : ¬ Accepted ((source.skip m).output j) :=
    fun hearlier => Nat.find_min hexists hj ⟨hearlier, hj.trans hk⟩
  refine ⟨m + k, ?_, ?_, ?_⟩
  · have hbyte := nextByteWithin_of_accepted hk hrejected haccepted
    rwa [output_skip, ← skip_add, ← Nat.add_assoc] at hbyte
  · rwa [← output_skip]
  · have hnone : Nat.count (fun j => Accepted (source.output (m + j))) k = 0 := by
      apply Nat.count_of_forall_not
      intro j hj
      rw [← output_skip]
      exact hrejected j hj
    rw [acceptedBefore, Nat.count_add, hnone, Nat.add_zero]
    rfl

/-- The bytes of a source come from the outputs that are accepted, one after the other. -/
theorem draws_byteAt (n : Nat) : source.Draws n (source.byteAt n) := by
  have hafter (n : Nat) :
      ∃ m, source.acceptedBefore m = n ∧ source.after n = source.skip m := by
    induction n with
    | zero => exact ⟨0, rfl, rfl⟩
    | succ n ih =>
        obtain ⟨m, hm, hsource⟩ := ih
        obtain ⟨k, hbyte, haccepted, hcount⟩ := nextByte_skip hx h hplace m
        refine ⟨k + 1, ?_, ?_⟩
        · rw [acceptedBefore, Nat.count_succ, if_pos haccepted, ← hm, ← hcount]
          rfl
        · rw [after, hsource, hbyte]
  obtain ⟨m, hm, hsource⟩ := hafter n
  obtain ⟨k, hbyte, haccepted, hcount⟩ := nextByte_skip hx h hplace m
  refine ⟨k, haccepted, hcount.trans hm, ?_⟩
  rw [byteAt, hsource, hbyte]

end

theorem draws_byteAt_ofSeed (seed : Int) (n : Nat) :
    (ofSeed seed).Draws n ((ofSeed seed).byteAt n) := by
  obtain ⟨x, hx, h⟩ := exists_at_ofSeed seed
  exact draws_byteAt hx h (by decide) n

end RandomSource

end Chip8
