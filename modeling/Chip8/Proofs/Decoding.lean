import Chip8.Proofs.HexadecimalDigits
import Chip8.Proofs.Pattern
import Mathlib.Data.List.Nodup

/-!
# Decoding accepts exactly the patterns

Only the low sixteen bits of a word are decoded, and its operand fields nest: the address is made of
the first register and the byte, and the byte of the second register and the last digit.  A word is
recognized exactly if it fits the pattern of some operation, which is then the only one whose key it
gets.  A word that fits none is reported with its four digits.

The other way round, a word that is assembled from a pattern and operands in range is decoded to the
operation of the pattern with these operands.  The main result is `decodes_by_pattern`.
-/

namespace Chip8

/-! ## Low bits and fields -/

structure LowBitsDecide (word : Int) : Prop where
  decode_eq : decode word = decode (word % 65536)
  word_eq : (decode word).word = word % 65536
  operands_eq : Operands.ofWord word = Operands.ofWord (word % 65536)

theorem lowBitsDecide (word : Int) : LowBitsDecide word := by
  have hfirst : word % 65536 / 4096 % 16 = word / 4096 % 16 := by omega
  have hlast : word % 65536 % 16 = word % 16 := by omega
  have hlastTwo : word % 65536 % 256 = word % 256 := by omega
  constructor
  · rw [decode, decode, Operation.ofWord, Operation.ofWord, hfirst, hlast, hlastTwo,
      Int.emod_emod_of_dvd word (Int.dvd_refl 65536)]
  · rfl
  · simp only [Operands.ofWord, Field.ofWord, Operands.mk.injEq, Option.some.injEq]
    omega

/-- The operand fields of a word nest, and its first digit stands in front of them. -/
structure FieldsNest (word : Int) : Prop where
  word_eq : word = word / 4096 * 4096 + Field.ofWord word .nnn
  nnn_eq : Field.ofWord word .nnn = 256 * Field.ofWord word .x + Field.ofWord word .nn
  nn_eq : Field.ofWord word .nn = 16 * Field.ofWord word .y + Field.ofWord word .n
  x_range : 0 ≤ Field.ofWord word .x ∧ Field.ofWord word .x ≤ 0xF
  y_range : 0 ≤ Field.ofWord word .y ∧ Field.ofWord word .y ≤ 0xF
  n_range : 0 ≤ Field.ofWord word .n ∧ Field.ofWord word .n ≤ 0xF

theorem fieldsNest (word : Int) : FieldsNest word := by
  constructor <;> simp only [Field.ofWord] <;> omega

/-! ## Recognized words -/

/-- A word is an instruction, by its first digit, its last digit and its last two. -/
def IsInstruction (word : Int) : Prop :=
  let first := word / 4096
  let last := word % 16
  let lastTwo := word % 256
  (first = 0x0 ∧ (last = 0x0 ∨ last = 0xE)) ∨
    (0x1 ≤ first ∧ first ≤ 0x7) ∨
    (first = 0x8 ∧ (last ≤ 0x7 ∨ last = 0xE)) ∨
    (0x9 ≤ first ∧ first ≤ 0xD) ∨
    (first = 0xE ∧ (lastTwo = 0x9E ∨ lastTwo = 0xA1)) ∨
    (first = 0xF ∧ lastTwo ∈ [0x07, 0x0A, 0x15, 0x18, 0x1E, 0x29, 0x33, 0x55, 0x65])

namespace Operation

theorem nodup_keys : (all.map key).Nodup := by
  decide

theorem key_injective : Function.Injective key := by
  intro operation other hkey
  exact List.inj_on_of_nodup_map nodup_keys (mem_all operation) (mem_all other) hkey

theorem ofSystem_eq_unrecognized_iff (last : Nat) :
    ofSystem last = unrecognized ↔ ¬ (last = 0x0 ∨ last = 0xE) := by
  fun_cases ofSystem last <;> simp_all

theorem ofArithmetic_eq_unrecognized_iff (last : Nat) :
    ofArithmetic last = unrecognized ↔ ¬ (last ≤ 0x7 ∨ last = 0xE) := by
  fun_cases ofArithmetic last <;> simp_all
  omega

theorem ofKeySkip_eq_unrecognized_iff (lastTwo : Nat) :
    ofKeySkip lastTwo = unrecognized ↔ ¬ (lastTwo = 0x9E ∨ lastTwo = 0xA1) := by
  fun_cases ofKeySkip lastTwo <;> simp_all

theorem ofMiscellany_eq_unrecognized_iff (lastTwo : Nat) :
    ofMiscellany lastTwo = unrecognized ↔
      lastTwo ∉ [0x07, 0x0A, 0x15, 0x18, 0x1E, 0x29, 0x33, 0x55, 0x65] := by
  fun_cases ofMiscellany lastTwo <;> simp_all

/-- The tables of the families recognize the listed words and no others. -/
theorem ofWord_eq_unrecognized_iff {word : Int} (h : 0 ≤ word ∧ word < 65536) :
    ofWord word = unrecognized ↔ ¬ IsInstruction word := by
  have hfamily : word / 4096 % 16 = word / 4096 := by omega
  have hlast : (word % 16).toNat = word % 16 := Int.toNat_of_nonneg (by omega)
  have hlastTwo : (word % 256).toNat = word % 256 := Int.toNat_of_nonneg (by omega)
  have hfirst : (word / 4096).toNat = word / 4096 := Int.toNat_of_nonneg (by omega)
  have hbound : (word / 4096).toNat < 16 := by omega
  rw [ofWord, hfamily, IsInstruction, ← hfirst, ← hlast, ← hlastTwo]
  simp only [List.mem_cons, List.not_mem_nil, or_false]
  generalize (word / 4096).toNat = first at hbound ⊢
  generalize (word % 16).toNat = last
  generalize (word % 256).toNat = lastTwo
  clear h hfamily hlast hlastTwo hfirst
  fun_cases ofDigits first last lastTwo with
  | case1 =>
      rw [ofSystem_eq_unrecognized_iff]
      grind
  | case9 =>
      rw [ofArithmetic_eq_unrecognized_iff]
      grind
  | case15 =>
      rw [ofKeySkip_eq_unrecognized_iff]
      grind
  | case16 =>
      rw [ofMiscellany_eq_unrecognized_iff]
      simp only [List.mem_cons, List.not_mem_nil, or_false]
      grind
  | case17 => grind
  | _ => simp

theorem key_decode_iff
    {operation : Operation} {pattern : Pattern} (hpattern : pattern ∈ operation.pattern?)
    (word : Int) : (decode word).key = operation.key ↔ pattern.Fits word := by
  constructor
  · intro hkey
    have hword : ofWord word = operation := key_injective hkey
    rw [← hword] at hpattern
    exact fits_pattern_ofWord word pattern hpattern
  · intro hfits
    exact congrArg key (ofWord_of_fits hpattern hfits)

end Operation

def upperDigit (value : Int) : Char :=
  ['0', '1', '2', '3', '4', '5', '6', '7', '8', '9', 'A', 'B', 'C', 'D', 'E', 'F'].getD
    value.toNat '0'

theorem digit_true {n : Nat} (h : n < 16) : Hexadecimal.digit true n = upperDigit n := by
  revert n
  decide

def fourDigits (word : Int) : String :=
  String.ofList
    [upperDigit (word / 4096 % 16), upperDigit (word / 256 % 16), upperDigit (word / 16 % 16),
      upperDigit (word % 16)]

theorem word_eq_fourDigits {word : Int} (h : 0 ≤ word ∧ word < 65536) :
    Hexadecimal.word word = fourDigits word := by
  obtain ⟨n, rfl⟩ := Int.eq_ofNat_of_zero_le h.1
  have hlt : n < 65536 := by omega
  have hfamily : n / 4096 % 16 = n / 4096 := by omega
  rw [Hexadecimal.word_natCast hlt, ← hfamily, digit_true (by omega), digit_true (by omega),
    digit_true (by omega), digit_true (by omega), fourDigits]
  rfl

/-- What decoding tells of a word, by its low sixteen bits. -/
structure Tells (word : Int) : Prop where
  valid_iff : (decode word).valid = true ↔ IsInstruction (word % 65536)
  key_iff : ∀ operation : Operation, ∀ pattern ∈ operation.pattern?,
    ((decode word).key = operation.key ↔ pattern.Fits (word % 65536))
  unrecognized_iff : (decode word).key = "OP_INVALID" ↔ ¬ IsInstruction (word % 65536)
  recognized : IsInstruction (word % 65536) →
    (decode word).entries = (Operands.ofWord (word % 65536)).entries ∧
      (decode word).problem? = none
  unrecognized : ¬ IsInstruction (word % 65536) →
    (decode word).entries = [("raw", word % 65536)] ∧
      (decode word).problem? = some ("Unknown instruction: " ++ fourDigits (word % 65536))

theorem tells (word : Int) : Tells word := by
  have hrange : 0 ≤ word % 65536 ∧ word % 65536 < 65536 := by omega
  have hlow := (lowBitsDecide word).decode_eq
  have hunrecognized :
      (decode word).operation = .unrecognized ↔ ¬ IsInstruction (word % 65536) := by
    rw [hlow]
    exact Operation.ofWord_eq_unrecognized_iff hrange
  have hvalid : (decode word).valid = true ↔ IsInstruction (word % 65536) := by
    rw [Decoded.valid, decide_eq_true_iff, Ne, hunrecognized, not_not]
  constructor
  · exact hvalid
  · intro operation pattern hpattern
    rw [hlow]
    exact Operation.key_decode_iff hpattern _
  · rw [← hunrecognized]
    exact Operation.key_injective.eq_iff (b := .unrecognized)
  · intro hinstruction
    have hyes := hvalid.mpr hinstruction
    rw [Decoded.entries, Decoded.problem?, Decoded.operands, if_pos hyes, if_pos hyes, if_pos hyes]
    exact ⟨rfl, rfl⟩
  · intro hnone
    have hno : ¬ (decode word).valid = true := mt hvalid.mp hnone
    rw [Decoded.entries, Decoded.problem?, if_neg hno, if_neg hno, ← word_eq_fourDigits hrange]
    exact ⟨rfl, rfl⟩

/-! ## Assembled words -/

theorem decode_of_fits
    {operation : Operation} {pattern : Pattern} (hpattern : pattern ∈ operation.pattern?)
    {word : Int} (hrange : 0 ≤ word ∧ word < 65536) (hfits : pattern.Fits word) :
    decode word = ⟨operation, word⟩ ∧ (decode word).operands = Operands.ofWord word := by
  have hword : word % 65536 = word := Int.emod_eq_of_lt hrange.1 hrange.2
  have hdecode : decode word = ⟨operation, word⟩ := by
    rw [decode, Operation.ofWord_of_fits hpattern hfits, hword]
  have hrecognized : operation ≠ .unrecognized := by
    rintro rfl
    cases hpattern
  refine ⟨hdecode, ?_⟩
  rw [hdecode]
  exact if_pos (decide_eq_true hrecognized)

def Operands.ofDigits (x y n : Fin 16) : Operands where
  x := some x
  y := some y
  n := some n
  nn := some (0x10 * y + n)
  nnn := some (0x100 * x + 0x10 * y + n)

/-- Words that are assembled from a pattern and operands are decoded to the operation of the
pattern with these operands.  A pattern fixes some digits of the operands, and if it fixes none
they may also be given as a register and a byte or as an address. -/
structure Assembles (operation : Operation) (pattern : Pattern) : Prop where
  digits : ∀ x y n : Fin 16,
    decode (pattern.word x y n) = ⟨operation, pattern.word x y n⟩ ∧
      (decode (pattern.word x y n)).operands =
        .ofDigits x (pattern.third.getD y) (pattern.last.getD n)
  byte : pattern.third = none → pattern.last = none → ∀ (x : Fin 16) (byte : Fin 256),
    decode (0x1000 * pattern.first + 0x100 * x + byte) =
        ⟨operation, 0x1000 * pattern.first + 0x100 * x + byte⟩ ∧
      (decode (0x1000 * pattern.first + 0x100 * x + byte)).operands.x = some (x : Int) ∧
      (decode (0x1000 * pattern.first + 0x100 * x + byte)).operands.nn = some (byte : Int)
  address : pattern.third = none → pattern.last = none → ∀ address : Fin 4096,
    decode (0x1000 * pattern.first + address) = ⟨operation, 0x1000 * pattern.first + address⟩ ∧
      (decode (0x1000 * pattern.first + address)).operands.nnn = some (address : Int)

theorem assembles
    {operation : Operation} {pattern : Pattern} (hpattern : pattern ∈ operation.pattern?) :
    Assembles operation pattern := by
  have hfree
      (hthird : pattern.third = none) (hlast : pattern.last = none) {rest : Int}
      (hrest : 0 ≤ rest ∧ rest < 4096) :
      decode (0x1000 * pattern.first + rest) = ⟨operation, 0x1000 * pattern.first + rest⟩ ∧
        (decode (0x1000 * pattern.first + rest)).operands =
          .ofWord (0x1000 * pattern.first + rest) := by
    apply decode_of_fits hpattern
    · omega
    · constructor
      · omega
      · simp [hthird]
      · simp [hlast]
  constructor
  · intro x y n
    have hrange : 0 ≤ pattern.word x y n ∧ pattern.word x y n < 65536 := by
      rw [Pattern.word]
      omega
    obtain ⟨hdecode, hoperands⟩ := decode_of_fits hpattern hrange (pattern.fits_word x y n)
    refine ⟨hdecode, ?_⟩
    obtain ⟨-, hnnn, hnn, -, -, -⟩ := fieldsNest (pattern.word x y n)
    rw [hoperands, Operands.ofWord, hnnn, hnn, pattern.ofWord_x_word, pattern.ofWord_y_word,
      pattern.ofWord_n_word, ← Int.add_assoc]
    rfl
  · intro hthird hlast x byte
    have hrest : 0 ≤ 0x100 * (x : Int) + byte ∧ 0x100 * (x : Int) + byte < 4096 := by omega
    obtain ⟨hdecode, hoperands⟩ := hfree hthird hlast hrest
    rw [Int.add_assoc]
    refine ⟨hdecode, ?_, ?_⟩
    all_goals
      rw [hoperands, Operands.ofWord]
      refine congrArg some ?_
      rw [Field.ofWord]
      omega
  · intro hthird hlast address
    have hrest : 0 ≤ (address : Int) ∧ (address : Int) < 4096 := by omega
    obtain ⟨hdecode, hoperands⟩ := hfree hthird hlast hrest
    refine ⟨hdecode, ?_⟩
    rw [hoperands, Operands.ofWord]
    refine congrArg some ?_
    rw [Field.ofWord]
    omega

/-- Any word is decoded by its low sixteen bits, whose operand fields nest.  It is recognized
exactly if it is one of the listed instructions, it gets the key of an operation exactly if it fits
the one pattern of the operation, and every other word is reported with its four digits.  Every
operation has a pattern, and words assembled from it are decoded to the operation and the same
operands. -/
theorem decodes_by_pattern (word : Int) :
    LowBitsDecide word ∧ FieldsNest (word % 65536) ∧ Tells word ∧
      (∀ operation : Operation, operation.pattern? = none ↔ operation.key = "OP_INVALID") ∧
      ∀ operation : Operation, ∀ pattern ∈ operation.pattern?, Assembles operation pattern := by
  refine ⟨lowBitsDecide word, fieldsNest _, tells word, ?_, ?_⟩
  · intro operation
    rw [Operation.pattern?_eq_none_iff]
    exact (Operation.key_injective.eq_iff (b := .unrecognized)).symm
  · intro operation pattern hpattern
    exact assembles hpattern

/-- Minus one is reported as the word of all ones, and the assembled word of a sprite is decoded to
drawing with the digits that were put in. -/
theorem decodes_by_pattern_unknown_and_draw :
    (decode (-1)).key = "OP_INVALID" ∧ (decode (-1)).entries = [("raw", 0xFFFF)] ∧
      (decode (-1)).problem? = some "Unknown instruction: FFFF" ∧
      decode 0xD12F = ⟨.draw, 0xD12F⟩ ∧
      (decode 0xD12F).operands =
        { x := some 0x1, y := some 0x2, n := some 0xF, nn := some 0x2F, nnn := some 0x12F } := by
  obtain ⟨-, -, htells, -, hassembles⟩ := decodes_by_pattern (-1)
  have hnone : ¬ IsInstruction (-1 % 65536) := by
    unfold IsInstruction
    decide
  obtain ⟨hentries, hproblem⟩ := htells.unrecognized hnone
  obtain ⟨hdecode, hoperands⟩ := (hassembles .draw _ rfl).digits 0x1 0x2 0xF
  exact ⟨htells.unrecognized_iff.mpr hnone, hentries, hproblem, hdecode, hoperands⟩

end Chip8
