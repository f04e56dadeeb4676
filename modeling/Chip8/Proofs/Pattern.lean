import Chip8.Instruction.Decode
import Mathlib.Tactic.Common

/-!
# Instruction patterns

An instruction set is usually given as a list of patterns: of the four digits of a word some are
fixed, and the others carry the operands.  This module gives that list for the operations of the
machine and shows that decoding agrees with it.

A pattern fixes the first digit, and some patterns fix the last or the last two as well.  Two
patterns never fit one word, so a word asks for the operation whose pattern it fits, and for the
unrecognized one if it fits none.
-/

namespace Chip8

/-- The digits that a pattern of instruction words fixes.  The second digit is free in all of
them. -/
structure Pattern where
  first : Fin 16
  third : Option (Fin 16) := none
  last : Option (Fin 16) := none

/-- A word has the digits that a pattern fixes.  Digits in front of the last four do not
matter. -/
@[mk_iff]
structure Pattern.Fits (pattern : Pattern) (word : Int) : Prop where
  first : word / 4096 % 16 = pattern.first
  third : ∀ digit ∈ pattern.third, word / 16 % 16 = digit
  last : ∀ digit ∈ pattern.last, word % 16 = digit

namespace Pattern

/-- The word with the digits of a pattern, and with the given ones in the places that the
pattern leaves free. -/
def word (pattern : Pattern) (second third last : Fin 16) : Int :=
  0x1000 * pattern.first + 0x100 * second + 0x10 * pattern.third.getD third +
    pattern.last.getD last

section

variable (pattern : Pattern) (second third last : Fin 16)

theorem ofWord_x_word : Field.ofWord (pattern.word second third last) .x = second := by
  show pattern.word second third last / 256 % 16 = second
  unfold word
  omega

theorem ofWord_y_word :
    Field.ofWord (pattern.word second third last) .y = pattern.third.getD third := by
  show pattern.word second third last / 16 % 16 = pattern.third.getD third
  unfold word
  omega

theorem ofWord_n_word :
    Field.ofWord (pattern.word second third last) .n = pattern.last.getD last := by
  show pattern.word second third last % 16 = pattern.last.getD last
  unfold word
  omega

theorem fits_word : pattern.Fits (pattern.word second third last) where
  first := by
    unfold word
    omega
  third digit hdigit := by
    have hthird : pattern.third.getD third = digit := by rw [hdigit, Option.getD_some]
    rw [← hthird]
    exact pattern.ofWord_y_word second third last
  last digit hdigit := by
    have hlast : pattern.last.getD last = digit := by rw [hdigit, Option.getD_some]
    rw [← hlast]
    exact pattern.ofWord_n_word second third last

end

end Pattern

namespace Operation

/-- The pattern of an operation; the unrecognized one has none. -/
def pattern? : Operation → Option Pattern
  | clear => some { first := 0x0, last := some 0x0 }
  | ret => some { first := 0x0, last := some 0xE }
  | jump => some { first := 0x1 }
  | call => some { first := 0x2 }
  | skipIfByte => some { first := 0x3 }
  | skipUnlessByte => some { first := 0x4 }
  | skipIfEqual => some { first := 0x5 }
  | loadByte => some { first := 0x6 }
  | addByte => some { first := 0x7 }
  | copy => some { first := 0x8, last := some 0x0 }
  | bitOr => some { first := 0x8, last := some 0x1 }
  | bitAnd => some { first := 0x8, last := some 0x2 }
  | bitXor => some { first := 0x8, last := some 0x3 }
  | add => some { first := 0x8, last := some 0x4 }
  | subtract => some { first := 0x8, last := some 0x5 }
  | shiftRight => some { first := 0x8, last := some 0x6 }
  | subtractFrom => some { first := 0x8, last := some 0x7 }
  | shiftLeft => some { first := 0x8, last := some 0xE }
  | skipUnlessEqual => some { first := 0x9 }
  | loadIndex => some { first := 0xA }
  | jumpBeyond => some { first := 0xB }
  | random => some { first := 0xC }
  | draw => some { first := 0xD }
  | skipIfPressed => some { first := 0xE, third := some 0x9, last := some 0xE }
  | skipUnlessPressed => some { first := 0xE, third := some 0xA, last := some 0x1 }
  | readDelay => some { first := 0xF, third := some 0x0, last := some 0x7 }
  | awaitKey => some { first := 0xF, third := some 0x0, last := some 0xA }
  | setDelay => some { first := 0xF, third := some 0x1, last := some 0x5 }
  | setSound => some { first := 0xF, third := some 0x1, last := some 0x8 }
  | addIndex => some { first := 0xF, third := some 0x1, last := some 0xE }
  | loadGlyph => some { first := 0xF, third := some 0x2, last := some 0x9 }
  | storeDecimal => some { first := 0xF, third := some 0x3, last := some 0x3 }
  | storeRegisters => some { first := 0xF, third := some 0x5, last := some 0x5 }
  | loadRegisters => some { first := 0xF, third := some 0x6, last := some 0x5 }
  | unrecognized => none

/-- A word asks for an operation by fitting its pattern, and for the unrecognized one by
fitting no pattern. -/
def IsAskedBy (operation : Operation) (word : Int) : Prop :=
  match operation.pattern? with
  | some pattern => pattern.Fits word
  | none => ∀ other : Operation, ∀ pattern ∈ other.pattern?, ¬ pattern.Fits word

theorem fits_pattern_ofWord (word : Int) :
    ∀ pattern ∈ (ofWord word).pattern?, pattern.Fits word := by
  have htwo : word % 256 = word / 16 % 16 * 16 + word % 16 := by omega
  rw [ofWord]
  generalize hfirst : (word / 4096 % 16).toNat = first
  generalize hlast : (word % 16).toNat = last
  generalize hlastTwo : (word % 256).toNat = lastTwo
  fun_cases ofDigits first last lastTwo with
  | case1 => fun_cases ofSystem last <;> simp [pattern?, Pattern.fits_iff] <;> omega
  | case9 => fun_cases ofArithmetic last <;> simp [pattern?, Pattern.fits_iff] <;> omega
  | case15 => fun_cases ofKeySkip lastTwo <;> simp [pattern?, Pattern.fits_iff] <;> omega
  | case16 => fun_cases ofMiscellany lastTwo <;> simp [pattern?, Pattern.fits_iff] <;> omega
  | case17 => simp [pattern?]
  | _ =>
      simp [pattern?, Pattern.fits_iff]
      omega

/-- The pattern of an operation is fitted only by the words that are decoded to it. -/
theorem ofWord_of_fits
    {operation : Operation} {pattern : Pattern} {word : Int}
    (hpattern : pattern ∈ operation.pattern?) (hfits : pattern.Fits word) :
    ofWord word = operation := by
  have htwo : word % 256 = word / 16 % 16 * 16 + word % 16 := by omega
  obtain ⟨hfirst, hthird, hlast⟩ := hfits
  rw [ofWord, hfirst, htwo]
  cases operation with
  | unrecognized => cases hpattern
  | clear | ret | copy | bitOr | bitAnd | bitXor | add | subtract | shiftRight | subtractFrom
  | shiftLeft =>
      cases hpattern
      rw [hlast _ rfl]
      rfl
  | skipIfPressed | skipUnlessPressed | readDelay | awaitKey | setDelay | setSound | addIndex
  | loadGlyph | storeDecimal | storeRegisters | loadRegisters =>
      cases hpattern
      rw [hthird _ rfl, hlast _ rfl]
      rfl
  | _ =>
      cases hpattern
      rfl

theorem pattern?_eq_none_iff (operation : Operation) :
    operation.pattern? = none ↔ operation = unrecognized := by
  cases operation <;> simp [pattern?]

/-- Every word asks for one operation, and it is decoded to that one. -/
theorem isAskedBy_iff (operation : Operation) (word : Int) :
    operation.IsAskedBy word ↔ ofWord word = operation := by
  constructor
  · intro hasked
    unfold IsAskedBy at hasked
    split at hasked
    next pattern hpattern => exact ofWord_of_fits hpattern hasked
    next hnone =>
      rw [(pattern?_eq_none_iff operation).mp hnone, ← pattern?_eq_none_iff,
        Option.eq_none_iff_forall_not_mem]
      exact fun pattern hpattern => hasked _ pattern hpattern (fits_pattern_ofWord word _ hpattern)
  · rintro rfl
    unfold IsAskedBy
    split
    next pattern hpattern => exact fits_pattern_ofWord word pattern hpattern
    next hnone =>
      intro other pattern hpattern hfits
      rw [ofWord_of_fits hpattern hfits, hpattern] at hnone
      cases hnone

end Operation

end Chip8
