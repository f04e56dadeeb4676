import Chip8.Text.Hexadecimal
import Mathlib.Tactic.Common

/-!
# Digits in base sixteen

The text of a natural number in base sixteen ends in the digit of its remainder, and the text of the
quotient stands in front of it.  With zeros up to a width this holds for small numbers as well, so
that a word fills its four digits.
-/

namespace Chip8.Hexadecimal

def digit (upper : Bool) (value : Nat) : Char :=
  if upper then value.digitChar.toUpper else value.digitChar

theorem digits_of_lt (upper : Bool) {n : Nat} (h : n < 16) : digits upper n = [digit upper n] := by
  rw [digits, Nat.toDigits_of_lt_base h]
  cases upper <;> rfl

theorem digits_of_le (upper : Bool) {n : Nat} (h : 16 ≤ n) :
    digits upper n = digits upper (n / 16) ++ [digit upper (n % 16)] := by
  rw [digits, digits, Nat.toDigits_of_base_le (by decide) h]
  cases upper
  · rfl
  · exact List.map_append

/-- Digits with zeros in front of them, up to a width. -/
def padded (upper : Bool) (width n : Nat) : List Char :=
  List.replicate (width - (digits upper n).length) '0' ++ digits upper n

theorem padded_one (upper : Bool) {n : Nat} (h : n < 16) : padded upper 1 n = [digit upper n] := by
  rw [padded, digits_of_lt upper h]
  rfl

theorem padded_succ (upper : Bool) {width : Nat} (hpos : 0 < width) (n : Nat) :
    padded upper (width + 1) n = padded upper width (n / 16) ++ [digit upper (n % 16)] := by
  by_cases h : n < 16
  · have hzero : digit upper 0 = '0' := by cases upper <;> decide
    have hquotient : n / 16 = 0 := Nat.div_eq_of_lt h
    obtain ⟨others, rfl⟩ : ∃ others, width = others + 1 := ⟨width - 1, by omega⟩
    rw [padded, padded, digits_of_lt upper h, hquotient, digits_of_lt upper (by decide), hzero,
      Nat.mod_eq_of_lt h, List.length_singleton, List.length_singleton, Nat.add_sub_cancel,
      Nat.add_sub_cancel, List.replicate_succ']
  · have hlength : (digits upper n).length = (digits upper (n / 16)).length + 1 := by
      rw [digits_of_le upper (Nat.not_lt.mp h), List.length_append, List.length_singleton]
    rw [padded, padded, hlength, Nat.add_sub_add_right, digits_of_le upper (Nat.not_lt.mp h),
      List.append_assoc]

theorem word_natCast {n : Nat} (h : n < 65536) :
    word n = String.ofList
      [digit true (n / 4096), digit true (n / 256 % 16), digit true (n / 16 % 16),
        digit true (n % 16)] := by
  have hdigits : padded true 4 n =
      [digit true (n / 4096), digit true (n / 256 % 16), digit true (n / 16 % 16),
        digit true (n % 16)] := by
    have hsecond : n / 16 / 16 = n / 256 := by omega
    have hfirst : n / 256 / 16 = n / 4096 := by omega
    rw [padded_succ true (by decide), padded_succ true (by decide), padded_succ true (by decide),
      hsecond, hfirst, padded_one true (by omega)]
    rfl
  have hsign : ¬ (n : Int) < 0 := by omega
  rw [← hdigits, word, format, padded]
  simp [hsign]

end Chip8.Hexadecimal
