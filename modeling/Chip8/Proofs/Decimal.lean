import Chip8.Proofs.DigitRun

/-!
# Decimals of natural numbers

The text of a natural number is a literal of this number, as long as it has no more digits than a
literal may have.
-/

namespace Chip8

theorem Digit.range_of_isDigit {c : Char} (h : c.isDigit = true) : 48 ≤ c.toNat ∧ c.toNat ≤ 57 := by
  simp only [Char.isDigit, Bool.and_eq_true, decide_eq_true_eq] at h
  exact ⟨UInt32.le_iff_toNat_le.mp h.1, UInt32.le_iff_toNat_le.mp h.2⟩

theorem Digit.decimal?_of_isDigit {c : Char} (h : c.isDigit = true) :
    decimal? c = some (c.toNat - '0'.toNat) := by
  obtain ⟨hlow, hhigh⟩ := range_of_isDigit h
  have hlatin : (zeros.find? fun start => start ≤ c.toNat && c.toNat < start + 10) = some 48 := by
    apply List.find?_cons_of_pos
    rw [Bool.and_eq_true, decide_eq_true_iff, decide_eq_true_iff]
    omega
  rw [decimal?, hlatin]
  rfl

theorem Blank.isMargin_of_isDigit {c : Char} (h : c.isDigit = true) : isMargin c = false := by
  obtain ⟨hlow, hhigh⟩ := Digit.range_of_isDigit h
  simp [isMargin, isBlank, isSeparator]
  omega

namespace IntegerLiteral

section

variable {cs : List Char} (hne : cs ≠ []) (h : ∀ c ∈ cs, c.isDigit = true)

include hne h

theorem isRun_of_isDigit :
    IsRun Digit.decimal? cs (cs.map fun c => c.toNat - '0'.toNat) := by
  induction cs with
  | nil => exact absurd rfl hne
  | cons c rest ih =>
      obtain ⟨hc, hrest⟩ := List.forall_mem_cons.mp h
      have hdigit := Digit.decimal?_of_isDigit hc
      cases rest with
      | nil => exact .single hdigit
      | cons d others => exact .next hdigit (ih (List.cons_ne_nil _ _) hrest)

theorem splitSign_of_isDigit : splitSign cs = (false, cs) := by
  cases cs with
  | nil => exact absurd rfl hne
  | cons c rest =>
      have hc := h c List.mem_cons_self
      unfold splitSign
      split
      case h_1 heq | h_2 heq =>
        rw [(List.cons.inj heq).1] at hc
        exact absurd hc (by decide)
      case h_3 => rfl

omit hne in
theorem strip_of_isDigit : Blank.strip Blank.isMargin cs = cs := by
  have hkeeps {ds : List Char} (hds : ∀ c ∈ ds, c.isDigit = true) :
      ds.dropWhile Blank.isMargin = ds := by
    apply Blank.dropWhile_of_head?
    intro c hc
    exact Blank.isMargin_of_isDigit (hds c (List.mem_of_mem_head? hc))
  rw [Blank.strip, hkeeps h, hkeeps (by simpa using h), List.reverse_reverse]

end

theorem value_eq (cs : List Char) :
    value 10 (cs.map fun c => c.toNat - '0'.toNat) = Nat.ofDigitChars 10 cs 0 := by
  rw [value, Nat.ofDigitChars_eq_foldl, List.foldl_map]
  simp only [Nat.mul_comm 10]

/-- The least natural number with more digits than a count. -/
def leastLonger (count : Nat) : Nat :=
  Nat.pow 10 count

theorem length_toDigits_le_iff (n : Nat) {count : Nat} (hpos : 0 < count) :
    (Nat.toDigits 10 n).length ≤ count ↔ n < leastLonger count :=
  Nat.length_toDigits_le_iff (by decide) hpos

/-- The text of a natural number is read as this number, unless it is too long. -/
theorem read?_toString (n : Nat) :
    read? .decimal (toString n) = if n < leastLonger 4300 then some (n : Int) else none := by
  have hdigits : ∀ c ∈ Nat.toDigits 10 n, c.isDigit = true :=
    fun c => Nat.isDigit_of_mem_toDigits (by decide) (by decide)
  have hmagnitude : magnitude? .decimal (Nat.toDigits 10 n) =
      if n < leastLonger 4300 then some n else none := by
    have hread : digits? Base.decimal.digit? (dropMark .decimal (Nat.toDigits 10 n)) =
        some ((Nat.toDigits 10 n).map fun c => c.toNat - '0'.toNat) :=
      digits?_of_isRun (by decide) (isRun_of_isDigit Nat.toDigits_ne_nil hdigits)
    have hvalue := value_eq (Nat.toDigits 10 n)
    rw [Nat.ofDigitChars_ten_toDigits] at hvalue
    have hlength := length_toDigits_le_iff n (show 0 < 4300 by decide)
    rw [magnitude?, hread]
    simp only [Option.bind_eq_bind, Option.bind_some, Base.longest, Base.radix, List.length_map,
      hvalue, hlength, Option.pure_def]
  rw [read?, Nat.toString_eq_ofList_toDigits, String.toList_ofList, readChars?,
    strip_of_isDigit hdigits, splitSign_of_isDigit Nat.toDigits_ne_nil hdigits]
  dsimp only
  rw [hmagnitude]
  split
  · rfl
  · rfl

end IntegerLiteral

end Chip8
