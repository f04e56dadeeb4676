import Chip8.Proofs.DigitRun
import Chip8.Proofs.HexadecimalDigits
import Mathlib.Data.Nat.Digits.Defs

/-!
# The grammar of hexadecimal literals

A hexadecimal literal is a sign, a mark and a run of digits, with margins around it.  The sign and
the mark may be missing, and single underscores may stand between digits and after the mark.  The
grammar says which integer a text denotes, without saying how it is found; reading a text finds this
integer, and finds none exactly if the text denotes none.

In particular the texts that integers are written as denote these integers.
-/

namespace Chip8

/-! ## Blank characters -/

namespace Blank

def places : List Nat :=
  [0x09, 0x0A, 0x0B, 0x0C, 0x0D, 0x1C, 0x1D, 0x1E, 0x1F, 0x20, 0x85, 0xA0, 0x1680, 0x2000, 0x2001,
    0x2002, 0x2003, 0x2004, 0x2005, 0x2006, 0x2007, 0x2008, 0x2009, 0x200A, 0x2028, 0x2029, 0x202F,
    0x205F, 0x3000]

theorem toNat_mem_places {c : Char} (h : isBlank c = true) : c.toNat ∈ places := by
  simp only [isBlank, isSeparator, Bool.or_eq_true, Bool.and_eq_true, decide_eq_true_eq,
    beq_iff_eq] at h
  simp only [places, List.mem_cons, List.not_mem_nil, or_false]
  omega

/-- No blank character is a digit. -/
theorem hexadecimal?_of_isBlank {c : Char} (h : isBlank c = true) :
    Digit.hexadecimal? c = none := by
  have hplaces : ∀ place ∈ places, Digit.hexadecimal? (Char.ofNat place) = none := by decide
  have hc := hplaces c.toNat (toNat_mem_places h)
  rwa [Char.ofNat_toNat] at hc

theorem isMargin_of_hexadecimal? {c : Char} {d : Nat} (h : Digit.hexadecimal? c = some d) :
    isMargin c = false := by
  rw [Bool.eq_false_iff]
  intro hmargin
  rw [isMargin, Bool.and_eq_true] at hmargin
  rw [hexadecimal?_of_isBlank hmargin.1] at h
  cases h

end Blank

theorem Digit.exists_hexadecimal? {c : Char} {d : Nat} (h : decimal? c = some d) :
    ∃ e, hexadecimal? c = some e := by
  rw [hexadecimal?]
  split
  · exact ⟨_, rfl⟩
  · split
    · exact ⟨_, rfl⟩
    · exact ⟨d, h⟩

/-! ## The grammar -/

namespace IntegerLiteral

/-- A sign, which may be missing, and whether it is a minus. -/
inductive IsSign : List Char → Bool → Prop
  | missing : IsSign [] false
  | plus : IsSign ['+'] false
  | minus : IsSign ['-'] true

/-- The mark of a hexadecimal literal, which may be missing: a zero of any script and an `x` of
either case, and possibly an underscore. -/
inductive IsMark : List Char → Prop
  | missing : IsMark []
  | plain {zero x : Char} (hzero : Digit.decimal? zero = some 0) (hx : x = 'x' ∨ x = 'X') :
      IsMark [zero, x]
  | joined {zero x : Char} (hzero : Digit.decimal? zero = some 0) (hx : x = 'x' ∨ x = 'X') :
      IsMark [zero, x, '_']

/-- An integer by its sign and its size. -/
def signed (negative : Bool) (n : Nat) : Int :=
  if negative then -(n : Int) else n

/-- A text is a hexadecimal literal and denotes an integer. -/
inductive Denotes : List Char → Int → Prop
  | literal {before sign mark digits after : List Char} {negative : Bool} {ds : List Nat}
      (hbefore : ∀ c ∈ before, Blank.isMargin c = true)
      (hafter : ∀ c ∈ after, Blank.isMargin c = true)
      (hsign : IsSign sign negative) (hmark : IsMark mark)
      (hdigits : IsRun Digit.hexadecimal? digits ds) :
      Denotes (before ++ (sign ++ (mark ++ digits)) ++ after)
        (signed negative (Nat.ofDigits 16 ds.reverse))

/-! ## Reading a literal -/

theorem value_eq_ofDigits (ds : List Nat) : value 16 ds = Nat.ofDigits 16 ds.reverse := by
  rw [value, ← List.foldr_reverse, Nat.ofDigits_eq_foldr]
  congr 1
  funext d n
  exact (Nat.add_comm _ _).trans (congrArg (d + ·) (Nat.mul_comm _ _))

theorem exists_splitSign (cs : List Char) :
    ∃ sign, IsSign sign (splitSign cs).1 ∧ cs = sign ++ (splitSign cs).2 := by
  fun_cases splitSign cs with
  | case1 rest => exact ⟨['-'], .minus, rfl⟩
  | case2 rest => exact ⟨['+'], .plus, rfl⟩
  | case3 cs _ _ => exact ⟨[], .missing, rfl⟩

theorem exists_dropMark (cs : List Char) :
    ∃ mark, IsMark mark ∧ cs = mark ++ dropMark .hexadecimal cs := by
  fun_cases dropMark .hexadecimal cs with
  | case1 zero x h digits => exact ⟨[zero, x, '_'], .joined h.1 h.2, rfl⟩
  | case2 zero x h digits => exact ⟨[zero, x], .plain h.1 h.2, rfl⟩
  | case3 zero x rest => exact ⟨[], .missing, rfl⟩
  | case4 => exact ⟨[], .missing, rfl⟩

theorem splitSign_append
    {sign rest : List Char} {negative : Bool} (hsign : IsSign sign negative)
    (hrest : ∀ c ∈ rest.head?, c ≠ '+' ∧ c ≠ '-') :
    splitSign (sign ++ rest) = (negative, rest) := by
  cases hsign with
  | plus | minus => rfl
  | missing =>
      rw [List.nil_append]
      fun_cases splitSign rest with
      | case1 tail => exact absurd rfl (hrest '-' rfl).2
      | case2 tail => exact absurd rfl (hrest '+' rfl).1
      | case3 => rfl

section

variable {mark digits : List Char} {ds : List Nat} (hmark : IsMark mark)
  (hdigits : IsRun Digit.hexadecimal? digits ds)

include hmark hdigits

theorem dropMark_append : dropMark .hexadecimal (mark ++ digits) = digits := by
  obtain ⟨first, d, rest, hdigits', hfirst⟩ := hdigits.exists_cons
  cases hmark with
  | missing =>
      rw [List.nil_append]
      cases rest with
      | nil =>
          rw [hdigits']
          rfl
      | cons second rest =>
          have hsecond : ¬ (second = 'x' ∨ second = 'X') := by
            have hmem : second ∈ digits := by simp [hdigits']
            rcases hdigits.mem hmem with rfl | ⟨e, he⟩
            · decide
            · rintro (rfl | rfl)
              · cases he
              · cases he
          rw [hdigits']
          unfold dropMark
          exact if_neg fun h => hsecond h.2
  | plain hzero hx =>
      rw [List.cons_append, List.cons_append, List.nil_append, dropMark, if_pos ⟨hzero, hx⟩]
      intro tail hjoined
      rw [hdigits', List.cons.injEq] at hjoined
      rw [hjoined.1] at hfirst
      cases hfirst
  | joined hzero hx =>
      rw [List.cons_append, List.cons_append, List.cons_append, List.nil_append, dropMark,
        if_pos ⟨hzero, hx⟩]

theorem head?_mark_append :
    ∃ c ∈ (mark ++ digits).head?, ∃ d, Digit.hexadecimal? c = some d := by
  obtain ⟨first, d, rest, hdigits', hfirst⟩ := hdigits.exists_cons
  cases hmark with
  | missing =>
      rw [hdigits']
      exact ⟨first, rfl, d, hfirst⟩
  | plain hzero _ | joined hzero _ =>
      exact ⟨_, rfl, Digit.exists_hexadecimal? hzero⟩

omit hmark in
theorem getLast?_append_digits (sign : List Char) :
    ∃ c ∈ (sign ++ (mark ++ digits)).getLast?, ∃ d, Digit.hexadecimal? c = some d := by
  obtain ⟨c, hc, hdigit⟩ := hdigits.getLast
  refine ⟨c, ?_, hdigit⟩
  rw [Option.mem_def] at hc ⊢
  rw [List.getLast?_append, List.getLast?_append, hc]
  rfl

end

theorem magnitude?_hexadecimal (cs : List Char) :
    magnitude? .hexadecimal cs =
      (digits? Digit.hexadecimal? (dropMark .hexadecimal cs)).map (value 16) := by
  rw [magnitude?, Base.digit?]
  cases digits? Digit.hexadecimal? (dropMark .hexadecimal cs) <;> rfl

theorem denotes_of_readChars? {cs : List Char} {n : Int}
    (h : readChars? .hexadecimal cs = some n) : Denotes cs n := by
  obtain ⟨before, after, hbefore, hafter, hcs⟩ := Blank.exists_strip Blank.isMargin cs
  rw [readChars?] at h
  generalize Blank.strip Blank.isMargin cs = core at h hcs
  obtain ⟨sign, hsign, hcore⟩ := exists_splitSign core
  generalize splitSign core = parts at h hsign hcore
  obtain ⟨negative, rest⟩ := parts
  obtain ⟨mark, hmark, hrest⟩ := exists_dropMark rest
  obtain ⟨size, hsize, hn⟩ := Option.bind_eq_some_iff.mp h
  rw [magnitude?_hexadecimal, Option.map_eq_some_iff] at hsize
  obtain ⟨ds, hds, rfl⟩ := hsize
  cases hn
  rw [hcs, hcore, hrest, value_eq_ofDigits]
  exact .literal hbefore hafter hsign hmark (isRun_of_digits? hds)

theorem readChars?_of_denotes {cs : List Char} {n : Int} (h : Denotes cs n) :
    readChars? .hexadecimal cs = some n := by
  cases h with
  | @literal before sign mark digits after negative ds hbefore hafter hsign hmark hdigits =>
      obtain ⟨first, hfirst, d, hd⟩ := head?_mark_append hmark hdigits
      obtain ⟨last, hlast, e, he⟩ := getLast?_append_digits hdigits sign
      have hsigned : ∀ c ∈ (mark ++ digits).head?, c ≠ '+' ∧ c ≠ '-' := by
        intro c hc
        rw [Option.mem_unique hc hfirst]
        constructor
        · rintro rfl
          cases hd
        · rintro rfl
          cases hd
      have hstrip : Blank.strip Blank.isMargin (before ++ (sign ++ (mark ++ digits)) ++ after) =
          sign ++ (mark ++ digits) := by
        apply Blank.strip_append hbefore hafter
        · rintro hnil
          rw [hnil] at hlast
          cases hlast
        · intro c hc
          cases hsign with
          | plus | minus =>
              cases hc
              decide
          | missing =>
              rw [Option.mem_unique hc hfirst]
              exact Blank.isMargin_of_hexadecimal? hd
        · intro c hc
          rw [Option.mem_unique hc hlast]
          exact Blank.isMargin_of_hexadecimal? he
      have hread : digits? Digit.hexadecimal? digits = some ds :=
        digits?_of_isRun (by decide) hdigits
      rw [readChars?, hstrip, splitSign_append hsign hsigned]
      dsimp only
      rw [magnitude?_hexadecimal, dropMark_append hmark hdigits, hread, Option.map_some,
        value_eq_ofDigits]
      rfl

/-- Reading a text finds the integer that it denotes, if it denotes one. -/
theorem readChars?_eq_some_iff {cs : List Char} {n : Int} :
    readChars? .hexadecimal cs = some n ↔ Denotes cs n :=
  ⟨denotes_of_readChars?, readChars?_of_denotes⟩

/-! ## Written integers -/

theorem hexadecimal?_digit (upper : Bool) {d : Nat} (h : d < 16) :
    Digit.hexadecimal? (Hexadecimal.digit upper d) = some d := by
  revert d
  cases upper <;> decide

theorem isRun_digits (upper : Bool) (n : Nat) :
    ∃ ds, IsRun Digit.hexadecimal? (Hexadecimal.digits upper n) ds ∧
      Nat.ofDigits 16 ds.reverse = n := by
  induction n using Nat.strong_induction_on with
  | _ n ih =>
      by_cases h : n < 16
      · rw [Hexadecimal.digits_of_lt upper h]
        exact ⟨[n], .single (hexadecimal?_digit upper h), Nat.ofDigits_singleton⟩
      · obtain ⟨ds, hds, hvalue⟩ := ih (n / 16) (by omega)
        have hlast : n % 16 < 16 := Nat.mod_lt n (by decide)
        rw [Hexadecimal.digits_of_le upper (Nat.not_lt.mp h)]
        refine ⟨ds ++ [n % 16], hds.append_digit (hexadecimal?_digit upper hlast), ?_⟩
        rw [List.reverse_append, List.reverse_singleton, List.singleton_append, Nat.ofDigits_cons,
          hvalue]
        exact Nat.mod_add_div n 16

structure Padding where
  characters : List Char
  isPadding : ∀ c ∈ characters, c = ' ' ∨ c = '\t'

/-- The marks that may be written after the sign. -/
inductive Mark where
  | missing
  | lower
  | upper
deriving DecidableEq

def Mark.characters : Mark → List Char
  | missing => []
  | lower => ['0', 'x']
  | upper => ['0', 'X']

/-- A form in which integers are written: the mark, the case of the digits, and what stands around
them. -/
structure Form where
  before : Padding
  mark : Mark
  upper : Bool
  after : Padding

/-- Writes an integer as sign, mark and digits between its paddings. -/
def Form.write (form : Form) (n : Int) : List Char :=
  let sign := if n < 0 then ['-'] else []
  form.before.characters ++
    (sign ++ (form.mark.characters ++ Hexadecimal.digits form.upper n.natAbs)) ++
    form.after.characters

theorem Padding.isMargin (padding : Padding) :
    ∀ c ∈ padding.characters, Blank.isMargin c = true := by
  intro c hc
  rcases padding.isPadding c hc with rfl | rfl <;> decide

theorem Mark.isMark (mark : Mark) : IsMark mark.characters := by
  cases mark with
  | missing => exact .missing
  | lower => exact .plain (by decide) (Or.inl rfl)
  | upper => exact .plain (by decide) (Or.inr rfl)

theorem Form.denotes_write (form : Form) (n : Int) : Denotes (form.write n) n := by
  obtain ⟨ds, hds, hvalue⟩ := isRun_digits form.upper n.natAbs
  have hliteral {sign : List Char} {negative : Bool} (hsign : IsSign sign negative) :=
    Denotes.literal form.before.isMargin form.after.isMargin hsign form.mark.isMark hds
  rw [write]
  by_cases hnegative : n < 0
  · have hn : signed true (Nat.ofDigits 16 ds.reverse) = n := by
      rw [hvalue, signed, if_pos rfl]
      omega
    have hdenotes := hliteral .minus
    rw [hn] at hdenotes
    rw [if_pos hnegative]
    exact hdenotes
  · have hn : signed false (Nat.ofDigits 16 ds.reverse) = n := by
      rw [hvalue, signed, if_neg Bool.false_ne_true]
      omega
    have hdenotes := hliteral .missing
    rw [hn] at hdenotes
    rw [if_neg hnegative]
    exact hdenotes

/-! ## Characters of a literal -/

theorem Denotes.exists_digit {cs : List Char} {n : Int} (h : Denotes cs n) :
    ∃ c ∈ cs, ∃ d, Digit.hexadecimal? c = some d := by
  cases h with
  | literal _ _ _ _ hdigits =>
      obtain ⟨c, d, rest, hdigits, hc⟩ := hdigits.exists_cons
      exact ⟨c, by simp [hdigits], d, hc⟩

theorem IsMark.comma_notMem {mark : List Char} (h : IsMark mark) : ',' ∉ mark := by
  have hx {x : Char} (hx : x = 'x' ∨ x = 'X') : ',' ≠ x := by
    rcases hx with rfl | rfl <;> decide
  have hzero {zero : Char} (hzero : Digit.decimal? zero = some 0) : ',' ≠ zero := by
    rintro rfl
    cases hzero
  cases h with
  | missing => exact List.not_mem_nil
  | plain hz hm => simp [hzero hz, hx hm]
  | joined hz hm => simp [hzero hz, hx hm]

theorem Denotes.comma_notMem {cs : List Char} {n : Int} (h : Denotes cs n) : ',' ∉ cs := by
  cases h with
  | literal hbefore hafter hsign hmark hdigits =>
      have hmargin : ¬ Blank.isMargin ',' = true := by decide
      simp only [List.mem_append, not_or]
      refine ⟨⟨fun hc => hmargin (hbefore _ hc), ?_, hmark.comma_notMem, ?_⟩,
        fun hc => hmargin (hafter _ hc)⟩
      · cases hsign <;> decide
      · intro hc
        rcases hdigits.mem hc with hjoint | ⟨d, hd⟩
        · cases hjoint
        · cases hd

end IntegerLiteral

end Chip8
