import Chip8.Proofs.Effect
import Chip8.Proofs.Pattern

/-!
# Arithmetic with a flag

Six operations leave a flag beside their result.  They write the flag first and read their
operands again after that, so the flag register can be an operand, the result, or both.  This
module says for each of them what the two registers hold afterwards, in all of these cases.

When the flag register is neither operand, the result and the flag together are the exact
result: a sum is `VX + 256 * VF`, and a difference is `VX - 256 * VF`.  The subtraction `8XY5` is
no difference of this kind.  Its flag says that there was no borrow, and with a borrow it leaves
the result register as it was.
-/

namespace Chip8

namespace Machine

/-! ## The laws -/

def flagOf (condition : Prop) [Decidable condition] : Int :=
  if condition then 1 else 0

theorem flagOf_cases (condition : Prop) [Decidable condition] :
    (flagOf condition = 1 ∧ condition) ∨ (flagOf condition = 0 ∧ ¬ condition) := by
  unfold flagOf
  split
  next hholds => exact Or.inl ⟨rfl, hholds⟩
  next hfails => exact Or.inr ⟨rfl, hfails⟩

def carry (m : Machine) (x y : Int) : Int :=
  flagOf (0xFF < m.held x + m.held y)

def borrow (m : Machine) (x y : Int) : Int :=
  flagOf (m.held x < m.held y)

/-- Whether the index register passes the end of memory when a register is added to it. -/
def overrun (m : Machine) (x : Int) : Int :=
  flagOf (0xFFF < m.i + m.held x)

/-- `8XY4` leads from `m` to `m'`. -/
structure Adds (x y : Int) (m m' : Machine) : Prop where
  apart : x ≠ flagRegister → y ≠ flagRegister →
    m'.held x + 256 * m'.held flagRegister = m.held x + m.held y
  from_flag : x ≠ flagRegister → y = flagRegister →
    m'.held x = (m.held x + m.carry x y) % 256 ∧ m'.held flagRegister = m.carry x y
  to_flag : x = flagRegister → y ≠ flagRegister →
    m'.held flagRegister = (m.carry x y + m.held y) % 256
  twice : x = flagRegister → y = flagRegister → m'.held flagRegister = 2 * m.carry x y

/-- `8XY5` leads from `m` to `m'`. -/
structure Subtracts (x y : Int) (m m' : Machine) : Prop where
  apart : x ≠ flagRegister → y ≠ flagRegister →
    if m.held y ≤ m.held x then
      m'.held flagRegister = 1 ∧ m'.held x = m.held x - m.held y
    else m'.held flagRegister = 0 ∧ m'.held x = m.held x
  from_flag : x ≠ flagRegister → y = flagRegister →
    if m.held x < m.held y then m'.held flagRegister = 0 ∧ m'.held x = m.held x
    else m'.held flagRegister = 1 ∧ m'.held x = (m.held x - 1) % 256
  to_flag : x = flagRegister → y ≠ flagRegister →
    m'.held flagRegister = if m.held x < m.held y then 0 else (1 - m.held y) % 256
  twice : x = flagRegister → y = flagRegister → m'.held flagRegister = 0

/-- `8XY7` leads from `m` to `m'`. -/
structure SubtractsFrom (x y : Int) (m m' : Machine) : Prop where
  apart : x ≠ flagRegister → y ≠ flagRegister →
    m'.held x - 256 * m'.held flagRegister = m.held y - m.held x
  from_flag : x ≠ flagRegister → y = flagRegister →
    m'.held x = (m.borrow y x - m.held x) % 256 ∧ m'.held flagRegister = m.borrow y x
  to_flag : x = flagRegister → y ≠ flagRegister →
    m'.held flagRegister = (m.held y - m.borrow y x) % 256
  twice : x = flagRegister → y = flagRegister → m'.held flagRegister = 0

/-- `8XY6` leads from `m` to `m'`. -/
structure ShiftsRight (x : Int) (m m' : Machine) : Prop where
  apart : x ≠ flagRegister →
    2 * m'.held x + m'.held flagRegister = m.held x ∧ m'.held flagRegister ≤ 1
  to_flag : x = flagRegister → m'.held flagRegister = 0

/-- `8XYE` leads from `m` to `m'`. -/
structure ShiftsLeft (x : Int) (m m' : Machine) : Prop where
  apart : x ≠ flagRegister → m'.held x + 256 * m'.held flagRegister = 2 * m.held x
  to_flag : x = flagRegister → m'.held flagRegister = 2 * (m.held x / 128)

/-- `FX1E` leads from `m` to `m'`. -/
structure AddsToIndex (x : Int) (m m' : Machine) : Prop where
  flag : m'.held flagRegister = m.overrun x
  apart : x ≠ flagRegister → m'.i = (m.i + m.held x) % 65536
  from_flag : x = flagRegister → m'.i = (m.i + m.overrun x) % 65536

/-- A word completes, in a well-formed machine that a law allows. -/
def Yields (word : Int) (law : Machine → Machine → Prop) (m : Machine) : Prop :=
  ∃ m', Registry.run (decode word) m = .ok () m' ∧ m'.WellFormed ∧ law m m'

/-! ## The flag and the result -/

section

variable {m m' : Machine} {x y flag : Int}

theorem isRegister_flagRegister : IsRegister flagRegister := by
  decide

/-- What a register holds once the flag is written. -/
def reread (m : Machine) (flag x : Int) : Int :=
  if x = flagRegister then flag else m.held x

theorem held_flagged (h : m.WellFormed) (hx : IsRegister x) (hflag : flag % 256 = flag) :
    (m.holding flagRegister flag).held x = m.reread flag x := by
  unfold reread
  split
  next heq => rw [heq, held_holding h.size_v isRegister_flagRegister, hflag]
  next hne => exact held_holding_of_ne isRegister_flagRegister hx (Ne.symm hne) m flag

/-- The result is written after the flag, and over it if it goes into the flag register. -/
theorem held_result
    (h : m.WellFormed) (hx : IsRegister x) (hflag : flag % 256 = flag) {result : Int}
    (hv : m'.v = ((m.holding flagRegister flag).holding x result).v) :
    m'.held x = result % 256 ∧ (x ≠ flagRegister → m'.held flagRegister = flag) := by
  have hheld (number : Int) :
      m'.held number = ((m.holding flagRegister flag).holding x result).held number :=
    congrArg (fun v : Array Int => v.getD number.toNat 0) hv
  have hsize : (m.holding flagRegister flag).v.size = registerCount := by
    rw [size_holding, h.size_v]
  constructor
  · rw [hheld, held_holding hsize hx]
  · intro hne
    rw [hheld, held_holding_of_ne hx isRegister_flagRegister hne,
      held_holding h.size_v isRegister_flagRegister, hflag]

/-- What an operation with a flag leaves when it reads its operands after writing the flag. -/
theorem held_combined
    (h : m.WellFormed) (hx : IsRegister x) (hy : IsRegister y) (hflag : flag % 256 = flag)
    (combine : Int → Int → Int)
    (hv : m'.v =
      ((m.holding flagRegister flag).holding x (combine ((m.holding flagRegister flag).held x)
        ((m.holding flagRegister flag).held y))).v) :
    m'.held x = combine (m.reread flag x) (m.reread flag y) % 256 ∧
      (x ≠ flagRegister → m'.held flagRegister = flag) := by
  rw [held_flagged h hx hflag, held_flagged h hy hflag] at hv
  exact held_result h hx hflag hv

/-! ## The operations -/

theorem adds_of_v
    (h : m.WellFormed) (hx : IsRegister x) (hy : IsRegister y)
    (hv : m'.v =
      (let flagged := m.holding flagRegister (m.carry x y)
      flagged.holding x (flagged.held x + flagged.held y)).v) : Adds x y m m' := by
  have hxrange := h.held_range x
  have hyrange := h.held_range y
  have hcarry : (m.carry x y = 1 ∧ _) ∨ (m.carry x y = 0 ∧ _) :=
    flagOf_cases (0xFF < m.held x + m.held y)
  obtain ⟨hresult, hflag⟩ := held_combined h hx hy (by omega) (· + ·) hv
  dsimp only [reread] at hresult
  constructor
  · intro hxne hyne
    rw [if_neg hxne, if_neg hyne] at hresult
    have hflag' := hflag hxne
    omega
  · intro hxne hyeq
    rw [if_neg hxne, if_pos hyeq] at hresult
    exact ⟨hresult, hflag hxne⟩
  · rintro rfl hyne
    rw [if_pos rfl, if_neg hyne] at hresult
    exact hresult
  · rintro rfl rfl
    rw [if_pos rfl] at hresult
    omega

/-- With a borrow the result register is not written, so only the flag can be lost. -/
theorem subtracts_of_borrow
    (h : m.WellFormed) (hx : IsRegister x) (hborrow : m.held x < m.held y)
    (hv : m'.v = (m.holding flagRegister 0).v) : Subtracts x y m m' := by
  have hheld (number : Int) (hnumber : IsRegister number) : m'.held number = m.reread 0 number := by
    rw [← held_flagged h hnumber rfl]
    exact congrArg (fun v : Array Int => v.getD number.toNat 0) hv
  have hflag : m'.held flagRegister = 0 := hheld flagRegister isRegister_flagRegister
  have hkept (hxne : x ≠ flagRegister) : m'.held x = m.held x := by
    rw [hheld x hx, reread, if_neg hxne]
  constructor
  · intro hxne _
    rw [if_neg (by omega)]
    exact ⟨hflag, hkept hxne⟩
  · intro hxne _
    rw [if_pos hborrow]
    exact ⟨hflag, hkept hxne⟩
  · intro _ _
    rw [if_pos hborrow, hflag]
  · exact fun _ _ => hflag

theorem subtracts_of_v
    (h : m.WellFormed) (hx : IsRegister x) (hy : IsRegister y)
    (hv : m'.v =
      (if m.held x < m.held y then m.holding flagRegister 0
      else
        let flagged := m.holding flagRegister 1
        flagged.holding x (flagged.held x - flagged.held y)).v) : Subtracts x y m m' := by
  have hxrange := h.held_range x
  have hyrange := h.held_range y
  by_cases hborrow : m.held x < m.held y
  · rw [if_pos hborrow] at hv
    exact subtracts_of_borrow h hx hborrow hv
  rw [if_neg hborrow] at hv
  obtain ⟨hresult, hflag⟩ := held_combined h hx hy (by decide) (· - ·) hv
  dsimp only [reread] at hresult
  constructor
  · intro hxne hyne
    rw [if_neg hxne, if_neg hyne] at hresult
    rw [if_pos (by omega)]
    exact ⟨hflag hxne, by omega⟩
  · intro hxne hyeq
    rw [if_neg hxne, if_pos hyeq] at hresult
    rw [if_neg hborrow]
    exact ⟨hflag hxne, hresult⟩
  · rintro rfl hyne
    rw [if_pos rfl, if_neg hyne] at hresult
    rw [if_neg hborrow]
    exact hresult
  · rintro rfl rfl
    rw [if_pos rfl] at hresult
    exact hresult

theorem subtractsFrom_of_v
    (h : m.WellFormed) (hx : IsRegister x) (hy : IsRegister y)
    (hv : m'.v =
      (let flagged := m.holding flagRegister (m.borrow y x)
      flagged.holding x (flagged.held y - flagged.held x)).v) : SubtractsFrom x y m m' := by
  have hxrange := h.held_range x
  have hyrange := h.held_range y
  have hborrow : (m.borrow y x = 1 ∧ _) ∨ (m.borrow y x = 0 ∧ _) :=
    flagOf_cases (m.held y < m.held x)
  obtain ⟨hresult, hflag⟩ := held_combined h hx hy (by omega) (fun a b => b - a) hv
  dsimp only [reread] at hresult
  constructor
  · intro hxne hyne
    rw [if_neg hxne, if_neg hyne] at hresult
    have hflag' := hflag hxne
    omega
  · intro hxne hyeq
    rw [if_neg hxne, if_pos hyeq] at hresult
    exact ⟨hresult, hflag hxne⟩
  · rintro rfl hyne
    rw [if_pos rfl, if_neg hyne] at hresult
    exact hresult
  · rintro rfl rfl
    rw [if_pos rfl] at hresult
    omega

theorem shiftsRight_of_v
    (h : m.WellFormed) (hx : IsRegister x)
    (hv : m'.v =
      (let flagged := m.holding flagRegister (m.held x % 2)
      flagged.holding x (flagged.held x / 2)).v) : ShiftsRight x m m' := by
  have hxrange := h.held_range x
  obtain ⟨hresult, hflag⟩ := held_combined h hx hx (by omega) (fun a _ => a / 2) hv
  dsimp only [reread] at hresult
  constructor
  · intro hxne
    rw [if_neg hxne] at hresult
    have hflag' := hflag hxne
    omega
  · rintro rfl
    rw [if_pos rfl] at hresult
    omega

theorem shiftsLeft_of_v
    (h : m.WellFormed) (hx : IsRegister x)
    (hv : m'.v =
      (let flagged := m.holding flagRegister (m.held x / 128)
      flagged.holding x (flagged.held x * 2)).v) : ShiftsLeft x m m' := by
  have hxrange := h.held_range x
  obtain ⟨hresult, hflag⟩ := held_combined h hx hx (by omega) (fun a _ => a * 2) hv
  dsimp only [reread] at hresult
  constructor
  · intro hxne
    rw [if_neg hxne] at hresult
    have hflag' := hflag hxne
    omega
  · rintro rfl
    rw [if_pos rfl] at hresult
    omega

theorem addsToIndex_of_v
    (h : m.WellFormed) (hx : IsRegister x)
    (hv : m'.v = (m.holding flagRegister (m.overrun x)).v)
    (hi : m'.i = (m.i + (m.holding flagRegister (m.overrun x)).held x) % 65536) :
    AddsToIndex x m m' := by
  have hoverrun : (m.overrun x = 1 ∧ _) ∨ (m.overrun x = 0 ∧ _) :=
    flagOf_cases (0xFFF < m.i + m.held x)
  have hcut : m.overrun x % 256 = m.overrun x := by omega
  rw [held_flagged h hx hcut, reread] at hi
  constructor
  · calc
      m'.held flagRegister
      _ = (m.holding flagRegister (m.overrun x)).held flagRegister :=
          congrArg (fun v : Array Int => v.getD flagRegister 0) hv
      _ = m.overrun x := by rw [held_holding h.size_v isRegister_flagRegister, hcut]
  · intro hxne
    rw [if_neg hxne] at hi
    exact hi
  · intro hxeq
    rw [if_pos hxeq] at hi
    exact hi

/-! ## Words -/

theorem yields_of_ofWord
    {word : Int} {operation : Operation} {law : Machine → Machine → Prop} (h : m.WellFormed)
    (hword : Operation.ofWord word = operation) (hfine : ¬ operation.Faults word m)
    (hlaw : law m (operation.completed word m)) : Yields word law m := by
  subst hword
  exact ⟨_, Registry.run_decode_completes h word hfine,
    (Operation.continues_completed h _ hfine).toWellFormed, hlaw⟩

/-- A word with the digits of a pattern has its operation, and names the registers of its
second and third digit. -/
theorem yields_of_pattern
    (operation : Operation) {pattern : Pattern} {law : Machine → Machine → Prop}
    (h : m.WellFormed) (hpattern : pattern ∈ operation.pattern?)
    (hfine : ∀ word, ¬ operation.Faults word m) (x y last : Fin 16)
    (hlaw : ∀ word, Field.ofWord word .x = x → Field.ofWord word .y = pattern.third.getD y →
      law m (operation.completed word m)) : Yields (pattern.word x y last) law m :=
  yields_of_ofWord h (Operation.ofWord_of_fits hpattern (pattern.fits_word x y last)) (hfine _)
    (hlaw _ (pattern.ofWord_x_word x y last) (pattern.ofWord_y_word x y last))

theorem exists_digit (hx : IsRegister x) : ∃ digit : Fin 16, (digit : Int) = x := by
  have hlt : x < (16 : Int) := hx.2
  have hnonneg := hx.1
  exact ⟨⟨x.toNat, by omega⟩, Int.toNat_of_nonneg hnonneg⟩

end

/-! ## Main result -/

/-- The six operations with a flag, for all registers and all that they can hold. -/
theorem flag_arithmetic
    {m : Machine} (h : m.WellFormed) {x y : Int} (hx : IsRegister x) (hy : IsRegister y) :
    Yields (0x8000 + 0x100 * x + 0x10 * y + 0x4) (Adds x y) m ∧
      Yields (0x8000 + 0x100 * x + 0x10 * y + 0x5) (Subtracts x y) m ∧
      Yields (0x8000 + 0x100 * x + 0x10 * y + 0x7) (SubtractsFrom x y) m ∧
      Yields (0x8000 + 0x100 * x + 0x10 * y + 0x6) (ShiftsRight x) m ∧
      Yields (0x8000 + 0x100 * x + 0x10 * y + 0xE) (ShiftsLeft x) m ∧
      Yields (0xF01E + 0x100 * x) (AddsToIndex x) m := by
  obtain ⟨x, rfl⟩ := exists_digit hx
  obtain ⟨y, rfl⟩ := exists_digit hy
  have haddIndex : 0xF01E + 0x100 * (x : Int) =
      Pattern.word { first := 0xF, third := some 0x1, last := some 0xE } x 0 0 := by
    simp only [Pattern.word, Option.getD_some]
    omega
  rw [haddIndex]
  refine ⟨yields_of_pattern .add h rfl (fun _ => id) x y 0 ?adds,
    yields_of_pattern .subtract h rfl (fun _ => id) x y 0 ?subtracts,
    yields_of_pattern .subtractFrom h rfl (fun _ => id) x y 0 ?subtractsFrom,
    yields_of_pattern .shiftRight h rfl (fun _ => id) x y 0 ?shiftsRight,
    yields_of_pattern .shiftLeft h rfl (fun _ => id) x y 0 ?shiftsLeft,
    yields_of_pattern .addIndex h rfl (fun _ => id) x 0 0 ?addsToIndex⟩
  all_goals
    intro word hwx hwy
    rw [Option.getD] at hwy
  case adds =>
    have hcarry : m.carry x y = if 0xFF - m.held x < m.held y then 1 else 0 :=
      if_congr (by omega) rfl rfl
    apply adds_of_v h hx hy
    rw [hcarry, ← hwx, ← hwy]
    rfl
  case subtracts =>
    apply subtracts_of_v h hx hy
    rw [← hwx, ← hwy]
    rfl
  case subtractsFrom =>
    apply subtractsFrom_of_v h hx hy
    rw [← hwx, ← hwy]
    rfl
  case shiftsRight =>
    apply shiftsRight_of_v h hx
    rw [← hwx]
    rfl
  case shiftsLeft =>
    apply shiftsLeft_of_v h hx
    rw [← hwx]
    rfl
  case addsToIndex =>
    apply addsToIndex_of_v h hx
    · rw [← hwx]
      rfl
    · rw [← hwx]
      rfl

/-- A machine that holds two numbers with a sum beyond a byte, one of them in the flag
register. -/
def carrying : Machine where
  v := ((Array.replicate registerCount 0).setIfInBounds 0 200).setIfInBounds flagRegister 100
  random := { words := #[], position := 0 }

theorem wellFormed_carrying : carrying.WellFormed :=
  { wellFormed_zeroed carrying.random with
    size_v := by simp [carrying]
    v_range := by
      have hbytes : ∀ value ∈ carrying.v.toList, 0 ≤ value ∧ value ≤ 0xFF := by decide
      exact fun value hmem => hbytes value hmem.val }

/-- The sum of 200 and a flag register that held 100 is 201, since it holds the carry then. -/
theorem flag_arithmetic_carrying :
    ∃ m' : Machine, Registry.run (decode 0x80F4) carrying = .ok () m' ∧
      m'.held 0 = 201 ∧ m'.held flagRegister = 1 := by
  obtain ⟨⟨m', hrun, -, hadds⟩, -⟩ :=
    flag_arithmetic wellFormed_carrying (x := 0) (y := flagRegister) (by decide) (by decide)
  obtain ⟨hsum, hflag⟩ := hadds.from_flag (by decide) rfl
  have hcarry : carrying.carry 0 flagRegister = 1 := by decide
  have hheld : carrying.held 0 = 200 := by decide
  rw [hcarry, hheld] at hsum
  rw [hcarry] at hflag
  exact ⟨m', hrun, hsum, hflag⟩

end Machine

end Chip8
