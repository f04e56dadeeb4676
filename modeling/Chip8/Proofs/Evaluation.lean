import Chip8.Execute.Perform
import Chip8.Instruction.Decode
import Mathlib.Tactic.Common

/-!
# Evaluation of actions

This module says what the small actions of a machine do when the registers and the stack
have their sizes and the operands are given, as they are by an instruction word.  Together the
rules carry an instruction out symbolically, so that the modules below need not open these
actions again.
-/

namespace Chip8

/-! ## Sequencing -/

section

variable {ε σ α β : Type}

/-- The state that an action ends in, whether or not it fails. -/
def endState : EStateM.Result ε σ α → σ
  | .ok _ s => s
  | .error _ s => s

@[simp] theorem pure_apply (a : α) (s : σ) : (pure a : EStateM ε σ α) s = .ok a s := rfl

@[simp] theorem get_apply (s : σ) : (get : EStateM ε σ σ) s = .ok s s := rfl

@[simp] theorem modify_apply (f : σ → σ) (s : σ) :
    (modify f : EStateM ε σ Unit) s = .ok () (f s) := rfl

@[simp] theorem throw_apply (e : ε) (s : σ) :
    (throw e : EStateM ε σ α) s = .error e s := rfl

@[simp] theorem bind_apply (x : EStateM ε σ α) (f : α → EStateM ε σ β) (s : σ) :
    (x >>= f) s =
      match x s with
      | .ok a s' => f a s'
      | .error e s' => .error e s' := by
  change EStateM.bind x f s = _
  unfold EStateM.bind
  cases x s <;> rfl

@[simp] theorem ite_apply (c : Prop) [Decidable c] (x y : EStateM ε σ α) (s : σ) :
    (if c then x else y) s = if c then x s else y s := by
  split <;> rfl

end

namespace Machine

/-! ## Registers -/

/-- The value that a register holds. -/
def held (m : Machine) (number : Int) : Int :=
  m.v.getD number.toNat 0

/-- The machine with the low eight bits of a value in a register. -/
def holding (m : Machine) (number value : Int) : Machine :=
  { m with v := m.v.setIfInBounds number.toNat (value % 256) }

@[simp] theorem size_holding (m : Machine) (number value : Int) :
    (m.holding number value).v.size = m.v.size := by
  simp [holding]

@[simp] theorem pc_holding (m : Machine) (number value : Int) :
    (m.holding number value).pc = m.pc := rfl

@[simp] theorem i_holding (m : Machine) (number value : Int) :
    (m.holding number value).i = m.i := rfl

/-- A register holds the low eight bits of what was put into it. -/
theorem held_holding
    {m : Machine} (hsize : m.v.size = registerCount) {number : Int} (hnumber : IsRegister number)
    (value : Int) : (m.holding number value).held number = value % 256 := by
  have hin : number.toNat < m.v.size := by
    obtain ⟨hnonneg, hlt⟩ := hnumber
    omega
  simp [held, holding, Array.getD, hin]

theorem held_holding_of_ne
    {number other : Int} (hnumber : IsRegister number) (hother : IsRegister other)
    (hne : number ≠ other) (m : Machine) (value : Int) :
    (m.holding number value).held other = m.held other := by
  have hplace : number.toNat ≠ other.toNat := by
    have hnonneg := hnumber.1
    have hnonneg' := hother.1
    omega
  simp [held, holding, Array.getD_eq_getD_getElem?, Array.getElem?_setIfInBounds_ne hplace]

theorem register_apply
    {m : Machine} {number : Int}
    (hsize : m.v.size = registerCount) (hnumber : IsRegister number) :
    register number m = .ok (m.held number) m := by
  obtain ⟨hnonneg, hlt⟩ := hnumber
  simp only [register, Slot.place?, hsize, hnonneg, hlt, if_true, held]

theorem setRegister_apply
    {number : Int} (hnumber : IsRegister number) (value : Int) (m : Machine) :
    setRegister number value m = .ok () (m.holding number value) := by
  simp only [setRegister, hnumber, if_true, holding]

@[simp] theorem setFlag_apply (value : Int) (m : Machine) :
    setFlag value m = .ok () (m.holding flagRegister value) := rfl

/-! ## Memory -/

theorem readByte_apply {address : Int} (h : IsAddress address) (m : Machine) :
    readByte address m = .ok (m.memory.getD address.toNat 0) m := by
  simp only [readByte, h, if_true]

theorem readByte_eq_error {address : Int} (h : ¬ IsAddress address) (m : Machine) :
    readByte address m = .error (.fault (.memoryRead address)) m := by
  simp only [readByte, h, if_false]

/-! ## Operands -/

/-- The numbers of the registers that a word names. -/
theorem isRegister_x (word : Int) : IsRegister (Field.ofWord word .x) := by
  show 0 ≤ word / 256 % 16 ∧ word / 256 % 16 < 16
  omega

theorem isRegister_y (word : Int) : IsRegister (Field.ofWord word .y) := by
  show 0 ≤ word / 16 % 16 ∧ word / 16 % 16 < 16
  omega

theorem need_apply
    {operands : Operands} {field : Field} {value : Int} (h : operands.get? field = some value)
    (m : Machine) : operands.need field m = .ok value m := by
  simp only [Operands.need, h]

theorem needRegister_apply
    {m : Machine} (hsize : m.v.size = registerCount) {operands : Operands} {field : Field}
    {number : Int} (h : operands.get? field = some number) (hnumber : IsRegister number) :
    operands.needRegister field m = .ok (m.held number) m := by
  rw [Operands.needRegister, bind_apply, need_apply h]
  exact register_apply hsize hnumber

@[simp] theorem need_ofWord (word : Int) (field : Field) (m : Machine) :
    (Operands.ofWord word).need field m = .ok (Field.ofWord word field) m :=
  need_apply (Operands.get?_ofWord word field) m

theorem needRegister_x
    {m : Machine} (hsize : m.v.size = registerCount) (word : Int) :
    (Operands.ofWord word).needRegister .x m = .ok (m.held (Field.ofWord word .x)) m :=
  needRegister_apply hsize (Operands.get?_ofWord word .x) (isRegister_x word)

theorem needRegister_y
    {m : Machine} (hsize : m.v.size = registerCount) (word : Int) :
    (Operands.ofWord word).needRegister .y m = .ok (m.held (Field.ofWord word .y)) m :=
  needRegister_apply hsize (Operands.get?_ofWord word .y) (isRegister_y word)

end Machine

end Chip8
