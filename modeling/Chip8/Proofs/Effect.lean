import Chip8.Proofs.Preservation
import Chip8.Proofs.Sprite
import Chip8.Proofs.Transfer
import Chip8.Registry

/-!
# What an instruction does

This module says for every instruction word when its instruction faults, what a fault leaves
of it, and which machine it ends in when it completes.  The next program counter is given
before it is cut to sixteen bits.  The main results are `run_decode_completes` and
`run_decode_faults`; later modules use them in place of the operations' own definitions.
-/

namespace Chip8

namespace Operation

/-! ## Faults -/

/-- When the instruction of a word faults. -/
def Faults (operation : Operation) (word : Int) (m : Machine) : Prop :=
  let x := Field.ofWord word .x
  match operation with
  | ret => m.sp = 0
  | call => m.sp = stackDepth
  | skipIfPressed | skipUnlessPressed => 15 < m.held x
  | storeDecimal => 0xFFD < m.i
  | storeRegisters | loadRegisters => 0xFFF < m.i + x
  | draw =>
      m.held x < 64 ∧ m.held (Field.ofWord word .y) < 32 ∧
        ∃ row : Nat, row < (Field.ofWord word .n).toNat ∧
          (0xFFF < m.i + row ∨
            (m.i + row ≤ 0xFFF ∧ ∃ column : Nat, column < 8 ∧
              Execute.spriteBit (m.memory.getD (m.i + row).toNat 0) column = true ∧
              (64 ≤ m.held x + column ∨ 32 ≤ m.held (Field.ofWord word .y) + row)))
  | _ => False

instance (operation : Operation) (word : Int) (m : Machine) :
    Decidable (operation.Faults word m) :=
  match operation with
  | ret => inferInstanceAs (Decidable (m.sp = 0))
  | call => inferInstanceAs (Decidable (m.sp = stackDepth))
  | skipIfPressed | skipUnlessPressed =>
      inferInstanceAs (Decidable (15 < m.held (Field.ofWord word .x)))
  | storeDecimal => inferInstanceAs (Decidable (0xFFD < m.i))
  | storeRegisters | loadRegisters =>
      inferInstanceAs (Decidable (0xFFF < m.i + Field.ofWord word .x))
  | draw => inferInstanceAs (Decidable (_ ∧ _ ∧ ∃ row : Nat, row < _ ∧ (_ ∨ (_ ∧ _))))
  | clear | jump | skipIfByte | skipUnlessByte | skipIfEqual | loadByte | addByte | copy | bitOr
  | bitAnd | bitXor | add | subtract | shiftRight | subtractFrom | shiftLeft | skipUnlessEqual
  | loadIndex | jumpBeyond | random | readDelay | awaitKey | setDelay | setSound | addIndex
  | loadGlyph | unrecognized => inferInstanceAs (Decidable False)

/-- What a fault leaves of an instruction: the bytes, the registers or the pixels that come
before the one that failed are done. -/
def remnant (operation : Operation) (word : Int) (m : Machine) : Machine :=
  let x := Field.ofWord word .x
  match operation with
  | storeDecimal => m.storing m.i.toNat (Machine.decimalDigits (m.held x))
  | storeRegisters => m.storing m.i.toNat (m.heldFrom 0 (x + 1).toNat)
  | loadRegisters => m.loading 0 (x + 1).toNat
  | draw =>
      m.drawing (m.held x) (m.held (Field.ofWord word .y)) (Field.ofWord word .n).toNat
  | _ => m

/-- A fault leaves everything but memory, registers and screen as it was. -/
theorem remnant_eq (operation : Operation) (word : Int) (m : Machine) :
    operation.remnant word m =
      { m with
        memory := (operation.remnant word m).memory
        v := (operation.remnant word m).v
        screen := (operation.remnant word m).screen } := by
  cases operation <;> rfl

/-- What an instruction reports if it faults. -/
def cause (operation : Operation) (word : Int) (m : Machine) : Option Fault :=
  let x := Field.ofWord word .x
  let y := Field.ofWord word .y
  match operation with
  | ret => some (.stackUnderflow m.pc)
  | call => some (.stackOverflow m.sp m.pc)
  | skipIfPressed | skipUnlessPressed => some (.keyOutside (m.held x) m.pc)
  | storeDecimal | storeRegisters => some (.memoryWrite (max m.i memorySize))
  | loadRegisters => some (.memoryRead (max m.i memorySize))
  | draw =>
      let failing := (Machine.spriteCells (Field.ofWord word .n).toNat).find? fun cell =>
        m.CellFails (m.held x) (m.held y) cell
      failing.map (m.cellFault (m.held x) (m.held y))
  | _ => none

/-! ## Completion -/

/-- The machine after an instruction that completes, apart from the program counter.  The
operations with a flag write it first, and their operands are read again after that. -/
def effect (operation : Operation) (word : Int) (m : Machine) : Machine :=
  let x := Field.ofWord word .x
  let y := Field.ofWord word .y
  let byte := Field.ofWord word .nn
  match operation with
  | clear => { m with screen := darkScreen }
  | ret => { m with sp := m.sp - 1 }
  | call =>
      { m with stack := m.stack.setIfInBounds m.sp.toNat (m.pc % 65536), sp := m.sp + 1 }
  | loadByte => m.holding x byte
  | addByte => m.holding x (m.held x + byte)
  | copy => m.holding x (m.held y)
  | bitOr => m.holding x (UInt8.ofInt (m.held x) ||| UInt8.ofInt (m.held y)).toNat
  | bitAnd => m.holding x (UInt8.ofInt (m.held x) &&& UInt8.ofInt (m.held y)).toNat
  | bitXor => m.holding x (UInt8.ofInt (m.held x) ^^^ UInt8.ofInt (m.held y)).toNat
  | add =>
      let flagged := m.holding flagRegister (if 0xFF - m.held x < m.held y then 1 else 0)
      flagged.holding x (flagged.held x + flagged.held y)
  | subtract =>
      if m.held x < m.held y then m.holding flagRegister 0
      else
        let flagged := m.holding flagRegister 1
        flagged.holding x (flagged.held x - flagged.held y)
  | subtractFrom =>
      let flagged := m.holding flagRegister (if m.held y < m.held x then 1 else 0)
      flagged.holding x (flagged.held y - flagged.held x)
  | shiftRight =>
      let flagged := m.holding flagRegister (m.held x % 2)
      flagged.holding x (flagged.held x / 2)
  | shiftLeft =>
      let flagged := m.holding flagRegister (m.held x / 128)
      flagged.holding x (flagged.held x * 2)
  | loadIndex => { m with i := Field.ofWord word .nnn % 65536 }
  | random =>
      { m with random := m.random.nextByte.2 }.holding x
        (m.random.nextByte.1 &&& UInt8.ofInt byte).toNat
  | draw =>
      if m.held x < screenWidth ∧ m.held y < screenHeight then draw.remnant word m else m
  | readDelay => m.holding x m.delay
  | awaitKey =>
      match m.pressedKey with
      | some key => m.holding x key
      | none => { m with runState := .awaitingKey, keyRegister := some x }
  | setDelay => { m with delay := m.held x }
  | setSound => { m with sound := m.held x }
  | addIndex =>
      let flagged := m.holding flagRegister (if 0xFFF < m.i + m.held x then 1 else 0)
      { flagged with i := (m.i + flagged.held x) % 65536 }
  | loadGlyph => { m with i := m.held x * glyphSize % 65536 }
  | storeDecimal => storeDecimal.remnant word m
  | storeRegisters => { storeRegisters.remnant word m with i := (m.i + x + 1) % 65536 }
  | loadRegisters => { loadRegisters.remnant word m with i := (m.i + x + 1) % 65536 }
  | jump | skipIfByte | skipUnlessByte | skipIfEqual | skipUnlessEqual | jumpBeyond
  | skipIfPressed | skipUnlessPressed | unrecognized => m

/-- Where an instruction that completes goes on, before that is cut to sixteen bits. -/
def target (operation : Operation) (word : Int) (m : Machine) : Int :=
  let x := Field.ofWord word .x
  let y := Field.ofWord word .y
  let byte := Field.ofWord word .nn
  match operation with
  | ret => m.stack.getD (m.sp - 1).toNat 0 + 2
  | jump | call => Field.ofWord word .nnn
  | jumpBeyond => Field.ofWord word .nnn + m.held 0
  | skipIfByte => m.pc + if m.held x = byte then 4 else 2
  | skipUnlessByte => m.pc + if m.held x = byte then 2 else 4
  | skipIfEqual => m.pc + if m.held x = m.held y then 4 else 2
  | skipUnlessEqual => m.pc + if m.held x = m.held y then 2 else 4
  | skipIfPressed => m.pc + if m.keys.getD (m.held x).toNat false then 4 else 2
  | skipUnlessPressed => m.pc + if m.keys.getD (m.held x).toNat false then 2 else 4
  | awaitKey => if m.pressedKey.isSome then m.pc + 2 else m.pc
  | unrecognized => m.pc
  | _ => m.pc + 2

def completed (operation : Operation) (word : Int) (m : Machine) : Machine :=
  { operation.effect word m with pc := operation.target word m % 65536 }

def movesIndex : Operation → Bool
  | loadIndex | addIndex | loadGlyph | storeRegisters | loadRegisters => true
  | _ => false

/-- Beside the registers an instruction changes what its operation is there to change.  Two
operations write to memory and two to the screen, and one draws a random byte.  Calls and
returns work on the stack, two operations set the timers, and a key wait without a pressed key
ends the running state. -/
theorem effect_eq (operation : Operation) (word : Int) (m : Machine) :
    operation.effect word m =
      { operation.effect word m with
        pc := m.pc
        opcode := m.opcode
        keys := m.keys
        cycles := m.cycles
        programLength := m.programLength
        memory :=
          if operation = storeDecimal ∨ operation = storeRegisters then
            (operation.effect word m).memory
          else m.memory
        screen :=
          if operation = clear ∨ operation = draw then (operation.effect word m).screen
          else m.screen
        i := if operation.movesIndex then (operation.effect word m).i else m.i
        random := if operation = random then m.random.nextByte.2 else m.random
        sp :=
          if operation = call then m.sp + 1 else if operation = ret then m.sp - 1 else m.sp
        stack :=
          if operation = call then m.stack.setIfInBounds m.sp.toNat (m.pc % 65536) else m.stack
        delay := if operation = setDelay then m.held (Field.ofWord word .x) else m.delay
        sound := if operation = setSound then m.held (Field.ofWord word .x) else m.sound
        runState :=
          if operation = awaitKey ∧ m.pressedKey = none then .awaitingKey else m.runState
        keyRegister :=
          if operation = awaitKey ∧ m.pressedKey = none then some (Field.ofWord word .x)
          else m.keyRegister } := by
  cases operation with
  | subtract | draw =>
      simp only [effect]
      split <;> rfl
  | awaitKey => cases hkey : m.pressedKey <;> simp [effect, hkey, Machine.holding, movesIndex]
  | _ => rfl

theorem sp_effect (operation : Operation) (word : Int) (m : Machine) :
    (operation.effect word m).sp =
      if operation = call then m.sp + 1 else if operation = ret then m.sp - 1 else m.sp :=
  congrArg Machine.sp (effect_eq operation word m)

/-- Only a call writes to the stack. -/
theorem stack_effect (operation : Operation) (word : Int) (m : Machine) :
    (operation.effect word m).stack =
      if operation = call then m.stack.setIfInBounds m.sp.toNat (m.pc % 65536) else m.stack :=
  congrArg Machine.stack (effect_eq operation word m)

theorem delay_effect (operation : Operation) (word : Int) (m : Machine) :
    (operation.effect word m).delay =
      if operation = setDelay then m.held (Field.ofWord word .x) else m.delay :=
  congrArg Machine.delay (effect_eq operation word m)

theorem sound_effect (operation : Operation) (word : Int) (m : Machine) :
    (operation.effect word m).sound =
      if operation = setSound then m.held (Field.ofWord word .x) else m.sound :=
  congrArg Machine.sound (effect_eq operation word m)

/-- Only a key wait without a pressed key ends the running state. -/
theorem runState_effect (operation : Operation) (word : Int) (m : Machine) :
    (operation.effect word m).runState =
      if operation = awaitKey ∧ m.pressedKey = none then .awaitingKey else m.runState :=
  congrArg Machine.runState (effect_eq operation word m)

theorem cycles_effect (operation : Operation) (word : Int) (m : Machine) :
    (operation.effect word m).cycles = m.cycles := by
  rw [effect_eq]

theorem keyRegister_effect (operation : Operation) (word : Int) (m : Machine) :
    (operation.effect word m).keyRegister =
      if operation = awaitKey ∧ m.pressedKey = none then some (Field.ofWord word .x)
      else m.keyRegister :=
  congrArg Machine.keyRegister (effect_eq operation word m)

/-- Only one operation draws from the random source. -/
theorem random_effect (operation : Operation) (word : Int) (m : Machine) :
    (operation.effect word m).random =
      if operation = random then m.random.nextByte.2 else m.random :=
  congrArg Machine.random (effect_eq operation word m)

section

open Machine

variable {m : Machine} {word : Int}

/-- An instruction that is no return and has a whole word leads no further than `0x10FE`. -/
theorem target_range
    {operation : Operation} (h : m.WellFormed) (hpc : m.pc ≤ 0xFFE) (hother : operation ≠ ret)
    (word : Int) : 0 ≤ operation.target word m ∧ operation.target word m ≤ 0x10FE := by
  have hnonneg := h.pc_range.1
  have haddress : 0 ≤ Field.ofWord word .nnn ∧ Field.ofWord word .nnn ≤ 0xFFF := by
    show 0 ≤ word % 4096 ∧ word % 4096 ≤ 0xFFF
    omega
  have hfirst := h.held_range 0
  cases operation with
  | ret => exact absurd rfl hother
  | jump | call =>
      show 0 ≤ Field.ofWord word .nnn ∧ Field.ofWord word .nnn ≤ 0x10FE
      omega
  | jumpBeyond =>
      show 0 ≤ Field.ofWord word .nnn + m.held 0 ∧ Field.ofWord word .nnn + m.held 0 ≤ 0x10FE
      omega
  | _ =>
      simp only [target]
      omega

/-! ## The operations that take more than one step to evaluate -/

theorem perform_ret (h : m.WellFormed) :
    ret.perform (.ofWord word) m =
      if m.sp = 0 then .error (.fault (.stackUnderflow m.pc)) m
      else .ok () (ret.completed word m) := by
  obtain ⟨hnonneg, hle⟩ := h.sp_range
  by_cases hsp : m.sp = 0
  · simp [perform, Execute.ret, pop, hsp]
  · have hplace : Slot.place? m.stack.size (m.sp - 1) = some (m.sp - 1).toNat := by
      rw [h.size_stack, Slot.place?, if_pos (by omega), if_pos (by show m.sp - 1 < 16; omega)]
    have hused : ¬ m.sp ≤ 0 := by omega
    simp [perform, Execute.ret, pop, hsp, hused, hplace, setPc, advance, completed, effect,
      target]

theorem perform_call (h : m.WellFormed) :
    call.perform (.ofWord word) m =
      if m.sp = stackDepth then .error (.fault (.stackOverflow m.sp m.pc)) m
      else .ok () (call.completed word m) := by
  obtain ⟨hnonneg, hle⟩ := h.sp_range
  by_cases hsp : m.sp = 16
  · simp [perform, Execute.call, push, hsp]
  · have hplace : Slot.place? m.stack.size m.sp = some m.sp.toNat := by
      rw [h.size_stack, Slot.place?, if_pos hnonneg, if_pos (by show m.sp < 16; omega)]
    have hroom : ¬ 16 ≤ m.sp := by omega
    simp [perform, Execute.call, push, hsp, hroom, hplace, setPc, completed, effect, target]

theorem skipKey_ofWord (h : m.WellFormed) (wanted : Bool) :
    Execute.skipKey wanted (.ofWord word) m =
      let key := m.held (Field.ofWord word .x)
      if 15 < key then .error (.fault (.keyOutside key m.pc)) m
      else advance (if m.keys.getD key.toNat false == wanted then 4 else 2) m := by
  have hkey := (h.held_range (Field.ofWord word .x)).1
  by_cases hlt : 15 < m.held (Field.ofWord word .x)
  · have hout : ¬ IsKey (m.held (Field.ofWord word .x)) := by
      rintro ⟨-, hin⟩
      have hin' : m.held (Field.ofWord word .x) < (16 : Int) := hin
      omega
    simp [Execute.skipKey, needRegister_x h.size_v, isKeyPressed, hout, hlt]
  · have hin : IsKey (m.held (Field.ofWord word .x)) := by
      refine ⟨hkey, ?_⟩
      show m.held (Field.ofWord word .x) < 16
      omega
    simp [Execute.skipKey, Execute.skipIf, needRegister_x h.size_v, isKeyPressed, hin, hlt]

theorem perform_awaitKey : awaitKey.perform (.ofWord word) m =
    if m.pressedKey.isSome then .ok () (awaitKey.completed word m)
    else .ok () { awaitKey.effect word m with pc := m.pc } := by
  cases hkey : m.pressedKey with
  | some key =>
      simp [perform, Execute.awaitKey, hkey, setRegister_apply (isRegister_x word), advance,
        completed, effect, target]
  | none => simp [perform, Execute.awaitKey, hkey, beginWait, waitIn, effect]

theorem perform_storeDecimal (h : m.WellFormed) :
    storeDecimal.perform (.ofWord word) m =
      if 0xFFD < m.i then
        .error (.fault (.memoryWrite (max m.i memorySize))) (storeDecimal.remnant word m)
      else .ok () (storeDecimal.completed word m) := by
  have hwrite := writeFrom_apply h.size_memory h.i_range.1 0
    (decimalDigits (m.held (Field.ofWord word .x)))
  have hfits : (decimalDigits (m.held (Field.ofWord word .x)) = [] ∨
      m.i + (0 : Nat) + (decimalDigits (m.held (Field.ofWord word .x))).length ≤ memorySize) ↔
      ¬ 0xFFD < m.i := by
    show (_ ∨ m.i + (0 : Nat) + (3 : Nat) ≤ (4096 : Int)) ↔ _
    constructor
    · rintro (hnil | hfits)
      · cases hnil
      · omega
    · exact fun hfits => Or.inr (by omega)
  simp only [hfits] at hwrite
  rw [perform, storeDecimal_eq h.size_v]
  by_cases hi : 0xFFD < m.i
  · simp [hwrite, hi, remnant]
  · simp [hwrite, hi, advance, completed, effect, remnant, target, storing]

theorem toNat_x_add_one (word : Int) :
    ((Field.ofWord word .x + 1).toNat : Int) = Field.ofWord word .x + 1 ∧
      (Field.ofWord word .x + 1).toNat ≤ 16 := by
  obtain ⟨hnonneg, hlt⟩ := isRegister_x word
  have hlt' : Field.ofWord word .x < (16 : Int) := hlt
  omega

/-- The registers up to the one that a word names first fit behind the index register. -/
theorem transfer_fits_iff (m : Machine) (word : Int) :
    ((Field.ofWord word .x + 1).toNat = 0 ∨
        m.i + (0 : Nat) + (Field.ofWord word .x + 1).toNat ≤ memorySize) ↔
      ¬ 0xFFF < m.i + Field.ofWord word .x := by
  have hcount := (toNat_x_add_one word).1
  have hnonneg := (isRegister_x word).1
  show (_ ∨ m.i + (0 : Nat) + ((Field.ofWord word .x + 1).toNat : Int) ≤ 4096) ↔ _
  omega

theorem perform_storeRegisters (h : m.WellFormed) :
    storeRegisters.perform (.ofWord word) m =
      if 0xFFF < m.i + Field.ofWord word .x then
        .error (.fault (.memoryWrite (max m.i memorySize))) (storeRegisters.remnant word m)
      else .ok () (storeRegisters.completed word m) := by
  have hle := (toNat_x_add_one word).2
  have hsweep := sweep_storeRegister m h.size_v (Field.ofWord word .x + 1).toNat 0 (by omega) m
    rfl
  rw [writeFrom_apply h.size_memory h.i_range.1, length_heldFrom] at hsweep
  simp only [heldFrom_eq_nil_iff, transfer_fits_iff] at hsweep
  by_cases hi : 0xFFF < m.i + Field.ofWord word .x
  · simp [perform, Execute.transfer, hsweep, hi, remnant]
  · simp [perform, Execute.transfer, hsweep, hi, setIndex, advance, completed, effect, remnant,
      target, storing]

theorem perform_loadRegisters (hv : m.v.size = registerCount) (hi : 0 ≤ m.i) :
    loadRegisters.perform (.ofWord word) m =
      if 0xFFF < m.i + Field.ofWord word .x then
        .error (.fault (.memoryRead (max m.i memorySize))) (loadRegisters.remnant word m)
      else .ok () (loadRegisters.completed word m) := by
  have hle := (toNat_x_add_one word).2
  have hsweep := sweep_loadRegister hv hi (Field.ofWord word .x + 1).toNat 0 (by omega)
  simp only [transfer_fits_iff] at hsweep
  by_cases hout : 0xFFF < m.i + Field.ofWord word .x
  · simp [perform, Execute.transfer, hsweep, hout, remnant]
  · simp [perform, Execute.transfer, hsweep, hout, setIndex, advance, completed, effect, remnant,
      target, loading]

/-- Drawing faults exactly when a cell of a sprite that starts on the screen fails. -/
theorem faults_draw_iff (h : m.WellFormed) :
    draw.Faults word m ↔
      m.held (Field.ofWord word .x) < 64 ∧ m.held (Field.ofWord word .y) < 32 ∧
        ∃ cell ∈ Machine.spriteCells (Field.ofWord word .n).toNat,
          m.CellFails (m.held (Field.ofWord word .x)) (m.held (Field.ofWord word .y)) cell := by
  have hi := h.i_range.1
  have hx := (h.held_range (Field.ofWord word .x)).1
  have hy := (h.held_range (Field.ofWord word .y)).1
  have haddress (row : Nat) : IsAddress (m.i + row) ↔ m.i + row ≤ 0xFFF := by
    show 0 ≤ m.i + row ∧ m.i + row < 4096 ↔ _
    omega
  simp only [Faults]
  generalize m.held (Field.ofWord word .x) = x at hx ⊢
  generalize m.held (Field.ofWord word .y) = y at hy ⊢
  have hpixel (cell : Nat × Nat) :
      ¬ IsPixel (x + cell.2) (y + cell.1) ↔ 64 ≤ x + cell.2 ∨ 32 ≤ y + cell.1 := by
    show ¬ (0 ≤ x + (cell.2 : Int) ∧ x + cell.2 < 64 ∧ 0 ≤ y + (cell.1 : Int) ∧
      y + cell.1 < 32) ↔ _
    omega
  refine and_congr_right fun _ => and_congr_right fun _ => ?_
  constructor
  · rintro ⟨row, hrow, hout | ⟨hin, column, hcolumn, hset, hoff⟩⟩
    · refine ⟨(row, 0), mem_spriteCells.mpr ⟨by omega, by omega⟩, Or.inl ?_⟩
      rw [haddress]
      omega
    · refine ⟨(row, column), mem_spriteCells.mpr ⟨by omega, hcolumn⟩, Or.inr ⟨hset, ?_⟩⟩
      exact (hpixel (row, column)).mpr hoff
  · rintro ⟨⟨row, column⟩, hmem, hfails⟩
    obtain ⟨hrow, hcolumn⟩ := mem_spriteCells.mp hmem
    refine ⟨row, by omega, ?_⟩
    by_cases hin : m.i + row ≤ 0xFFF
    · rcases hfails with hout | ⟨hset, hoff⟩
      · exact absurd ((haddress row).mpr hin) hout
      · exact Or.inr ⟨hin, column, hcolumn, hset, (hpixel (row, column)).mp hoff⟩
    · exact Or.inl (by omega)

/-- A sprite that starts on the screen is drawn to its end unless one of its cells fails. -/
theorem perform_draw_completes (h : m.WellFormed) (hfine : ¬ draw.Faults word m) :
    draw.perform (.ofWord word) m = .ok () (draw.completed word m) := by
  rw [perform, draw_ofWord h]
  dsimp only
  by_cases hstart : m.held (Field.ofWord word .x) < screenWidth ∧
      m.held (Field.ofWord word .y) < screenHeight
  · have hnone : ((spriteCells (Field.ofWord word .n).toNat).find? fun cell =>
        m.CellFails (m.held (Field.ofWord word .x)) (m.held (Field.ofWord word .y)) cell) =
          none := by
      rw [List.find?_eq_none]
      intro cell hcell hfails
      exact hfine ((faults_draw_iff h).mpr
        ⟨hstart.1, hstart.2, cell, hcell, of_decide_eq_true hfails⟩)
    rw [if_pos hstart, hnone]
    simp only [advance, completed, effect, remnant, target, if_pos hstart]
    rfl
  · rw [if_neg hstart]
    simp only [advance, completed, effect, target, if_neg hstart]

/-- A sprite that starts on the screen is drawn up to the first cell that fails. -/
theorem perform_draw_faults (h : m.WellFormed) (hfault : draw.Faults word m) :
    ∃ fault ∈ draw.cause word m,
      draw.perform (.ofWord word) m = .error (.fault fault) (draw.remnant word m) := by
  obtain ⟨hx, hy, cell, hcell, hfails⟩ := (faults_draw_iff h).mp hfault
  have hstart : m.held (Field.ofWord word .x) < screenWidth ∧
      m.held (Field.ofWord word .y) < screenHeight := ⟨hx, hy⟩
  have hsome : ((spriteCells (Field.ofWord word .n).toNat).find? fun cell =>
      m.CellFails (m.held (Field.ofWord word .x))
        (m.held (Field.ofWord word .y)) cell).isSome := by
    rw [List.find?_isSome]
    exact ⟨cell, hcell, decide_eq_true hfails⟩
  obtain ⟨first, hfirst⟩ := Option.isSome_iff_exists.mp hsome
  refine ⟨m.cellFault (m.held (Field.ofWord word .x)) (m.held (Field.ofWord word .y)) first,
    ?_, ?_⟩
  · simp only [cause, hfirst, Option.map_some, Option.mem_def]
  · rw [perform, draw_ofWord h]
    dsimp only
    rw [if_pos hstart, hfirst]
    rfl

/-! ## Main results -/

/-- An instruction that does not fault completes. -/
theorem perform_completes
    (h : m.WellFormed) (operation : Operation) (hfine : ¬ operation.Faults word m) :
    operation.perform (.ofWord word) m = .ok () (operation.completed word m) := by
  have hx := isRegister_x word
  have hy := isRegister_y word
  have hv := h.size_v
  have hpc := h.pc_mod
  cases operation with
  | clear => simp [perform, Execute.clear, clearScreen, advance, completed, effect, target]
  | ret =>
      have hused : ¬ m.sp = 0 := hfine
      rw [perform_ret h, if_neg hused]
  | jump => simp [perform, Execute.jump, setPc, completed, effect, target]
  | call =>
      have hroom : ¬ m.sp = stackDepth := hfine
      rw [perform_call h, if_neg hroom]
  | skipIfByte | skipUnlessByte =>
      simp [perform, Execute.skipByte, Execute.skipIf, needRegister_x hv, advance, completed,
        effect, target]
  | skipIfEqual | skipUnlessEqual =>
      simp [perform, Execute.skipRegister, Execute.skipIf, needRegister_x hv, needRegister_y hv,
        advance, completed, effect, target]
  | loadByte =>
      simp [perform, Execute.loadByte, setRegister_apply hx, advance, completed, effect, target]
  | addByte =>
      simp [perform, Execute.addByte, register_apply hv hx, setRegister_apply hx, advance,
        completed, effect, target]
  | copy =>
      simp [perform, Execute.copy, needRegister_y hv, setRegister_apply hx, advance, completed,
        effect, target]
  | bitOr | bitAnd | bitXor =>
      simp [perform, Execute.bitwise, register_apply hv hx, needRegister_y hv,
        setRegister_apply hx, advance, completed, effect, target]
  | add =>
      simp [perform, Execute.add, register_apply, hv, hx, hy, setRegister_apply, advance,
        completed, effect, target]
  | subtract =>
      by_cases hborrow : m.held (Field.ofWord word .x) < m.held (Field.ofWord word .y)
      · simp [perform, Execute.subtract, register_apply, hv, hx, hy, hborrow, advance, completed,
          effect, target]
      · simp [perform, Execute.subtract, register_apply, hv, hx, hy, hborrow, setRegister_apply,
          advance, completed, effect, target]
  | shiftRight =>
      simp [perform, Execute.shiftRight, register_apply, hv, hx, setRegister_apply, advance,
        completed, effect, target]
  | subtractFrom =>
      simp [perform, Execute.subtractFrom, register_apply, hv, hx, hy, setRegister_apply, advance,
        completed, effect, target]
  | shiftLeft =>
      simp [perform, Execute.shiftLeft, register_apply, hv, hx, setRegister_apply, advance,
        completed, effect, target]
  | loadIndex => simp [perform, Execute.loadIndex, setIndex, advance, completed, effect, target]
  | jumpBeyond =>
      have hfirst : IsRegister 0 := by decide
      simp [perform, Execute.jumpBeyond, register_apply hv hfirst, setPc, completed, effect,
        target]
  | random =>
      simp [perform, Execute.random, drawByte, setRegister_apply hx, advance, completed, effect,
        target]
  | draw => exact perform_draw_completes h hfine
  | skipIfPressed | skipUnlessPressed =>
      have hkey : ¬ 15 < m.held (Field.ofWord word .x) := hfine
      simp only [perform, skipKey_ofWord h, if_neg hkey, advance, completed, effect, target]
      cases m.keys.getD (m.held (Field.ofWord word .x)).toNat false <;> rfl
  | readDelay =>
      simp [perform, Execute.readDelay, setRegister_apply hx, advance, completed, effect, target]
  | awaitKey =>
      cases hkey : m.pressedKey with
      | some key => simp [perform_awaitKey, hkey]
      | none => simp [perform_awaitKey, hkey, completed, target, hpc]
  | setDelay =>
      simp [perform, Execute.setDelay, needRegister_x hv, Machine.setDelay, advance, completed,
        effect, target]
  | setSound =>
      simp [perform, Execute.setSound, needRegister_x hv, Machine.setSound, advance, completed,
        effect, target]
  | addIndex =>
      simp [perform, Execute.addIndex, register_apply, hv, hx, setIndex, advance, completed,
        effect, target]
  | loadGlyph =>
      simp [perform, Execute.loadGlyph, needRegister_x hv, setIndex, advance, completed, effect,
        target]
  | storeDecimal =>
      have hfits : ¬ 0xFFD < m.i := hfine
      rw [perform_storeDecimal h, if_neg hfits]
  | storeRegisters =>
      have hfits : ¬ 0xFFF < m.i + Field.ofWord word .x := hfine
      rw [perform_storeRegisters h, if_neg hfits]
  | loadRegisters =>
      have hfits : ¬ 0xFFF < m.i + Field.ofWord word .x := hfine
      rw [perform_loadRegisters hv h.i_range.1, if_neg hfits]
  | unrecognized => simp [perform, completed, effect, target, hpc]

/-- The machine after an instruction that completes is well-formed again, and has the keys,
the fetched word and the counters that it had before. -/
theorem continues_completed
    (h : m.WellFormed) (operation : Operation) (hfine : ¬ operation.Faults word m) :
    Continues m (operation.completed word m) := by
  have hkeeps := keeps_perform (.ofWord word) operation m h.continues_self
  rw [perform_completes h operation hfine] at hkeeps
  exact hkeeps.1

theorem perform_faults
    (h : m.WellFormed) (operation : Operation) (hfault : operation.Faults word m) :
    ∃ fault ∈ operation.cause word m,
      operation.perform (.ofWord word) m = .error (.fault fault) (operation.remnant word m) := by
  cases operation with
  | ret =>
      have hempty : m.sp = 0 := hfault
      exact ⟨_, Option.mem_some_self _, by rw [perform_ret h, if_pos hempty]; rfl⟩
  | call =>
      have hfull : m.sp = stackDepth := hfault
      exact ⟨_, Option.mem_some_self _, by rw [perform_call h, if_pos hfull]; rfl⟩
  | skipIfPressed | skipUnlessPressed =>
      have hkey : 15 < m.held (Field.ofWord word .x) := hfault
      exact ⟨_, Option.mem_some_self _, by
        simp only [perform, skipKey_ofWord h, if_pos hkey]; rfl⟩
  | storeDecimal =>
      have hout : 0xFFD < m.i := hfault
      exact ⟨_, Option.mem_some_self _, by rw [perform_storeDecimal h, if_pos hout]⟩
  | storeRegisters =>
      have hout : 0xFFF < m.i + Field.ofWord word .x := hfault
      exact ⟨_, Option.mem_some_self _, by rw [perform_storeRegisters h, if_pos hout]⟩
  | loadRegisters =>
      have hout : 0xFFF < m.i + Field.ofWord word .x := hfault
      exact ⟨_, Option.mem_some_self _, by
        rw [perform_loadRegisters h.size_v h.i_range.1, if_pos hout]⟩
  | draw => exact perform_draw_faults h hfault
  | _ => exact hfault.elim

end

end Operation

/-! ## The standard registry -/

theorem Registry.handler?_standard (operation : Operation) :
    standard.handler? operation.key = some operation.perform := by
  cases operation <;> rfl

theorem Registry.execute_of_handler?
    {registry : Registry} {key : String} {handler : Handler}
    (hhandler : registry.handler? key = some handler) (operands : Operands) (m : Machine) :
    registry.execute key operands m = handler operands m := by
  simp only [execute, hhandler]

theorem Decoded.operands_eq {word : Int} (h : (decode word).valid = true) :
    (decode word).operands = .ofWord word := by
  rw [Decoded.operands, if_pos h]
  simp only [decode, Operands.ofWord, Field.ofWord, Operands.mk.injEq, Option.some.injEq]
  omega

/-- The operands that an operation looks up are those of the word, also when the word is no
instruction and gives none. -/
theorem Registry.run_decode (word : Int) (m : Machine) :
    run (decode word) m = (Operation.ofWord word).perform (.ofWord word) m := by
  have hhandler : standard.handler? (decode word).key = some (Operation.ofWord word).perform :=
    handler?_standard _
  rw [run, execute_of_handler? hhandler]
  by_cases hvalid : (decode word).valid = true
  · rw [Decoded.operands_eq hvalid]
  · have hunrecognized : Operation.ofWord word = .unrecognized := by
      by_contra hrecognized
      exact hvalid (decide_eq_true hrecognized)
    rw [hunrecognized]
    rfl

theorem Registry.run_decode_completes
    {m : Machine} (h : m.WellFormed) (word : Int)
    (hfine : ¬ (Operation.ofWord word).Faults word m) :
    run (decode word) m = .ok () ((Operation.ofWord word).completed word m) := by
  rw [run_decode]
  exact Operation.perform_completes h _ hfine

theorem Registry.run_decode_faults
    {m : Machine} (h : m.WellFormed) (word : Int)
    (hfault : (Operation.ofWord word).Faults word m) :
    ∃ fault ∈ (Operation.ofWord word).cause word m,
      run (decode word) m =
        .error (.fault fault) ((Operation.ofWord word).remnant word m) := by
  rw [run_decode]
  exact Operation.perform_faults h _ hfault

end Chip8
