import Chip8.Execute.Operand

/-!
# Arithmetic and logic

Loads, bitwise operations, additions, subtractions and shifts on the `V` registers.  The
operations with a flag write it before their result, and read their operands again after
that; so the flag register as an operand has its new value.
-/

namespace Chip8.Execute

open Machine (Action)

def loadByte (operands : Operands) : Action Unit := do
  let x ← operands.need .x
  let byte ← operands.need .nn
  Machine.setRegister x byte
  Machine.advance 2

/-- Adds a byte to a register; the flag is not touched. -/
def addByte (operands : Operands) : Action Unit := do
  let x ← operands.need .x
  let value ← Machine.register x
  let byte ← operands.need .nn
  Machine.setRegister x (value + byte)
  Machine.advance 2

def copy (operands : Operands) : Action Unit := do
  let x ← operands.need .x
  let value ← operands.needRegister .y
  Machine.setRegister x value
  Machine.advance 2

/-- Combines the low bytes of two registers. -/
def bitwise (combine : UInt8 → UInt8 → UInt8) (operands : Operands) : Action Unit := do
  let x ← operands.need .x
  let left ← Machine.register x
  let right ← operands.needRegister .y
  Machine.setRegister x (combine (.ofInt left) (.ofInt right)).toNat
  Machine.advance 2

/-- Adds a register to another; the flag is the carry. -/
def add (operands : Operands) : Action Unit := do
  let x ← operands.need .x
  let y ← operands.need .y
  let right ← Machine.register y
  let left ← Machine.register x
  Machine.setFlag (if 0xFF - left < right then 1 else 0)
  let left ← Machine.register x
  let right ← Machine.register y
  Machine.setRegister x (left + right)
  Machine.advance 2

/-- Subtracts a register from another unless that borrows; the flag tells that it did not. -/
def subtract (operands : Operands) : Action Unit := do
  let x ← operands.need .x
  let y ← operands.need .y
  let right ← Machine.register y
  let left ← Machine.register x
  if left < right then
    Machine.setFlag 0
  else
    Machine.setFlag 1
    let left ← Machine.register x
    let right ← Machine.register y
    Machine.setRegister x (left - right)
  Machine.advance 2

/-- Subtracts a register from another, the other way round; the flag is the borrow. -/
def subtractFrom (operands : Operands) : Action Unit := do
  let x ← operands.need .x
  let y ← operands.need .y
  let left ← Machine.register x
  let right ← Machine.register y
  Machine.setFlag (if right < left then 1 else 0)
  let right ← Machine.register y
  let left ← Machine.register x
  Machine.setRegister x (right - left)
  Machine.advance 2

/-- Shifts a register right; the flag is the bit that falls out. -/
def shiftRight (operands : Operands) : Action Unit := do
  let x ← operands.need .x
  Machine.setFlag ((← Machine.register x) % 2)
  Machine.setRegister x ((← Machine.register x) / 2)
  Machine.advance 2

/-- Shifts a register left; the flag is the bit that falls out. -/
def shiftLeft (operands : Operands) : Action Unit := do
  let x ← operands.need .x
  Machine.setFlag ((← Machine.register x) / 128)
  Machine.setRegister x ((← Machine.register x) * 2)
  Machine.advance 2

/-- Sets a register to a random byte under a mask. -/
def random (operands : Operands) : Action Unit := do
  let x ← operands.need .x
  let byte ← Machine.drawByte
  let mask ← operands.need .nn
  Machine.setRegister x (byte &&& .ofInt mask).toNat
  Machine.advance 2

end Chip8.Execute
