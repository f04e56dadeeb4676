import Chip8.Execute.Operand
import Chip8.Machine.Memory

/-!
# Index register and memory

Operations on the index register, and the transfers between registers and memory.  A
transfer that faults keeps the bytes that it moved before the fault.
-/

namespace Chip8.Execute

open Machine (Action)

def loadIndex (operands : Operands) : Action Unit := do
  Machine.setIndex (← operands.need .nnn)
  Machine.advance 2

/-- Adds a register to the index register; the flag tells that the sum is no address of
memory. -/
def addIndex (operands : Operands) : Action Unit := do
  let x ← operands.need .x
  let value ← Machine.register x
  Machine.setFlag (if 0xFFF < (← get).i + value then 1 else 0)
  let value ← Machine.register x
  Machine.setIndex ((← get).i + value)
  Machine.advance 2

/-- Points the index register to the glyph of a register's digit. -/
def loadGlyph (operands : Operands) : Action Unit := do
  Machine.setIndex ((← operands.needRegister .x) * glyphSize)
  Machine.advance 2

/-- Stores the three decimal digits of a register, hundreds first. -/
def storeDecimal (operands : Operands) : Action Unit := do
  let value ← operands.needRegister .x
  Machine.writeByte (← get).i (value / 100)
  Machine.writeByte ((← get).i + 1) (value / 10 % 10)
  Machine.writeByte ((← get).i + 2) (value % 100 % 10)
  Machine.advance 2

/-- Stores the register at a place behind the index register. -/
def storeRegister (place : Nat) : Action Unit := do
  let value ← Machine.register place
  Machine.writeByte ((← get).i + place) value

/-- Loads the register at a place from behind the index register. -/
def loadRegister (place : Nat) : Action Unit := do
  let byte ← Machine.readByte ((← get).i + place)
  Machine.assign place byte.toNat

/-- Moves the registers from `V0` up to an operand, and the index register behind them. -/
def transfer (move : Nat → Action Unit) (operands : Operands) : Action Unit := do
  let x ← operands.need .x
  Action.sweep move (x + 1).toNat 0
  Machine.setIndex ((← get).i + x + 1)
  Machine.advance 2

end Chip8.Execute
