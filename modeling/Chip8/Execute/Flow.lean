import Chip8.Execute.Operand
import Chip8.Machine.Keypad
import Chip8.Machine.Stack

/-!
# Flow of control

Jumps, calls, returns and skips.  A call stores its own address, and the return goes on
behind it.  A skip moves on by two instructions instead of one.
-/

namespace Chip8.Execute

open Machine (Action)

/-- Returns to the instruction after the most recent call. -/
def ret : Action Unit := do
  Machine.setPc (← Machine.pop)
  Machine.advance 2

def jump (operands : Operands) : Action Unit := do
  Machine.setPc (← operands.need .nnn)

def call (operands : Operands) : Action Unit := do
  Machine.push (← get).pc
  Machine.setPc (← operands.need .nnn)

/-- Jumps as far beyond an address as `V0` says. -/
def jumpBeyond (operands : Operands) : Action Unit := do
  let address ← operands.need .nnn
  let offset ← Machine.register 0
  Machine.setPc (address + offset)

/-- Moves on, over one instruction if the condition holds. -/
def skipIf (condition : Bool) : Action Unit :=
  Machine.advance (if condition then 4 else 2)

/-- Skips if comparing a register with a byte gives `wanted`. -/
def skipByte (wanted : Bool) (operands : Operands) : Action Unit := do
  let left ← operands.needRegister .x
  let right ← operands.need .nn
  skipIf ((left == right) == wanted)

/-- Skips if comparing two registers gives `wanted`. -/
def skipRegister (wanted : Bool) (operands : Operands) : Action Unit := do
  let left ← operands.needRegister .x
  let right ← operands.needRegister .y
  skipIf ((left == right) == wanted)

/-- Skips if the state of the key that a register names is `wanted`. -/
def skipKey (wanted : Bool) (operands : Operands) : Action Unit := do
  let pressed ← Machine.isKeyPressed (← operands.needRegister .x)
  skipIf (pressed == wanted)

end Chip8.Execute
