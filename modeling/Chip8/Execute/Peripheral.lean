import Chip8.Execute.Operand
import Chip8.Machine.Control
import Chip8.Machine.Keypad

/-!
# Timers and key input

Reading and setting the timers, and waiting for a key.
-/

namespace Chip8.Execute

open Machine (Action)

def readDelay (operands : Operands) : Action Unit := do
  let x ← operands.need .x
  Machine.setRegister x (← get).delay
  Machine.advance 2

def setDelay (operands : Operands) : Action Unit := do
  Machine.setDelay (← operands.needRegister .x)
  Machine.advance 2

def setSound (operands : Operands) : Action Unit := do
  Machine.setSound (← operands.needRegister .x)
  Machine.advance 2

/-- Takes the highest pressed key, or starts to wait for one and stays where it is. -/
def awaitKey (operands : Operands) : Action Unit := do
  match (← get).pressedKey with
  | some key =>
      Machine.setRegister (← operands.need .x) key
      Machine.advance 2
  | none =>
      Machine.beginWait
      Machine.waitIn (← operands.need .x)

end Chip8.Execute
