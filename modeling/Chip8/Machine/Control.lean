import Chip8.Machine.Memory
import Chip8.Machine.Registers

/-!
# Control

Fetching the next instruction word, waiting for a key and starting again.
-/

namespace Chip8.Machine

/-- Fetches the instruction word at the program counter, high byte first. -/
def fetch : Action Int := fun m =>
  match readByte m.pc m with
  | .error e m => .error e m
  | .ok high m =>
      match readByte (m.pc + 1) m with
      | .error e m => .error e m
      | .ok low m =>
          let word : Int := high.toNat * 256 + low.toNat
          .ok word { m with opcode := word }

/-- Stops carrying instructions out until a key is pressed. -/
def beginWait : Action Unit := fun m =>
  .ok () { m with runState := .awaitingKey }

/-- Makes a register the one that waits for a key. -/
def waitIn (number : Int) : Action Unit := fun m =>
  .ok () { m with keyRegister := some number }

/-- Ends a wait with a key, which the waiting register takes. -/
def takeKey (key : Nat) : Action Unit := fun m =>
  match m.keyRegister with
  | none => .error .noKeyRegister m
  | some number =>
      match setRegister number key m with
      | .error e m => .error e m
      | .ok _ m => advance 2 { m with keyRegister := none, runState := .running }

/-- Sets the control registers, the timers and the run state back to the start of a program.
Memory, `V` registers, stack slots and screen are kept. -/
def resetControl : Action Unit := fun m =>
  .ok () { m with
    pc := programStart
    opcode := 0
    i := 0
    sp := 0
    delay := 0
    sound := 0
    runState := .running
    keyRegister := none }

end Chip8.Machine
