import Chip8.Instruction.Operands
import Chip8.Machine.Registers

/-!
# Operands of an execution

An operation looks its operands up when it comes to need them.  A missing operand is an
error at that point, and what was done before it stays done.
-/

namespace Chip8.Operands

def need (operands : Operands) (field : Field) : Machine.Action Int := fun m =>
  match operands.get? field with
  | some value => .ok value m
  | none => .error (.missingOperand field) m

/-- Looks up the register that an operand names, and reads it. -/
def needRegister (operands : Operands) (field : Field) : Machine.Action Int := do
  Machine.register (← operands.need field)

end Chip8.Operands
