import Chip8.Interpreter.Basic
import Chip8.Machine.Display
import Chip8.Machine.Report

/-!
# Summaries

The figures of a run that are shown at its end.
-/

namespace Chip8

/-- The figures of a run. -/
structure Summary where
  cycles : Int
  runState : RunState
  halted : Bool
  registers : List (String × Int)
  programLength : Int
  beeps : Nat
  litPixels : Nat

/-- The figures of an interpreter's run so far. -/
def Interpreter.summary {τ : Type} (s : Interpreter τ) : Summary where
  cycles := s.machine.cycles
  runState := s.machine.runState
  halted := s.isHalted
  registers := s.machine.registers
  programLength := s.machine.programLength
  beeps := s.beeps
  litPixels := s.machine.litPixels

end Chip8
