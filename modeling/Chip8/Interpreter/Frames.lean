import Chip8.Interpreter.Drive
import Chip8.Number.WholePart

/-!
# Frames

A run of given length is cut into frames, and the cycle driver is called once in each.  The
time of a frame is given, so that the outcome does not depend on the speed of the host.
-/

namespace Chip8.Interpreter

/-- The number of cycles in a second. -/
abbrev cyclesPerSecond : Float := 60.0

/-- The number of whole frames in a run of given length, at a number of frames per second. -/
def frameCount (seconds rate : Float) : Except Error Nat :=
  match wholePart (seconds * rate) with
  | .ok n => .ok n.toNat
  | .error .notANumber => .error .notANumber
  | .error .infinite => .error .unbounded

/-- Calls the driver once for each frame until the machine stops. -/
def runFrames {τ : Type} [TimeScale τ] (frame : τ) : (count : Nat) → Interpreter τ →
    EStateM.Result Error (Interpreter τ) Unit
  | 0, s => .ok () s
  | count + 1, s =>
      if s.isHalted then .ok () s
      else
        match runCycles TimeScale.zero (some frame) s with
        | .ok _ s => runFrames frame count s
        | .error e s => .error e s

/-- Runs for a time at a number of frames per second. -/
def runFor (seconds rate : Float) : Action Float Unit := do
  let frame := 1.0 / rate
  match frameCount seconds rate with
  | .ok count => runFrames frame count
  | .error e => throw e

end Chip8.Interpreter
