import Chip8.Interpreter.Step

/-!
# The cycle driver

Each call of the driver adds the elapsed time to the time that was left, and takes a step
for each period in it, up to the limit of the call.  Time for more than one call's steps is
not kept.  A machine that has stopped takes no steps and keeps no time.
-/

namespace Chip8.Interpreter

variable {τ : Type} [TimeScale τ]

open TimeScale

/-- Takes steps while there is time for one, at most `attempts`; `steps` were taken before. -/
def drive : (attempts steps : Nat) → Interpreter τ → EStateM.Result Error (Interpreter τ) Nat
  | 0, steps, s => .ok steps s
  | attempts + 1, steps, s =>
      if s.machine.runState = .halted then .ok steps s
      else if below (add s.pending slack) (period : τ) then .ok steps s
      else
        match step { s with pending := atLeast (sub s.pending period) zero } with
        | .ok _ s => drive attempts (steps + 1) s
        | .error e s => .error e s

/-- Drops the time for more than one call's steps. -/
def dropBacklog : Action τ Unit := fun s =>
  match periods s.stepsPerCall with
  | some most => .ok () { s with pending := atMost s.pending most }
  | none => .error .countTooLarge s

/-- Adds an elapsed time to the pending one; time does not run backwards. -/
def addTime (elapsed : τ) : Action τ Unit :=
  modify fun s => { s with pending := add s.pending (atLeast elapsed zero) }

/-- Takes the steps of one call at a reading of the clock, and counts them.  The elapsed
time is measured by the clock unless it is given. -/
def runCycles (now : τ) (elapsed : Option τ) : Action τ Nat := fun s =>
  match s.lastTick with
  | none => .error .notInitialized s
  | some last =>
      let s := { s with lastTick := some now }
      if s.isHalted then .ok 0 s
      else
        (do
          addTime (elapsed.getD (sub now last))
          let steps ← drive s.stepsPerCall 0
          dropBacklog
          return steps : Action τ Nat) s

end Chip8.Interpreter
