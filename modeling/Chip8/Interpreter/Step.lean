import Chip8.Interpreter.Timers
import Chip8.Machine.Control
import Chip8.Machine.Keypad
import Chip8.Registry

/-!
# Steps

One step of an interpreter.  A running machine fetches an instruction, decodes it and
carries it out; if that completes, the cycle is counted and the timers tick.  A machine that
waits for a key looks at the keypad, and a pressed key completes the cycle.  A fault stops
the machine and is reported in the result.
-/

namespace Chip8

/-- The outcome of a step. -/
structure StepResult where
  /-- The number of completed cycles after the step. -/
  cycle : Int
  /-- The program counter before the step. -/
  pc : Int
  /-- The instruction word that the step handled. -/
  opcode : Int
  /-- The decoded instruction, unless the step waited or could not fetch one. -/
  decoded : Option Decoded := none
  /-- Whether an instruction completed. -/
  executed : Bool := false
  /-- Whether the sound timer ran out. -/
  beeped : Bool := false
  /-- The fault that stopped the machine. -/
  fault : Option Fault := none
deriving DecidableEq

namespace Interpreter

variable {τ : Type}

/-- The result of a step from an address, as far as the state tells it. -/
def outcome (pc : Int) : Action τ StepResult := fun s =>
  .ok { cycle := s.machine.cycles, pc := pc, opcode := s.machine.opcode } s

/-- Stops the machine at a fault. -/
def halt (pc : Int) (cause : Fault) : Action τ Unit := do
  modify fun s => { s with machine.runState := .halted }
  record (.faulted pc cause)

/-- Decodes a word, and reports one that is no instruction. -/
def inspect (word : Int) : Action τ Decoded := do
  let decoded := decode word
  unless decoded.valid do
    record (.unrecognized decoded.word)
  return decoded

def waitingStep : Action τ StepResult := do
  let pc := (← get).machine.pc
  match (← get).machine.pressedKey with
  | none => outcome pc
  | some key =>
      onMachine (Machine.takeKey key)
      let beeped ← finishCycle
      return { ← outcome pc with executed := true, beeped := beeped }

/-- Carries a decoded instruction out.  Its cycle completes unless it is unrecognized or
starts to wait for a key. -/
def executeStep (pc : Int) (decoded : Decoded) : Action τ StepResult := do
  match ← attempt (onMachine (Registry.run decoded)) with
  | .error cause =>
      halt pc cause
      return { ← outcome pc with decoded := some decoded, fault := some cause }
  | .ok _ =>
      if decoded.valid && (← get).machine.runState == .running then
        let beeped ← finishCycle
        return { ← outcome pc with decoded := some decoded, executed := true, beeped := beeped }
      else
        return { ← outcome pc with decoded := some decoded }

def runningStep : Action τ StepResult := do
  let pc := (← get).machine.pc
  match ← attempt (onMachine Machine.fetch) with
  | .error cause =>
      halt pc cause
      return { ← outcome pc with fault := some cause }
  | .ok word => executeStep pc (← inspect word)

def step : Action τ StepResult := fun s =>
  if s.initialized then
    match s.machine.runState with
    | .halted => .error .halted s
    | .awaitingKey => waitingStep s
    | .running => runningStep s
  else .error .notInitialized s

end Interpreter

end Chip8
