import Chip8.Interpreter.Basic

/-!
# Timers

Both timers count down by one for each completed cycle, and stop at zero.  A beep is raised
when the sound timer runs out.  If the listener fails, the sound timer stays at one, so that
the beep is raised again by the next cycle.
-/

namespace Chip8

namespace Machine

def tickDelay : Action Unit := fun m =>
  .ok () { m with delay := if 0 < m.delay then m.delay - 1 else m.delay }

def tickSound : Action Unit := fun m =>
  .ok () { m with sound := if 0 < m.sound then m.sound - 1 else m.sound }

def countCycle : Action Unit := fun m =>
  .ok () { m with cycles := m.cycles + 1 }

end Machine

namespace Interpreter

variable {τ : Type}

/-- Counts a beep, and calls the listener; without one the beep goes into the journal. -/
def beep : Action τ Unit := fun s =>
  match s.listener with
  | none => record .beep { s with beeps := s.beeps + 1 }
  | some listener =>
      let s := { s with
        beeps := s.beeps + 1
        listener := some { listener with calls := listener.calls + 1 } }
      match listener.reply listener.calls with
      | none => .ok () s
      | some e => .error e s

/-- Counts both timers down, and tells whether a beep was raised. -/
def updateTimers : Action τ Bool := do
  onMachine Machine.tickDelay
  let due := (← get).machine.sound == 1
  if due then
    beep
  onMachine Machine.tickSound
  return due

/-- Counts a completed cycle, and counts the timers down. -/
def finishCycle : Action τ Bool := do
  onMachine Machine.countCycle
  updateTimers

end Interpreter

end Chip8
