import Chip8.Event
import Chip8.Machine.Font
import Chip8.TimeScale

/-!
# The interpreter

An interpreter is a machine with the bookkeeping of its runs: the listener for beeps, the
number of beeps, the reference clock with the time that no cycle has used yet, and the
journal of events.
-/

namespace Chip8

/-- Someone who is called for each beep, and may fail.  The calls are numbered from zero. -/
structure Listener where
  /-- The error of a call, by its number. -/
  reply : Nat → Option Error
  calls : Nat := 0

/-- An interpreter that counts time on the scale `τ`. -/
structure Interpreter (τ : Type) where
  machine : Machine
  /-- How many cycles one call attempts at most. -/
  stepsPerCall : Nat
  listener : Option Listener := none
  beeps : Nat := 0
  /-- The clock at the last call; there is none before the interpreter is initialized. -/
  lastTick : Option τ := none
  /-- The time that no cycle has used yet. -/
  pending : τ
  /-- The events, the latest first. -/
  journal : List Event := []

namespace Interpreter

variable {τ : Type}

abbrev Action (τ : Type) := EStateM Error (Interpreter τ)

/-- A new interpreter with a seeded random source. -/
def create [TimeScale τ] (stepsPerCall seed : Int) (listener : Option Listener) :
    Except Error (Interpreter τ) :=
  if stepsPerCall < 1 then .error (.noStepsPerCall stepsPerCall)
  else .ok {
    machine := .ofSeed seed
    stepsPerCall := stepsPerCall.toNat
    listener := listener
    pending := TimeScale.zero }

def initialized (s : Interpreter τ) : Bool :=
  s.lastTick.isSome

def isHalted (s : Interpreter τ) : Bool :=
  s.machine.runState = .halted

def isAwaitingKey (s : Interpreter τ) : Bool :=
  s.machine.runState = .awaitingKey

/-- Writes an event into the journal. -/
def record (event : Event) : Action τ Unit := fun s =>
  .ok () { s with journal := event :: s.journal }

/-- An action on the machine.  The machine is taken out meanwhile, so that it is updated in
place. -/
def onMachine {α : Type} (action : Machine.Action α) : Action τ α := fun s =>
  let m := s.machine
  let s := { s with machine := .hollow }
  match action m with
  | .ok a m => .ok a { s with machine := m }
  | .error e m => .error e { s with machine := m }

/-- Runs an action and catches the faults of the machine; other errors pass. -/
def attempt {α : Type} (action : Action τ α) : Action τ (Except Fault α) := fun s =>
  match action s with
  | .ok a s => .ok (.ok a) s
  | .error (.fault cause) s => .ok (.error cause) s
  | .error e s => .error e s

/-- An action on the machine ends as it does on the machine alone. -/
theorem onMachine_eq {α : Type} (action : Machine.Action α) (s : Interpreter τ) :
    onMachine action s =
      match action s.machine with
      | .ok a m => .ok a { s with machine := m }
      | .error e m => .error e { s with machine := m } := rfl

end Interpreter

end Chip8
