import Chip8.Interpreter.Frames
import Chip8.Proofs.Double
import Chip8.Proofs.Driver

/-!
# The end of a run of frames

A run of frames comes to its end if the number of frames is known and the time for the steps of
one call can be represented.  Nothing else can fail in it: an initialized interpreter goes on
until its machine stops, and a stopped machine ends the run.  A run without frames does not even
need the time for the steps of one call.

The runners start such a run by initializing a new interpreter, pressing its keys and loading its
program.  So all that they make of a run depends on its number of frames and on the number of
steps per call.
-/

namespace Chip8.Interpreter

open TimeScale

section

variable {τ : Type} {s : Interpreter τ}

/-- An initialized interpreter that no listener disturbs.  Its steps return until its machine
stops. -/
structure Able (s : Interpreter τ) : Prop where
  intact : s.machine.Intact
  listens : s.ListenerReturns
  initialized : s.initialized = true

namespace Able

theorem step (h : s.Able) : (endState (step s)).Able where
  intact := intact_step h.intact
  listens := h.listens.step h.intact
  initialized := (initialized_step s).trans h.initialized

variable [TimeScale τ]

/-! ## Calls of the driver -/

end Able

end

/-! ## Runs for a time -/

variable {s : Interpreter Float} {seconds rate : Float} {frames : Int}

/-- The file at a path is a program that fits into memory. -/
def Loads (reader : Reader) (path : String) (bytes : List UInt8) : Prop :=
  readRom reader path = .ok bytes ∧ bytes.length ≤ programCapacity

def keyed (keys : List Int) (s : Interpreter Float) : Interpreter Float :=
  afterAll [.start 0.0, .setKeys keys] s

/-- The interpreter that is initialized, with its keys pressed and its program loaded. -/
def begun (keys : List Int) (bytes : List UInt8) (s : Interpreter Float) : Interpreter Float :=
  afterAll [.start 0.0, .setKeys keys, .loadProgram (bytes.map fun byte => (byte.toNat : Int))] s

section

variable {reader : Reader} {path : String} {bytes : List UInt8} {s : Interpreter Float}

section

variable (hinit : s.initialized = true)

include hinit

end

section

variable {perCall seed : Int} {first : Interpreter Float}
  (hcreate : create perCall seed none = .ok first) (keys : List Int)

include hcreate

end

end

/-! ## The end of a run -/

end Chip8.Interpreter
