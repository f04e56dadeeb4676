import Chip8.Dimensions
import Chip8.Error
import Chip8.RandomSource

/-!
# The machine

The state of one CHIP-8 machine, and the actions on it.  An action ends with a value or with
an error, and what it changed before an error stays changed.
-/

namespace Chip8

/-- What a machine is doing. -/
inductive RunState where
  /-- It carries instructions out. -/
  | running
  /-- It waits for a key to be pressed. -/
  | awaitingKey
  /-- It has stopped at a fault. -/
  | halted
deriving DecidableEq

namespace RunState

def all : List RunState := [running, awaitingKey, halted]

def name : RunState → String
  | running => "running"
  | awaitingKey => "awaiting_key"
  | halted => "halted"

/-- The name of a run state in a state line. -/
def label : RunState → String
  | running => "RUNNING"
  | awaitingKey => "AWAITING_KEY"
  | halted => "HALTED"

/-- The run state with a name. -/
def ofName? (name : String) : Option RunState :=
  all.find? fun state => state.name = name

end RunState

/-- A screen without a lit pixel. -/
def darkScreen : Array (Array Bool) :=
  Array.replicate screenHeight (Array.replicate screenWidth false)

/-- The state of a machine.  Registers, timers and stack slots are integers: the checked
actions keep them in range, and a state may also be given whose values are not. -/
structure Machine where
  memory : Array UInt8 := Array.replicate memorySize 0
  /-- The registers `V0` to `VF`. -/
  v : Array Int := Array.replicate registerCount 0
  i : Int := 0
  pc : Int := programStart
  /-- The number of stack slots in use. -/
  sp : Int := 0
  /-- The return addresses. -/
  stack : Array Int := Array.replicate stackDepth 0
  delay : Int := 0
  sound : Int := 0
  /-- The instruction word that was fetched last. -/
  opcode : Int := 0
  /-- The rows of the screen; a lit pixel is `true`. -/
  screen : Array (Array Bool) := darkScreen
  /-- The keys; a pressed key is `true`. -/
  keys : Array Bool := Array.replicate keyCount false
  runState : RunState := .running
  /-- The number of the register that waits for a key. -/
  keyRegister : Option Int := none
  /-- The size of the loaded program in bytes. -/
  programLength : Int := 0
  /-- The number of completed cycles. -/
  cycles : Int := 0
  random : RandomSource := .ofSeed 0
deriving DecidableEq

namespace Machine

abbrev Action := EStateM Error Machine

/-- The machine without memory, registers, stack, screen, keys and random words.  It stands
in for a machine that is being worked on. -/
def hollow : Machine where
  memory := #[]
  v := #[]
  stack := #[]
  screen := #[]
  keys := #[]
  random := { words := #[], position := 0 }

/-- Two machines look the same when they agree in everything but their random sources. -/
def looksLike (m other : Machine) : Bool :=
  { m with random := other.random } = other

namespace Action

/-- Runs `body` at `count` consecutive numbers from `first` on, up to the first error. -/
def sweep (body : Nat → Action Unit) : (count first : Nat) → Action Unit
  | 0, _ => pure ()
  | count + 1, first => do
      body first
      sweep body count (first + 1)

end Action

end Machine

end Chip8
