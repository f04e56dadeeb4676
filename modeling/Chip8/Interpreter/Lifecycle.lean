import Chip8.Interpreter.Basic
import Chip8.Machine.Control
import Chip8.Machine.Keypad
import Chip8.Storage.Tree

/-!
# Lifecycle

Starting an interpreter, loading programs into it, restarting it, and pressing keys.
Programs are only loaded into an initialized interpreter, and whole or not at all.
-/

namespace Chip8.Interpreter

variable {τ : Type}

/-- Initializes the interpreter and starts its clock at a reading; only the first call has an
effect. -/
def start [TimeScale τ] (now : τ) : Action τ Unit := do
  unless (← get).initialized do
    onMachine Machine.resetControl
    modify fun s => { s with
      machine.programLength := 0
      lastTick := some now
      pending := TimeScale.zero }
    record (.initialized (← get).machine.pc)

/-- Sets the machine back to the start of its program. -/
def restart : Action τ Unit := do
  onMachine Machine.resetControl
  record .restarted

/-- A value of eight bits. -/
def IsByte (value : Int) : Prop :=
  0 ≤ value ∧ value ≤ 0xFF

instance (value : Int) : Decidable (IsByte value) :=
  inferInstanceAs (Decidable (_ ∧ _))

/-- Loads a program, and tells whether the interpreter was initialized for it. -/
def loadProgram (program : List Int) : Action τ Bool := do
  if (← get).initialized then
    unless program.all (fun value => IsByte value) do
      throw .notAByte
    unless program.length ≤ programCapacity do
      throw (.fault (.programTooLarge program.length))
    let length ← onMachine (Machine.loadBytes programStart program)
    modify fun s => { s with machine.programLength := length }
    record (.programLoaded length)
    return true
  else
    record .programIgnored
    return false

/-- How the file at a path is read. -/
abbrev Reader := Path → Except FileFault (List UInt8)

/-- Reads the file at a path. -/
def readRom (reader : Reader) (path : String) : Except Error (List UInt8) :=
  if path.toList.contains (Char.ofNat 0) then .error .nullInPath
  else (reader (.ofText path)).mapError (.romUnreadable (.ofText path))

/-- Loads the program in the file at a path, and tells whether the interpreter was
initialized for it. -/
def loadRom (reader : Reader) (path : String) : Action τ Bool := do
  if (← get).initialized then
    match readRom reader path with
    | .error e => throw e
    | .ok bytes => loadProgram (bytes.map fun byte => (byte.toNat : Int))
  else
    record .romIgnored
    return false

def pressKey (key : Int) : Action τ Unit :=
  onMachine (Machine.setKey true key)

def releaseKey (key : Int) : Action τ Unit :=
  onMachine (Machine.setKey false key)

/-- Presses exactly the given keys. -/
def setKeys (keys : List Int) : Action τ Unit :=
  onMachine (Machine.setKeys keys)

end Chip8.Interpreter
