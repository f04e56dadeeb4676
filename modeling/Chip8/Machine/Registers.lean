import Chip8.Machine.Basic
import Chip8.Slot

/-!
# Registers

Access to the registers.  Instructions name a register by its position in the bank, where
negative positions count from the end; a caller names it by its number, which has to be one
of the sixteen.  Values are cut to the width of the register that takes them.
-/

namespace Chip8.Machine

/-- The number of a `V` register. -/
def IsRegister (number : Int) : Prop :=
  0 ≤ number ∧ number < registerCount

instance (number : Int) : Decidable (IsRegister number) :=
  inferInstanceAs (Decidable (_ ∧ _))

/-- The content of the register at a position. -/
def register (position : Int) : Action Int := fun m =>
  match Slot.place? m.v.size position with
  | some n => .ok (m.v.getD n 0) m
  | none => .error (.readOutside position) m

/-- Puts a value as it is into the register at a place. -/
def assign (place : Nat) (value : Int) : Action Unit := fun m =>
  if place < m.v.size then .ok () { m with v := m.v.setIfInBounds place value }
  else .error (.writeOutside place) m

def getRegister (number : Int) : Action Int := fun m =>
  if IsRegister number then .ok (m.v.getD number.toNat 0) m
  else .error (.noSuchRegister number) m

/-- Sets a register to the low eight bits of a value. -/
def setRegister (number value : Int) : Action Unit := fun m =>
  if IsRegister number then
    .ok () { m with v := m.v.setIfInBounds number.toNat (value % 256) }
  else .error (.noSuchRegister number) m

/-- Sets the flag register to the low eight bits of a value. -/
def setFlag (value : Int) : Action Unit := fun m =>
  .ok () { m with v := m.v.setIfInBounds flagRegister (value % 256) }

/-- Sets the index register to the low sixteen bits of a value. -/
def setIndex (value : Int) : Action Unit := fun m =>
  .ok () { m with i := value % 65536 }

/-- Moves the program counter on; it has sixteen bits. -/
def advance (amount : Int) : Action Unit := fun m =>
  .ok () { m with pc := (m.pc + amount) % 65536 }

/-- Sets the program counter to the low sixteen bits of an address. -/
def setPc (address : Int) : Action Unit := fun m =>
  .ok () { m with pc := address % 65536 }

def setDelay (value : Int) : Action Unit := fun m =>
  .ok () { m with delay := value }

def setSound (value : Int) : Action Unit := fun m =>
  .ok () { m with sound := value }

/-- Draws a byte from the random source. -/
def drawByte : Action UInt8 := fun m =>
  let (byte, random) := m.random.nextByte
  .ok byte { m with random := random }

end Chip8.Machine
