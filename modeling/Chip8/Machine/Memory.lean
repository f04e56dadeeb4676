import Chip8.Machine.Basic

/-!
# Memory

Reading and writing single bytes and blocks of bytes.  Addresses outside memory are faults,
and a block is written whole or not at all.
-/

namespace Chip8.Machine

/-- An address of memory. -/
def IsAddress (address : Int) : Prop :=
  0 ≤ address ∧ address < memorySize

instance (address : Int) : Decidable (IsAddress address) :=
  inferInstanceAs (Decidable (_ ∧ _))

/-- Writes bytes over a table from a place on. -/
def overlay (table : Array UInt8) : Nat → List UInt8 → Array UInt8
  | _, [] => table
  | place, byte :: bytes => overlay (table.setIfInBounds place byte) (place + 1) bytes

def readByte (address : Int) : Action UInt8 := fun m =>
  if IsAddress address then .ok (m.memory.getD address.toNat 0) m
  else .error (.fault (.memoryRead address)) m

/-- Writes the low eight bits of a value to an address. -/
def writeByte (address value : Int) : Action Unit := fun m =>
  if IsAddress address then
    .ok () { m with memory := m.memory.setIfInBounds address.toNat (.ofInt value) }
  else .error (.fault (.memoryWrite address)) m

/-- Writes the low eight bits of values to consecutive addresses, and counts them. -/
def loadBytes (address : Int) (values : List Int) : Action Nat := fun m =>
  if address < 0 ∨ memorySize < address + values.length then
    .error (.fault (.blockOutside values.length address)) m
  else
    .ok values.length
      { m with memory := overlay m.memory address.toNat (values.map UInt8.ofInt) }

@[simp] theorem size_overlay (table : Array UInt8) (place : Nat) (bytes : List UInt8) :
    (overlay table place bytes).size = table.size := by
  induction bytes generalizing table place with
  | nil => rfl
  | cons byte bytes ih => simp [overlay, ih]

end Chip8.Machine
