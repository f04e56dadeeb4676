import Chip8.Machine.Basic
import Chip8.Slot

/-!
# Stack

Pushing and popping return addresses.
-/

namespace Chip8.Machine

/-- Pushes the low sixteen bits of an address. -/
def push (address : Int) : Action Unit := fun m =>
  if stackDepth ≤ m.sp then .error (.fault (.stackOverflow m.sp m.pc)) m
  else
    match Slot.place? m.stack.size m.sp with
    | some n =>
        .ok () { m with
          stack := m.stack.setIfInBounds n (address % 65536)
          sp := m.sp + 1 }
    | none => .error (.writeOutside m.sp) m

/-- Pops the most recent return address. -/
def pop : Action Int := fun m =>
  if m.sp ≤ 0 then .error (.fault (.stackUnderflow m.pc)) m
  else
    let m := { m with sp := m.sp - 1 }
    match Slot.place? m.stack.size m.sp with
    | some n => .ok (m.stack.getD n 0) m
    | none => .error (.readOutside m.sp) m

/-- The stack slots in use, oldest first. -/
def usedStack (m : Machine) : List Int :=
  Slot.between 0 m.sp m.stack.toList

end Chip8.Machine
