/-!
# Positions in a table

A position in a table of fixed size is counted from the start when it is at least zero and
from the end when it is negative, so `-1` is the last place.  Bounds of a part of a table
are counted the same way, and are moved to the nearest end when they lie outside.  An integer
that does not fit into sixty-four bits is no position in any table.
-/

namespace Chip8.Slot

/-- An integer that fits into sixty-four bits. -/
def IsPosition (position : Int) : Prop :=
  -0x8000000000000000 ≤ position ∧ position < 0x8000000000000000

instance (position : Int) : Decidable (IsPosition position) :=
  inferInstanceAs (Decidable (_ ∧ _))

/-- The place that a position names in a table of `size` places. -/
def place? (size : Nat) (position : Int) : Option Nat :=
  if 0 ≤ position then
    if position < size then some position.toNat else none
  else if 0 ≤ position + size then some (position + size).toNat
  else none

/-- The bound that a position sets in a table of `size` places. -/
def bound (size : Nat) (position : Int) : Nat :=
  if 0 ≤ position then min position.toNat size else (position + size).toNat

/-- The part of a list between two bounds. -/
def between {α : Type} (first last : Int) (cells : List α) : List α :=
  (cells.take (bound cells.length last)).drop (bound cells.length first)

end Chip8.Slot
