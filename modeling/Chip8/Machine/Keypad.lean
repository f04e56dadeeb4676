import Chip8.Machine.Basic

/-!
# Keypad

The sixteen keys.  A program that asks for any other key faults; a caller who names one is
refused, and then no key changes.
-/

namespace Chip8.Machine

/-- A key of the keypad. -/
def IsKey (key : Int) : Prop :=
  0 ≤ key ∧ key < keyCount

instance (key : Int) : Decidable (IsKey key) :=
  inferInstanceAs (Decidable (_ ∧ _))

/-- Whether a key is pressed, as a program asks. -/
def isKeyPressed (key : Int) : Action Bool := fun m =>
  if IsKey key then .ok (m.keys.getD key.toNat false) m
  else .error (.fault (.keyOutside key m.pc)) m

/-- The pressed keys in rising order. -/
def pressedKeys (m : Machine) : List Nat :=
  (List.range keyCount).filter fun key => m.keys.getD key false

/-- The highest pressed key. -/
def pressedKey (m : Machine) : Option Nat :=
  m.pressedKeys.getLast?

def setKey (pressed : Bool) (key : Int) : Action Unit := fun m =>
  if IsKey key then .ok () { m with keys := m.keys.setIfInBounds key.toNat pressed }
  else .error (.invalidKey key) m

/-- Presses exactly the given keys and releases all others.  The keys are a set, so which of several
invalid ones an error names is left open; it is the first of the list here. -/
def setKeys (keys : List Int) : Action Unit := fun m =>
  match keys.find? fun key => ¬ IsKey key with
  | some key => .error (.invalidKey key) m
  | none =>
      .ok () { m with keys := (Array.range keyCount).map fun (n : Nat) => keys.contains (n : Int) }

end Chip8.Machine
