import Chip8.Machine.Basic

/-!
# Display

Clearing the screen and flipping its pixels.
-/

namespace Chip8.Machine

/-- A pixel of the screen, by its column and its row. -/
def IsPixel (x y : Int) : Prop :=
  0 ≤ x ∧ x < screenWidth ∧ 0 ≤ y ∧ y < screenHeight

instance (x y : Int) : Decidable (IsPixel x y) :=
  inferInstanceAs (Decidable (_ ∧ _ ∧ _ ∧ _))

/-- Whether the pixel in a column and a row is lit. -/
def lit (m : Machine) (x y : Nat) : Bool :=
  (m.screen.getD y #[]).getD x false

def litPixels (m : Machine) : Nat :=
  (m.screen.toList.flatMap Array.toList).count true

def clearScreen : Action Unit := fun m =>
  .ok () { m with screen := darkScreen }

/-- Flips a pixel, and tells whether it was lit. -/
def flipPixel (x y : Int) : Action Bool := fun m =>
  if IsPixel x y then
    .ok (m.lit x.toNat y.toNat)
      { m with screen := m.screen.modify y.toNat fun row => row.modify x.toNat not }
  else .error (.fault (.pixelOutside x y)) m

end Chip8.Machine
