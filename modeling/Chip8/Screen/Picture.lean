import Chip8.Screen.Table

/-!
# Pictures

The screen as a picture in two colours, in which each pixel is a square block of a given
size.
-/

namespace Chip8

def litColour : Colour := ⟨136, 126, 203⟩

def darkColour : Colour := ⟨40, 36, 80⟩

abbrev Picture := Table Colour

namespace Picture

/-- The size of a block, unless another is given. -/
abbrev usualScale : Int := 8

/-- Repeats each member of a list. -/
def stretch {α : Type} (scale : Nat) (cells : List α) : List α :=
  cells.flatMap (List.replicate scale)

def colour (pixel : Bool) : Colour :=
  if pixel then litColour else darkColour

/-- The picture of a screen in blocks of a size. -/
def ofBlocks (scale : Nat) (screen : Array (Array Bool)) : Picture where
  height := scale * screenHeight
  width := scale * screenWidth
  rows := stretch scale (screen.toList.map fun row => stretch scale (row.toList.map colour))

/-- The rows of a screen in bytes. -/
def byteRows (screen : Array (Array Bool)) : List (List UInt8) :=
  screen.toList.map fun row => row.toList.map Bool.toUInt8

/-- The picture of a screen at a scale, as a library makes it: the product with a block of ones is
the screen in blocks, which are then coloured. -/
def ofScreen (library : TableLibrary) (scale : Int) (screen : Array (Array Bool)) :
    Except Error Picture := do
  let pixels ← library.ofRows (byteRows screen)
  let block ← library.ones scale scale
  let blocks ← library.kron pixels block
  let lit ← library.ofColour litColour
  let dark ← library.ofColour darkColour
  let mask ← library.equals blocks 1
  library.choose mask lit dark

end Picture

end Chip8
