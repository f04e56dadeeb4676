import Chip8.Execute.Operand
import Chip8.Machine.Display
import Chip8.Machine.Memory

/-!
# Drawing

A sprite is eight pixels wide, a byte for each row with the leftmost pixel in the highest
bit.  Its set bits flip pixels, and the flag tells whether a lit pixel was darkened.  A
sprite that starts off the screen is not drawn at all; one that runs off it is a fault.
-/

namespace Chip8.Execute

open Machine (Action)

/-- The number of pixels of a sprite's row. -/
abbrev spriteWidth : Nat := 8

/-- Whether a sprite's row has a pixel in a column. -/
def spriteBit (row : UInt8) (column : Nat) : Bool :=
  row.toNat.testBit (spriteWidth - 1 - column)

/-- Draws the pixel of a sprite's row in a column. -/
def drawPixel (x y : Int) (row : UInt8) (column : Nat) : Action Unit := do
  if spriteBit row column then
    if ← Machine.flipPixel (x + column) y then
      Machine.setFlag 1

/-- Draws a row of a sprite, which starts at the index register. -/
def drawRow (x y : Int) (row : Nat) : Action Unit := do
  let bits ← Machine.readByte ((← get).i + row)
  Action.sweep (drawPixel x (y + row) bits) spriteWidth 0

/-- Draws a sprite at the position that two registers give. -/
def draw (operands : Operands) : Action Unit := do
  let x ← operands.needRegister .x
  let y ← operands.needRegister .y
  let height ← operands.need .n
  if x < screenWidth ∧ y < screenHeight then
    Machine.setFlag 0
    Action.sweep (drawRow x y) height.toNat 0
  Machine.advance 2

def clear : Action Unit := do
  Machine.clearScreen
  Machine.advance 2

end Chip8.Execute
